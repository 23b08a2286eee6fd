/-
  CoroutineHttp.Ws.Outgoing

  What the kernel accepts on the connection of a chat client: the frames `send_frame` has
  made for broadcasts and replies, one after the other, and a part of one more.

  A `write` keeps the rest of its frame in the coroutine that makes it, which may be
  suspended in the middle of the frame.  Broadcasts take turns, by the lock of the room;
  the reply to a PING does not.  `RepliesAlone` is the condition that a reply and a
  broadcast do not meet in the middle of a frame.

  A step is looked at as the outgoing streams see it (`Traffic`): bytes are accepted,
  or the coroutine goes from one frame to the next (`Quiet`), or nothing happens.  A run is
  looked at together with the frames that are made and begun in it (`FrameEvent`).
-/

import CoroutineHttp.Ws.RoomLock

namespace CoroutineHttp.Ws

open CoroutineHttp.Library CoroutineHttp.Core CoroutineHttp.Net

/-! ## Streams of frames -/

/-- The frame of a text message. -/
def textFrame (msg : Bytes) : Bytes := WebSocket.encodeFrame WsOpcode.TEXT msg

/-- `b` is the frames of `msgs` and, if there is a `next`, a part of its frame: some of it,
    and not all of it. -/
def Frames (msgs : List Bytes) (next : Option Bytes) (b : Bytes) : Prop :=
  ∃ part, b = msgs.flatMap textFrame ++ part ∧
    match next with
    | none => part = []
    | some msg => part <+: textFrame msg ∧ part ≠ [] ∧ part ≠ textFrame msg

theorem frames_nil : Frames [] none [] := ⟨[], rfl, rfl⟩

theorem textFrame_ne_nil (msg : Bytes) : textFrame msg ≠ [] := nofun

theorem textFrame_short {m : Bytes} (hm : m.length < 126) :
    textFrame m = 0x81 :: UInt8.ofNat m.length :: m := by
  rw [textFrame, WebSocket.encodeFrame, WebSocket.encodeLength, if_pos hm]
  rfl

theorem textFrame_long {m : Bytes} (hm : 126 ≤ m.length) :
    ∃ y r, textFrame m = 0x81 :: y :: r ∧ (y = 126 ∨ y = 127) := by
  rw [textFrame, WebSocket.encodeFrame, WebSocket.encodeLength, if_neg (Nat.not_lt.mpr hm)]
  split
  · exact ⟨126, _, rfl, .inl rfl⟩
  · exact ⟨127, _, rfl, .inr rfl⟩

theorem toNat_length {n : Nat} (h : n < 126) : (UInt8.ofNat n).toNat = n := by
  rw [UInt8.toNat_ofNat']
  omega

theorem textFrame_tail {m m' r r' : Bytes} (hm : m.length < 126)
    (h : textFrame m ++ r = textFrame m' ++ r') : r = r' := by
  rw [textFrame_short hm] at h
  rcases Nat.lt_or_ge m'.length 126 with hm' | hm'
  · rw [textFrame_short hm'] at h
    obtain ⟨hbyte, hrest⟩ := List.cons.inj (List.cons.inj h).2
    have hlen := congrArg UInt8.toNat hbyte
    rw [toNat_length hm, toNat_length hm'] at hlen
    exact (List.append_inj hrest hlen).2
  · obtain ⟨y, q, hframe, hy⟩ := textFrame_long hm'
    rw [hframe] at h
    have hlen := congrArg UInt8.toNat (List.cons.inj (List.cons.inj h).2).1
    rw [toNat_length hm] at hlen
    rcases hy with rfl | rfl
    · have hlen : m.length = 126 := hlen
      omega
    · have hlen : m.length = 127 := hlen
      omega

/-- Frames are a beginning of frames. -/
theorem Frames.begins {msgs : List Bytes} {next : Option Bytes} {b : Bytes}
    (h : Frames msgs next b) : ∃ all : List Bytes, b <+: all.flatMap textFrame := by
  obtain ⟨part, rfl, hpart⟩ := h
  cases next with
  | none =>
      have hpart : part = [] := hpart
      exact ⟨msgs, by rw [hpart, List.append_nil]⟩
  | some msg =>
      obtain ⟨rest, hrest⟩ := hpart.1
      refine ⟨msgs ++ [msg], rest, ?_⟩
      rw [List.append_assoc, hrest, List.flatMap_append, List.flatMap_singleton]

/-- The second byte of a frame is a length below 126, or says where the length is. -/
theorem length_byte {x y : UInt8} {r : Bytes} {all : List Bytes}
    (h : x :: y :: r <+: all.flatMap textFrame) : y ≤ 127 := by
  obtain ⟨q, hfirst⟩ := h
  cases all with
  | nil => cases hfirst
  | cons m all =>
      rw [List.flatMap_cons] at hfirst
      rcases Nat.lt_or_ge m.length 126 with hm | hm
      · rw [textFrame_short hm] at hfirst
        have hy : y = UInt8.ofNat m.length := (List.cons.inj (List.cons.inj hfirst).2).1
        rw [UInt8.le_iff_toNat_le, hy, toNat_length hm]
        exact Nat.le_succ_of_le (Nat.le_of_lt hm)
      · obtain ⟨y', r', hframe, hy⟩ := textFrame_long hm
        rw [hframe] at hfirst
        have hsame : y = y' := (List.cons.inj (List.cons.inj hfirst).2).1
        rcases hy with rfl | rfl <;> rw [hsame] <;> decide

/-- What comes behind a short frame is a beginning of frames. -/
theorem begins_behind {m r : Bytes} (hm : m.length < 126) {all : List Bytes}
    (h : textFrame m ++ r <+: all.flatMap textFrame) :
    ∃ all' : List Bytes, r <+: all'.flatMap textFrame := by
  obtain ⟨q, hfirst⟩ := h
  cases all with
  | nil =>
      rw [List.flatMap_nil, List.append_assoc] at hfirst
      exact absurd (List.append_eq_nil_iff.mp hfirst).1 (textFrame_ne_nil m)
  | cons m' all =>
      rw [List.flatMap_cons, List.append_assoc] at hfirst
      exact ⟨all, q, textFrame_tail hm hfirst⟩

/-- The message a `write` is about. -/
def Back.msg : Back → Bytes
  | .each _ msg _ => msg
  | .loop => []

/-- The frame that `write` was called with. -/
def Back.frame (back : Back) : Bytes := textFrame back.msg

/-- `p` is at the start of a frame; a reply goes to its own client. -/
def Back.Starts (p client : CoroPtr) (rest : Bytes) (back : Back) : Prop :=
  rest = back.frame ∧ (back = .loop → client = p)

/-! ## The frames of a run -/

/-- What happens to outgoing frames. -/
inductive FrameEvent where
  /-- The stream to `p` begins: its connection is there, or is upgraded. -/
  | opened (p : CoroPtr)
  /-- `send_frame` in `q` makes the frame of `msg` for `p`. -/
  | made (q p : CoroPtr) (msg : Bytes)
  /-- The first bytes of this frame are accepted. -/
  | begun (q p : CoroPtr) (msg : Bytes)
deriving DecidableEq, Repr

namespace FrameEvent

/-- An event, for the list of the frames that are begun on the stream to `p`. -/
def track (p : CoroPtr) : List Bytes → FrameEvent → List Bytes
  | msgs, .opened r => if r = p then [] else msgs
  | msgs, .made _ _ _ => msgs
  | msgs, .begun _ r msg => if r = p then msgs ++ [msg] else msgs

/-- The messages of the frames that are begun on the stream to `p`. -/
def begunOn (p : CoroPtr) (log : List FrameEvent) : List Bytes := log.foldl (track p) []

/-- The frames that `q` has made, and for whom. -/
def madeBy (q : CoroPtr) (log : List FrameEvent) : List (CoroPtr × Bytes) :=
  log.filterMap fun
    | .made q' p msg => if q' = q then some (p, msg) else none
    | _ => none

/-- The frames that `q` has begun to send. -/
def begunBy (q : CoroPtr) (log : List FrameEvent) : List (CoroPtr × Bytes) :=
  log.filterMap fun
    | .begun q' p msg => if q' = q then some (p, msg) else none
    | _ => none

theorem begunOn_append (p : CoroPtr) (log evs : List FrameEvent) :
    begunOn p (log ++ evs) = evs.foldl (track p) (begunOn p log) := List.foldl_append ..

theorem madeBy_append (q : CoroPtr) (log evs : List FrameEvent) :
    madeBy q (log ++ evs) = madeBy q log ++ madeBy q evs := List.filterMap_append ..

theorem begunBy_append (q : CoroPtr) (log evs : List FrameEvent) :
    begunBy q (log ++ evs) = begunBy q log ++ begunBy q evs := List.filterMap_append ..

end FrameEvent

namespace SessionPc

/-- The frame `send_frame` has made of which nothing is sent at this point. -/
def unsent : SessionPc → List (CoroPtr × Bytes)
  | .write client rest back => if rest = back.frame then [(client, back.msg)] else []
  | _ => []

end SessionPc

namespace Chat

/-! ## Writers -/

/-- The program point of a session. -/
def pcAt (c : Chat) (p : CoroPtr) : Option SessionPc := (c.sessions p).map Session.pc

/-- What the kernel has accepted on a connection, and whether it is closed. -/
def stream (c : Chat) (p : CoroPtr) : Option (Bytes × Bool) :=
  (c.sessions p).map fun s => (s.accepted, s.conn.closed)

theorem pcAt_eq {c : Chat} {p : CoroPtr} {s : Session} (hs : c.sessions p = some s) :
    c.pcAt p = some s.pc := by
  rw [pcAt, hs, Option.map_some]

theorem stream_eq {c : Chat} {p : CoroPtr} {s : Session} (hs : c.sessions p = some s) :
    c.stream p = some (s.accepted, s.conn.closed) := by
  rw [stream, hs, Option.map_some]

/-- `q` has sent part of a frame to `client`, and has `rest` to send. -/
structure Mid (c : Chat) (client q : CoroPtr) (rest : Bytes) (back : Back) : Prop where
  writes : c.pcAt q = some (.write client rest back)
  more : rest ≠ []
  begun : rest ≠ back.frame

/-- `q` is in the middle of a frame to `client`. -/
def midFrame (c : Chat) (client q : CoroPtr) : Bool :=
  match c.pcAt q with
  | some (.write client' rest back) =>
      decide (client' = client ∧ rest ≠ [] ∧ rest ≠ back.frame)
  | _ => false

theorem midFrame_iff {c : Chat} {client q : CoroPtr} :
    c.midFrame client q = true ↔ ∃ rest back, c.Mid client q rest back := by
  unfold midFrame
  constructor
  · intro h
    split at h
    next client' rest back hpc =>
      obtain ⟨rfl, hmore, hbegun⟩ := of_decide_eq_true h
      exact ⟨rest, back, hpc, hmore, hbegun⟩
    next => cases h
  · rintro ⟨rest, back, hpc, hmore, hbegun⟩
    simp [hpc, hmore, hbegun]

/-- Being in the middle of a frame is a matter of the program point. -/
theorem Mid.congr {c c' : Chat} {client q : CoroPtr} {rest : Bytes} {back : Back}
    (h : c.Mid client q rest back) (hpc : c'.pcAt q = c.pcAt q) : c'.Mid client q rest back :=
  ⟨hpc.trans h.writes, h.more, h.begun⟩

/-- A reply does not meet the broadcast that has the lock in the middle of a frame, and
    a broadcast does not meet a reply. -/
def sendsAlone (c : Chat) (self : CoroPtr) : Bool :=
  match c.pcAt self with
  | some (.write client _ .loop) => c.room.owner.all fun q => q == self || !c.midFrame client q
  | some (.write client _ (.each _ _ _)) => client == self || !c.midFrame client client
  | _ => true

/-- The condition on a step that the kernel accepts bytes in. -/
def RepliesAlone (c : Chat) : ChatAct → Chat → Prop
  | .send (.accept _), _ => c.machine.sched.runningCoro.all c.sendsAlone = true
  | _, _ => True

instance (c : Chat) (a : ChatAct) (c' : Chat) : Decidable (c.RepliesAlone a c') := by
  unfold RepliesAlone
  split <;> infer_instance

/-- What `p` has not begun to send of the frame it has made. -/
def unsent (c : Chat) (p : CoroPtr) : List (CoroPtr × Bytes) :=
  match c.pcAt p with
  | some pc => pc.unsent
  | none => []

/-- The events of a step. -/
def frameEvents (c : Chat) (a : ChatAct) : List FrameEvent :=
  match c.machine.sched.runningCoro with
  | none => []
  | some self =>
      match a with
      | .start | .upgrade _ => [.opened self]
      -- `send_frame` hands the frame it makes to `write`
      | .next =>
          match c.coroutineAct self .next with
          | some (c', _) => (c'.unsent self).map fun f => .made self f.1 f.2
          | none => []
      | .send (.accept _) => (c.unsent self).map fun f => .begun self f.1 f.2
      | _ => []

/-! ## Steps -/

/-- `p` goes from one frame to the next, and sends nothing; `evs` are the events. -/
structure Quiet (c : Chat) (p : CoroPtr) (evs : List FrameEvent) (c' : Chat) : Prop where
  others : ∀ q, q ≠ p → c'.pcAt q = c.pcAt q
  leave : ∀ client rest back, c.pcAt p = some (.write client rest back) →
    rest = [] ∨ ∀ b, c'.stream client ≠ some (b, false)
  enter : ∀ client rest back, c'.pcAt p = some (.write client rest back) →
    back.Starts p client rest
  made : evs = [.opened p] ∧ c'.unsent p = [] ∨
    evs = (c'.unsent p).map fun f => .made p f.1 f.2
  stream : ∀ r b closed, c'.stream r = some (b, closed) →
    (∃ closed', c.stream r = some (b, closed') ∧ (closed = false → closed' = false) ∧
      .opened r ∉ evs) ∨
    (b = [] ∧ (∀ q rest back, c.pcAt q ≠ some (.write r rest back)) ∧ evs = [.opened r])

/-- What a step of `self` does to the outgoing streams. -/
inductive Traffic (c : Chat) (self : CoroPtr) (a : ChatAct) (c' : Chat) : Prop where
  | still (hpc : c'.pcAt = c.pcAt) (hstream : c'.stream = c.stream) (hevs : c.frameEvents a = [])
  | quiet (h : Quiet c self (c.frameEvents a) c')
  | accept (client : CoroPtr) (rest : Bytes) (back : Back) (b : Bytes) (n extra : Nat)
      (hpc : c.pcAt self = some (.write client rest back))
      (ht : c.stream client = some (b, false)) (hrest : rest ≠ []) (hn : 0 < n)
      (hpc' : c'.pcAt = Function.update c.pcAt self (some (.write client (rest.drop n) back)))
      (hstream' : c'.stream = Function.update c.stream client (some (b ++ rest.take n, false)))
      (ha : a = .send (.accept extra))

section Events

variable {c c' : Chat} {self : CoroPtr} {a : ChatAct} {b : Option (Act Task Unit)}

theorem frameEvents_next (hrun : c.machine.sched.runningCoro = some self)
    (h : c.coroutineAct self .next = some (c', b)) :
    c.frameEvents .next = (c'.unsent self).map fun f => .made self f.1 f.2 := by
  simp only [frameEvents, hrun, h]

theorem frameEvents_accept (hrun : c.machine.sched.runningCoro = some self) (extra : Nat) :
    c.frameEvents (.send (.accept extra)) = (c.unsent self).map fun f => .begun self f.1 f.2 := by
  simp only [frameEvents, hrun]

theorem unsent_of_pcAt {pc : SessionPc} (h : c.pcAt self = some pc) :
    c.unsent self = pc.unsent := by
  rw [unsent, h]

end Events

section Inversion

variable {c c' : Chat} {self : CoroPtr} {s : Session} {a : ChatAct} {b : Option (Act Task Unit)}

/-- A change of `p`, as a part `g` of the sessions sees it. -/
theorem modify_map {β : Type} (g : Session → β) (f : Session → Session) {p : CoroPtr}
    (hs : c.sessions p = some s) :
    (fun q => ((c.modify p f).sessions q).map g) =
      Function.update (fun q => (c.sessions q).map g) p (some (g (f s))) := by
  funext q
  by_cases hq : q = p
  · subst hq
    simp [modify, hs]
  · simp [modify, hq]

/-- A change that does not concern `g`. -/
theorem modify_map_same {β : Type} (g : Session → β) (f : Session → Session) (p : CoroPtr)
    (hf : ∀ s, g (f s) = g s) :
    (fun q => ((c.modify p f).sessions q).map g) = fun q => (c.sessions q).map g := by
  funext q
  by_cases hq : q = p
  · subst hq
    cases hs : c.sessions q with
    | none => simp [modify, hs]
    | some s => simp [modify, hs, hf]
  · simp [modify, hq]

theorem pcAt_modify_self (hs : c.sessions self = some s) (f : Session → Session) :
    (c.modify self f).pcAt self = some (f s).pc := by
  simp [pcAt, Chat.modify, hs]

theorem pcAt_goto {pc₀ : SessionPc} (h : c.pcAt self = some pc₀) (pc : SessionPc) :
    (c.goto self pc).pcAt = Function.update c.pcAt self (some pc) := by
  obtain ⟨s, hs, -⟩ := Option.map_eq_some_iff.mp h
  exact modify_map Session.pc _ hs

theorem stream_goto (c : Chat) (p : CoroPtr) (pc : SessionPc) :
    (c.goto p pc).stream = c.stream :=
  modify_map_same _ _ p fun _ => rfl

theorem pcAt_took (c : Chat) (p : CoroPtr) (sent : Bytes) : (c.took p sent).pcAt = c.pcAt :=
  modify_map_same Session.pc _ p fun _ => rfl

theorem stream_took {t : Session} {p : CoroPtr} (ht : c.sessions p = some t) (sent : Bytes) :
    (c.took p sent).stream =
      Function.update c.stream p (some (t.accepted ++ sent, t.conn.closed)) :=
  modify_map _ _ ht

/-- The bytes a `send` accepts go from the program point of `self` to the stream. -/
theorem took_goto (hs : c.sessions self = some s) {t : Session} {client : CoroPtr} {rest : Bytes}
    {back : Back} (hpc : s.pc = .write client rest back) (ht : c.sessions client = some t)
    (hopen : t.conn.closed = false) (n : Nat) :
    let c' := (c.took client (rest.take n)).goto self (.write client (rest.drop n) back)
    c.pcAt self = some (.write client rest back) ∧ c.stream client = some (t.accepted, false) ∧
      c'.pcAt = Function.update c.pcAt self (some (.write client (rest.drop n) back)) ∧
      c'.stream = Function.update c.stream client (some (t.accepted ++ rest.take n, false)) := by
  have hself : c.pcAt self = some (.write client rest back) := hpc ▸ pcAt_eq hs
  -- `self` may write to itself: what `took` leaves of it still is at this point
  have hwrites : (c.took client (rest.take n)).pcAt self = some (.write client rest back) := by
    rw [pcAt_took, hself]
  refine ⟨hself, hopen ▸ stream_eq ht, ?_, ?_⟩
  · rw [pcAt_goto hwrites, pcAt_took]
  · rw [stream_goto, stream_took ht, hopen]

/-- The stream ends within `read_exact`. -/
theorem recvShort_ended (c : Chat) (p : CoroPtr) (s : Session)
    (next : Bytes → Reading (Option WsFrame)) :
    (c.ended p).recvShort p s next = c.modify p fun s' =>
      { s' with
        conn := { s'.conn with closed := true, readBuf := [] }
        pc := .recv (next s.conn.readBuf) } := by
  simp [recvShort, ended, Chat.modify, Function.comp_def]

theorem pcAt_ended (c : Chat) (p : CoroPtr) : (c.ended p).pcAt = c.pcAt :=
  modify_map_same Session.pc _ p fun _ => rfl

theorem stream_ended {t : Session} {p : CoroPtr} (ht : c.sessions p = some t) :
    (c.ended p).stream = Function.update c.stream p (some (t.accepted, true)) :=
  modify_map _ _ ht

theorem opened_not_made {p r : CoroPtr} (frames : List (CoroPtr × Bytes)) :
    FrameEvent.opened r ∉ frames.map fun f => .made p f.1 f.2 := by
  simp

/-- `self` changes without writing, and its connection is not opened again. -/
theorem Quiet.modify {f : Session → Session} {evs : List FrameEvent}
    (hs : c.sessions self = some s)
    (hpc : c'.pcAt = (c.modify self f).pcAt) (hstream : c'.stream = (c.modify self f).stream)
    (haccepted : (f s).accepted = s.accepted)
    (hclosed : (f s).conn.closed = false → s.conn.closed = false)
    (hleave : ∀ client rest back, s.pc = .write client rest back →
      rest = [] ∨ ∃ t, c.sessions client = some t ∧ t.conn.closed = true)
    (henter : ∀ client rest back, (f s).pc = .write client rest back →
      back.Starts self client rest)
    (hmade : evs = (c'.unsent self).map fun f => .made self f.1 f.2) :
    Quiet c self evs c' := by
  have hpc' : c'.pcAt = Function.update c.pcAt self (some (f s).pc) :=
    hpc.trans (modify_map Session.pc f hs)
  have hstream' : c'.stream =
      Function.update c.stream self (some ((f s).accepted, (f s).conn.closed)) :=
    hstream.trans (modify_map _ f hs)
  have hself : c.stream self = some (s.accepted, s.conn.closed) := by
    rw [Chat.stream, hs]
    rfl
  have hback : ∀ p b closed, c'.stream p = some (b, closed) →
      ∃ closed', c.stream p = some (b, closed') ∧ (closed = false → closed' = false) := by
    intro p b closed hp
    rw [hstream'] at hp
    by_cases hpself : p = self
    · rw [hpself, Function.update_self] at hp
      cases hp
      exact ⟨s.conn.closed, by rw [hpself, hself, haccepted], hclosed⟩
    · rw [Function.update_of_ne hpself] at hp
      exact ⟨closed, hp, id⟩
  refine ⟨fun q hq => ?_, fun client rest back h => ?_, fun client rest back h => ?_,
    .inr hmade, fun p b closed hp => .inl ?_⟩
  · rw [hpc', Function.update_of_ne hq]
  · have hsame : s.pc = .write client rest back := Option.some.inj ((pcAt_eq hs).symm.trans h)
    refine (hleave client rest back hsame).imp_right ?_
    rintro ⟨t, ht, hc⟩ b hopen
    obtain ⟨closed', hold, hcl⟩ := hback client b false hopen
    rw [Chat.stream, ht] at hold
    cases hold
    rw [hc] at hcl
    cases hcl rfl
  · rw [hpc', Function.update_self] at h
    exact henter client rest back (Option.some.inj h)
  · obtain ⟨closed', hold, hcl⟩ := hback p b closed hp
    exact ⟨closed', hold, hcl, hmade ▸ opened_not_made _⟩

/-- `self` goes to `pc`, and the room may change. -/
theorem Traffic.goto (hs : c.sessions self = some s) (room : ChatRoom) {pc : SessionPc}
    (hleave : ∀ client rest back, s.pc = .write client rest back →
      rest = [] ∨ ∃ t, c.sessions client = some t ∧ t.conn.closed = true)
    (henter : ∀ client rest back, pc = .write client rest back → back.Starts self client rest)
    (hmade : c.frameEvents a =
      (((c.setRoom room).goto self pc).unsent self).map fun f => .made self f.1 f.2) :
    Traffic c self a ((c.setRoom room).goto self pc) :=
  .quiet (.modify (f := fun s => { s with pc := pc }) hs rfl rfl rfl id hleave henter hmade)

/-- Nothing is made on the way to a point that is no `write`. -/
theorem nothing_made {pc : SessionPc} (hevs : c.frameEvents a = [])
    (hpc : c'.pcAt self = some pc) (hnot : pc.unsent = []) :
    c.frameEvents a = (c'.unsent self).map fun f => .made self f.1 f.2 := by
  rw [hevs, unsent_of_pcAt hpc, hnot]
  rfl

/-- At a point that is no `write` there is nothing to be left. -/
theorem nothing_left (h : ∀ client rest back, s.pc ≠ .write client rest back) :
    ∀ client rest back, s.pc = .write client rest back →
      rest = [] ∨ ∃ t, c.sessions client = some t ∧ t.conn.closed = true :=
  fun client rest back heq => absurd heq (h client rest back)

theorem afterFrame_enter (self : CoroPtr) (nick : Bytes) (frame : Option WsFrame)
    (client : CoroPtr) (rest : Bytes) (back : Back)
    (h : afterFrame self nick frame = .write client rest back) : back.Starts self client rest := by
  cases frame with
  | none => cases h
  | some f =>
      unfold afterFrame at h
      dsimp only at h
      split at h
      · cases h
      · split at h
        · cases h
          exact ⟨rfl, fun _ => rfl⟩
        · split at h <;> cases h

/-- Nobody writes to a connection that has no session in the room. -/
theorem RoomOk.nobody_writes (hI : RoomOk c.view c.room) {p : CoroPtr}
    (hout : c.pcAt p = none ∨ c.pcAt p = some .http) (q : CoroPtr) (rest : Bytes) (back : Back) :
    c.pcAt q ≠ some (.write p rest back) := by
  intro hq
  obtain ⟨s, hs, hpc⟩ := Option.map_eq_some_iff.mp hq
  have htarget : p ∈ s.pc.targets := by
    rw [hpc]
    cases back <;> simp [SessionPc.targets]
  -- who is written to is the writer itself, or a member
  rcases hI.targets q _ _ (view_of_sessions hs) p htarget with rfl | ⟨-, hmember⟩
  · rcases hout with hout | hout <;> rw [hq] at hout <;> cases hout
  · obtain ⟨fd, pc, hview, hin⟩ := hI.member p hmember
    obtain ⟨t, ht, hsame⟩ := Option.map_eq_some_iff.mp hview
    cases hsame
    rcases hout with hout | hout <;> rw [pcAt_eq ht] at hout
    · cases hout
    · rw [Option.some.inj hout] at hin
      cases hin

/-- The stream of `self` begins. -/
theorem Quiet.begin (hI : RoomOk c.view c.room)
    (hout : c.pcAt self = none ∨ c.pcAt self = some .http) {pc : SessionPc} {closed : Bool}
    (hpc : c'.pcAt = Function.update c.pcAt self (some pc))
    (hstream : c'.stream = Function.update c.stream self (some ([], closed)))
    (henter : ∀ client rest back, pc ≠ .write client rest back) :
    Quiet c self [.opened self] c' := by
  have hself : c'.pcAt self = some pc := by rw [hpc, Function.update_self]
  refine ⟨fun q hq => ?_, fun client rest back h => ?_, fun client rest back h => ?_,
    .inl ⟨rfl, ?_⟩, fun p b cl hp => ?_⟩
  · rw [hpc, Function.update_of_ne hq]
  · rcases hout with hout | hout <;> rw [hout] at h <;> cases h
  · rw [hself] at h
    exact absurd (Option.some.inj h) (henter client rest back)
  · rw [unsent_of_pcAt hself]
    cases pc with
    | write client rest back => exact absurd rfl (henter client rest back)
    | _ => rfl
  · rw [hstream] at hp
    by_cases hself : p = self
    · subst hself
      rw [Function.update_self] at hp
      cases hp
      exact .inr ⟨rfl, hI.nobody_writes hout, rfl⟩
    · rw [Function.update_of_ne hself] at hp
      exact .inl ⟨cl, hp, id, by simp [hself]⟩

/-- `write` gives up its frame, whose stream is closed from here on. -/
theorem Quiet.failed {client : CoroPtr} {rest : Bytes} {back : Back} {t : Session}
    (hs : c.sessions self = some s) (hpc : s.pc = .write client rest back)
    (ht : c.sessions client = some t) (hopen : t.conn.closed = false) :
    Quiet c self [] ((c.ended client).goto self back.pc) := by
  have hself : c.pcAt self = some (.write client rest back) := hpc ▸ pcAt_eq hs
  have hclient : c.stream client = some (t.accepted, false) := hopen ▸ stream_eq ht
  have hwrites : (c.ended client).pcAt self = some (.write client rest back) := by
    rw [pcAt_ended, hself]
  have hpc' : ((c.ended client).goto self back.pc).pcAt
      = Function.update c.pcAt self (some back.pc) := by
    rw [pcAt_goto hwrites, pcAt_ended]
  have hstream' : ((c.ended client).goto self back.pc).stream
      = Function.update c.stream client (some (t.accepted, true)) := by
    rw [stream_goto, stream_ended ht]
  refine ⟨fun q hq => ?_, fun client' rest' back' heq => .inr fun b hb => ?_,
    fun client' rest' back' heq => ?_, .inr ?_, fun p b closed hp => .inl ?_⟩
  · rw [hpc', Function.update_of_ne hq]
  · rw [hself] at heq
    cases heq
    rw [hstream', Function.update_self] at hb
    cases hb
  · rw [hpc', Function.update_self] at heq
    cases back <;> cases heq
  · have hback : ((c.ended client).goto self back.pc).pcAt self = some back.pc := by
      rw [hpc', Function.update_self]
    rw [unsent_of_pcAt hback]
    cases back <;> rfl
  · rw [hstream'] at hp
    by_cases hclient' : p = client
    · subst hclient'
      rw [Function.update_self] at hp
      cases hp
      exact ⟨false, hclient, nofun, List.not_mem_nil⟩
    · rw [Function.update_of_ne hclient'] at hp
      exact ⟨closed, hp, id, List.not_mem_nil⟩

/-- The steps of a session, as the streams show them. -/
theorem SessionStep.traffic (hI : RoomOk c.view c.room) (hs : c.sessions self = some s)
    (hrun : c.machine.sched.runningCoro = some self)
    (hact : c.coroutineAct self a = some (c', b)) (h : SessionStep c self s a c' b) :
    Traffic c self a c' := by
  -- a step other than `next` makes no frame, and leads to no `write`
  have hquiet : ∀ {f : Session → Session} {c' : Chat}, c.frameEvents a = [] →
      c'.pcAt = (c.modify self f).pcAt → (f s).pc.unsent = [] →
      c.frameEvents a = (c'.unsent self).map fun f => .made self f.1 f.2 := by
    intro f c' hevs hpc hnot
    exact nothing_made hevs (by rw [hpc, pcAt_modify_self hs]) hnot
  cases h with
  | join hpc hfree | leave hpc hfree | log phase hpc hfree | online phase hpc hfree
  | users phase online hpc hfree | lock phase msg hpc hfree =>
      exact .goto hs _ (nothing_left (by rw [hpc]; nofun)) nofun
        (hquiet (f := fun s => { s with pc := _ }) (by simp only [frameEvents, hrun]) rfl rfl)
  | unlock phase msg hpc =>
      refine .goto hs _ (nothing_left (by rw [hpc]; nofun)) ?_ (frameEvents_next hrun hact)
      cases phase <;> nofun
  | skip phase msg p todo t hpc ht hclosed =>
      exact .goto hs c.room (nothing_left (by rw [hpc]; nofun)) nofun (frameEvents_next hrun hact)
  | write phase msg p todo t hpc ht hopen =>
      refine .goto hs c.room (nothing_left (by rw [hpc]; nofun)) ?_ (frameEvents_next hrun hact)
      rintro client rest back ⟨⟩
      exact ⟨rfl, nofun⟩
  | loop hpc =>
      refine .goto hs c.room (nothing_left (by rw [hpc]; nofun)) ?_ (frameEvents_next hrun hact)
      split <;> nofun
  | frame frame hpc =>
      exact .goto hs c.room (nothing_left (by rw [hpc]; nofun))
        (afterFrame_enter self s.nick frame) (frameEvents_next hrun hact)
  | buffered n next hpc hle | short n next hpc hlt hclosed =>
      exact .quiet (.modify hs rfl rfl rfl id (nothing_left (by rw [hpc]; nofun)) nofun
        (frameEvents_next hrun hact))
  | written client rest back t hpc ht hdone =>
      refine .goto hs c.room ?_ (by cases back <;> nofun) (frameEvents_next hrun hact)
      intro client' rest' back' heq
      rw [hpc] at heq
      cases heq
      rcases hdone with hclosed | hrest
      · exact .inr ⟨t, ht, hclosed⟩
      · exact .inl hrest
  | data n next first rest hpc hlt hopen hlen =>
      refine .quiet (.modify hs rfl rfl rfl id (nothing_left (by rw [hpc]; nofun)) ?_
        (hquiet (by simp only [frameEvents, hrun]) rfl (by rw [hpc]; rfl)))
      rw [hpc]
      nofun
  | recvWait n next hpc hlt hopen =>
      exact .still rfl rfl (by simp only [frameEvents, hrun])
  | recvEnd n next hpc hlt hopen =>
      rw [recvShort_ended]
      exact .quiet (.modify hs rfl rfl rfl nofun (nothing_left (by rw [hpc]; nofun)) nofun
        (hquiet (by simp only [frameEvents, hrun]) rfl rfl))
  | accepted client rest back t extra hpc ht hopen hrest =>
      obtain ⟨hself, hclient, hpc', hstream'⟩ :=
        took_goto hs hpc ht hopen (min (extra + 1) rest.length)
      have hpos := List.length_pos_of_ne_nil hrest
      exact .accept client rest back t.accepted _ extra hself hclient hrest (by omega) hpc'
        hstream' rfl
  | sendWait client rest back t hpc ht hopen hrest =>
      exact .still rfl rfl (by simp only [frameEvents, hrun])
  | sendFail client rest back t hpc ht hopen hrest =>
      refine .quiet ?_
      rw [show c.frameEvents (.send .fail) = [] by simp only [frameEvents, hrun]]
      exact .failed hs hpc ht hopen
  | http buf ended hpc =>
      refine .quiet (.modify hs rfl rfl rfl ?_ (nothing_left (by rw [hpc]; nofun)) ?_
        (hquiet (by simp only [frameEvents, hrun]) rfl (by rw [hpc]; rfl)))
      · intro hopen
        exact (Bool.or_eq_false_iff.mp hopen).1
      · rw [hpc]
        nofun
  | httpWait reading hpc hopen => exact .still rfl rfl (by simp only [frameEvents, hrun])
  | upgrade nick hpc =>
      refine .quiet ?_
      rw [show c.frameEvents (.upgrade nick) = [.opened self] by simp only [frameEvents, hrun]]
      exact .begin hI (.inr (hpc ▸ pcAt_eq hs)) (modify_map Session.pc _ hs)
        (modify_map _ _ hs) nofun
  | destroy fd hpc hfd | destroyClosed hpc hfd =>
      refine .quiet (.modify hs rfl rfl rfl ?_ (nothing_left (by rw [hpc]; nofun)) nofun
        (hquiet (by simp only [frameEvents, hrun]) rfl rfl))
      intro hopen
      unfold Connection.close at hopen
      split at hopen
      · cases hopen
      · exact hopen
  | finish hpc => exact .still rfl rfl (by simp only [frameEvents, hrun])

theorem coroutineAct_traffic (hI : RoomOk c.view c.room)
    (hrun : c.machine.sched.runningCoro = some self)
    (h : c.coroutineAct self a = some (c', b)) : Traffic c self a c' := by
  cases coroutineStep_of_act h with
  | start fd hnone htask =>
      refine .quiet ?_
      rw [show c.frameEvents .start = [.opened self] by simp only [frameEvents, hrun]]
      refine .begin hI (.inl ?_) (?_ : _ = Function.update c.pcAt self (some .http))
        (?_ : _ = Function.update c.stream self (some ([], false))) nofun
      · rw [pcAt, hnone]
        rfl
      · funext q
        by_cases hq : q = self <;> simp [pcAt, started, hq]
      · funext q
        by_cases hq : q = self <;> simp [stream, started, hq, Connection.init]
  | acceptWait fd hnone htask => exact .still rfl rfl (by simp only [frameEvents, hrun])
  | accept listenFd fd hnone htask hctx hfd hfresh =>
      exact .still rfl rfl (by simp only [frameEvents, hrun])
  | session s hs hstep => exact hstep.traffic hI hs hrun h

end Inversion

/-! ## The streams -/

/-- On the stream to `client` are the frames of `msgs` and, if there is a `next`, the part
    that is sent of its frame by the only coroutine that is within a frame to it. -/
inductive Sends (c : Chat) (client : CoroPtr) (msgs : List Bytes) :
    Option Bytes → Bytes → Prop where
  | between (hnone : ∀ q rest back, ¬ c.Mid client q rest back) :
      Sends c client msgs none (msgs.flatMap textFrame)
  | within (q : CoroPtr) (rest : Bytes) (back : Back) (part : Bytes)
      (hmid : c.Mid client q rest back)
      (honly : ∀ q' rest' back', c.Mid client q' rest' back' → q' = q)
      (hpart : part ++ rest = back.frame) :
      Sends c client msgs (some back.msg) (msgs.flatMap textFrame ++ part)

/-- A `write` has a rest of its frame to send, and a reply goes to its own client. -/
structure Writers (c : Chat) : Prop where
  suffix : ∀ q client rest back, c.pcAt q = some (.write client rest back) → rest <:+ back.frame
  reply : ∀ q client rest, c.pcAt q = some (.write client rest .loop) → client = q

/-- The invariant. -/
structure Streams (c : Chat) (log : List FrameEvent) : Prop where
  writers : Writers c
  sending : ∀ p b, c.stream p = some (b, false) →
    ∃ msgs next, c.Sends p msgs next b ∧ msgs ++ next.toList = FrameEvent.begunOn p log
  framed : ∀ p b closed, c.stream p = some (b, closed) →
    ∃ msgs next, Frames msgs next b ∧ msgs ++ next.toList = FrameEvent.begunOn p log
  made : ∀ q, (FrameEvent.begunBy q log ++ c.unsent q).Sublist (FrameEvent.madeBy q log)

section Sends

variable {c c' : Chat} {self client : CoroPtr} {msgs : List Bytes} {next : Option Bytes}
  {b : Bytes}

theorem Sends.frames (h : c.Sends client msgs next b) : Frames msgs next b := by
  cases h with
  | between hnone => exact ⟨[], (List.append_nil _).symm, rfl⟩
  | within q rest back part hmid honly hpart =>
      refine ⟨part, rfl, ⟨rest, hpart⟩, fun hnil => ?_, fun hall => ?_⟩
      · rw [hnil, List.nil_append] at hpart
        exact hmid.begun hpart
      -- `q` has something left to send
      · have hrest : part ++ rest = part ++ [] := by
          rw [hpart, List.append_nil, hall, Back.frame]
        exact hmid.more (List.append_cancel_left hrest)

/-- The same coroutines are in the middle of a frame. -/
theorem Sends.congr (h : c.Sends client msgs next b)
    (hmid : ∀ q rest back, c'.Mid client q rest back ↔ c.Mid client q rest back) :
    c'.Sends client msgs next b := by
  cases h with
  | between hnone => exact .between fun q rest back hm => hnone q rest back ((hmid _ _ _).mp hm)
  | within q rest back part hq honly hpart =>
      exact .within q rest back part ((hmid _ _ _).mpr hq)
        (fun q' rest' back' hm => honly q' rest' back' ((hmid _ _ _).mp hm)) hpart

/-- A stream that nobody is writing to. -/
theorem Sends.nil (h : ∀ q rest back, c.pcAt q ≠ some (.write client rest back)) :
    c.Sends client [] none [] :=
  .between fun q rest back hm => h q rest back hm.writes

/-- What `self` still has to send of its frame, and what is sent of it: nothing, or it is
    the next one. -/
theorem Sends.sent (h : c.Sends client msgs next b) {rest : Bytes} {back : Back}
    (hpc : c.pcAt self = some (.write client rest back)) (hrest : rest ≠ [])
    (halone : ∀ q rest' back', c.Mid client q rest' back' → q = self) :
    (∃ part, b = msgs.flatMap textFrame ++ part ∧ part ++ rest = back.frame) ∧
      next.toList ++ (c.unsent self).map Prod.snd = [back.msg] := by
  rw [unsent_of_pcAt hpc, SessionPc.unsent]
  cases h with
  | between hnone =>
      have hall : rest = back.frame := by
        by_contra hne
        exact hnone self rest back ⟨hpc, hrest, hne⟩
      refine ⟨⟨[], (List.append_nil _).symm, hall⟩, ?_⟩
      rw [if_pos hall]
      rfl
  | within q rest' back' part hmid honly hpart =>
      -- the frame begun is its own
      obtain rfl := halone q rest' back' hmid
      have hsame := hmid.writes.symm.trans hpc
      cases hsame
      refine ⟨⟨part, rfl, hpart⟩, ?_⟩
      rw [if_neg hmid.begun]
      rfl

/-- Who sends the next frame has the rest of it. -/
theorem Sends.writer {msg : Bytes} (h : c.Sends client msgs (some msg) b) :
    ∃ q rest back, c.pcAt q = some (.write client rest back) ∧ back.msg = msg ∧
      b ++ rest = (msgs ++ [msg]).flatMap textFrame := by
  cases h with
  | within q rest back part hmid honly hpart =>
      refine ⟨q, rest, back, hmid.writes, rfl, ?_⟩
      rw [List.append_assoc, hpart, List.flatMap_append, List.flatMap_singleton, Back.frame]

/-- `self`, which alone is within a frame to `client`, has sent `n` more bytes of it: the
    frame is complete with the last of them. -/
theorem Sends.extend (h : c.Sends client msgs next b) {rest : Bytes} {back : Back} {n : Nat}
    (hpc : c.pcAt self = some (.write client rest back)) (hrest : rest ≠ [])
    (halone : ∀ q rest' back', c.Mid client q rest' back' → q = self) (hn : 0 < n)
    (hself : c'.pcAt self = some (.write client (rest.drop n) back))
    (honly : ∀ q rest' back', c'.Mid client q rest' back' → q = self) :
    c'.Sends client (msgs ++ if rest.drop n = [] then [back.msg] else [])
      (if rest.drop n = [] then none else some back.msg) (b ++ rest.take n) := by
  obtain ⟨⟨part, rfl, hpart⟩, -⟩ := h.sent hpc hrest halone
  have hframe : (part ++ rest.take n) ++ rest.drop n = back.frame := by
    rw [List.append_assoc, List.take_append_drop, hpart]
  rw [List.append_assoc]
  by_cases hlast : rest.drop n = []
  · rw [if_pos hlast, if_pos hlast]
    rw [hlast, List.append_nil] at hframe
    have hall : msgs.flatMap textFrame ++ (part ++ rest.take n)
        = (msgs ++ [back.msg]).flatMap textFrame := by
      rw [hframe, List.flatMap_append, List.flatMap_singleton, Back.frame]
    rw [hall]
    refine .between fun q rest' back' hm => ?_
    obtain rfl := honly q rest' back' hm
    have hsame := hm.writes.symm.trans hself
    cases hsame
    exact hm.more hlast
  · rw [if_neg hlast, if_neg hlast, List.append_nil]
    refine .within self _ back (part ++ rest.take n) ⟨hself, hlast, fun hall => ?_⟩ honly hframe
    -- at least one byte of the frame is sent
    have hlen := congrArg List.length hframe
    have hpos := List.length_pos_of_ne_nil hrest
    rw [← hall, List.length_append, List.length_append, List.length_take] at hlen
    omega

end Sends

section Streams

variable {c c' : Chat} {log evs : List FrameEvent} {self client : CoroPtr} {b : Bytes}
  {a : ChatAct}

/-- **Quiet steps** change nobody's place within a frame. -/
theorem Quiet.mid_iff (hq : Quiet c self evs c') (hopen : c'.stream client = some (b, false))
    (q : CoroPtr) (rest : Bytes) (back : Back) :
    c'.Mid client q rest back ↔ c.Mid client q rest back := by
  by_cases hself : q = self
  -- `self` ends at the start of a frame, and was at the end of one or writing to a stream
  -- that is closed
  · subst hself
    constructor
    · intro hm
      exact absurd (hq.enter client rest back hm.writes).1 hm.begun
    · intro hm
      rcases hq.leave client rest back hm.writes with hrest | hclosed
      · exact absurd hrest hm.more
      · exact absurd hopen (hclosed b)
  · exact ⟨fun hm => hm.congr (hq.others q hself).symm, fun hm => hm.congr (hq.others q hself)⟩

/-- The place of a coroutine that is left alone. -/
theorem mid_congr (hpc : c'.pcAt = c.pcAt) (q : CoroPtr) (rest : Bytes) (back : Back) :
    c'.Mid client q rest back ↔ c.Mid client q rest back :=
  ⟨fun hm => hm.congr (congrFun hpc q).symm, fun hm => hm.congr (congrFun hpc q)⟩

/-- A coroutine that writes to another client is within no frame to this one. -/
theorem mid_elsewhere {p : CoroPtr} (hp : p ≠ client) {rest rest' : Bytes} {back : Back}
    (hpc : c.pcAt self = some (.write client rest back))
    (hpc' : c'.pcAt = Function.update c.pcAt self (some (.write client rest' back)))
    (q : CoroPtr) (r : Bytes) (k : Back) : c'.Mid p q r k ↔ c.Mid p q r k := by
  by_cases hq : q = self
  · subst hq
    have hself : c'.pcAt q = some (.write client rest' back) := by rw [hpc', Function.update_self]
    constructor
    · intro hm
      have hsame := hm.writes.symm.trans hself
      cases hsame
      exact absurd rfl hp
    · intro hm
      have hsame := hm.writes.symm.trans hpc
      cases hsame
      exact absurd rfl hp
  · have hother : c'.pcAt q = c.pcAt q := by rw [hpc', Function.update_of_ne hq]
    exact ⟨fun hm => hm.congr hother.symm, fun hm => hm.congr hother⟩

/-- Who is within a frame after bytes are accepted of the only one that was. -/
theorem alone_after {rest : Bytes} {back : Back}
    (hpc' : c'.pcAt = Function.update c.pcAt self (some (.write client rest back)))
    (halone : ∀ q rest' back', c.Mid client q rest' back' → q = self) :
    ∀ q rest' back', c'.Mid client q rest' back' → q = self := by
  intro q rest' back' hm
  by_contra hne
  have hother : c'.pcAt q = c.pcAt q := by rw [hpc', Function.update_of_ne hne]
  exact hne (halone q rest' back' (hm.congr hother.symm))

theorem Writers.traffic (hI : Writers c) (h : Traffic c self a c') : Writers c' := by
  cases h with
  | still hpc hstream hevs => exact ⟨hpc ▸ hI.suffix, hpc ▸ hI.reply⟩
  | quiet hq =>
      refine ⟨fun q client rest back hpc => ?_, fun q client rest hpc => ?_⟩
      · by_cases hself : q = self
        · subst hself
          rw [(hq.enter client rest back hpc).1]
        · rw [hq.others q hself] at hpc
          exact hI.suffix q client rest back hpc
      · by_cases hself : q = self
        · subst hself
          exact (hq.enter client rest .loop hpc).2 rfl
        · rw [hq.others q hself] at hpc
          exact hI.reply q client rest hpc
  | accept client rest back b n extra hpc ht hrest hn hpc' hstream' ha =>
      have hself : c'.pcAt self = some (.write client (rest.drop n) back) := by
        rw [hpc', Function.update_self]
      have hother : ∀ q, q ≠ self → c'.pcAt q = c.pcAt q := by
        intro q hq
        rw [hpc', Function.update_of_ne hq]
      refine ⟨fun q client' rest' back' h => ?_, fun q client' rest' h => ?_⟩
      · by_cases hq : q = self
        · rw [hq, hself] at h
          cases h
          exact (List.drop_suffix n rest).trans (hI.suffix self client rest back hpc)
        · rw [hother q hq] at h
          exact hI.suffix q client' rest' back' h
      · by_cases hq : q = self
        · rw [hq, hself] at h
          cases h
          rw [hq]
          exact hI.reply self client rest hpc
        · rw [hother q hq] at h
          exact hI.reply q client' rest' h

/-- **The lock and the condition**: who sends to a client is the only coroutine in the
    middle of a frame to it. -/
theorem Writers.alone (hI : Writers c) (hroom : RoomOk c.view c.room)
    (hok : c.sendsAlone self = true) {rest : Bytes} {back : Back}
    (hpc : c.pcAt self = some (.write client rest back)) :
    ∀ q rest' back', c.Mid client q rest' back' → q = self := by
  intro q rest' back' hm
  by_contra hne
  have hmid : c.midFrame client q = true := midFrame_iff.mpr ⟨rest', back', hm⟩
  obtain ⟨s, hs, hpcs⟩ := Option.map_eq_some_iff.mp hpc
  obtain ⟨t, ht, hpct⟩ := Option.map_eq_some_iff.mp hm.writes
  -- `q` writes to itself, or it has the lock
  have htarget : client ∈ t.pc.targets := by
    rw [hpct]
    cases back' <;> simp [SessionPc.targets]
  have hq := hroom.targets q _ _ (view_of_sessions ht) client htarget
  rw [sendsAlone, hpc] at hok
  cases back with
  -- a reply: the condition excludes the broadcast that has the lock
  | loop =>
      obtain rfl := hI.reply self client rest hpc
      rcases hq with hself | ⟨howner, -⟩
      · exact hne hself.symm
      · simp [howner, hmid, hne] at hok
  -- a broadcast: the condition excludes the reply, and the lock the other broadcasts
  | each phase msg todo =>
      have howner : c.room.owner = some self :=
        hroom.lock self _ _ (view_of_sessions hs) (by rw [hpcs]; rfl)
      rcases hq with rfl | ⟨howner', -⟩
      · simp [hmid, hne] at hok
      · rw [howner] at howner'
        exact hne (Option.some.inj howner').symm

end Streams

section Log

variable {c c' : Chat} {log evs : List FrameEvent} {self client : CoroPtr} {b : Bytes}

open FrameEvent

theorem begunOn_made (p q : CoroPtr) (log : List FrameEvent) (frames : List (CoroPtr × Bytes)) :
    begunOn p (log ++ frames.map fun f => .made q f.1 f.2) = begunOn p log := by
  rw [begunOn_append]
  induction frames with
  | nil => rfl
  | cons f frames ih => exact ih

theorem madeBy_made (q self : CoroPtr) (frames : List (CoroPtr × Bytes)) :
    madeBy q (frames.map fun f => .made self f.1 f.2) = if self = q then frames else [] := by
  by_cases hq : self = q <;> simp [madeBy, List.filterMap_map, hq]

theorem begunBy_made (q self : CoroPtr) (frames : List (CoroPtr × Bytes)) :
    begunBy q (frames.map fun f => .made self f.1 f.2) = [] := by
  simp [begunBy, List.filterMap_map]

theorem madeBy_begun (q self : CoroPtr) (frames : List (CoroPtr × Bytes)) :
    madeBy q (frames.map fun f => .begun self f.1 f.2) = [] := by
  simp [madeBy, List.filterMap_map]

theorem begunBy_begun (q self : CoroPtr) (frames : List (CoroPtr × Bytes)) :
    begunBy q (frames.map fun f => .begun self f.1 f.2) = if self = q then frames else [] := by
  by_cases hq : self = q <;> simp [begunBy, List.filterMap_map, hq]

/-- What `self`, which writes to `client`, begins is begun on that stream. -/
theorem begunOn_begun {rest : Bytes} {back : Back}
    (hpc : c.pcAt self = some (.write client rest back)) (p : CoroPtr) (log : List FrameEvent) :
    begunOn p (log ++ (c.unsent self).map fun f => .begun self f.1 f.2)
      = begunOn p log ++ if client = p then (c.unsent self).map Prod.snd else [] := by
  rw [begunOn_append, unsent_of_pcAt hpc, SessionPc.unsent]
  by_cases hall : rest = back.frame
  · rw [if_pos hall, List.map_singleton, List.foldl_cons, List.foldl_nil, track]
    by_cases hp : client = p
    · rw [if_pos hp, if_pos hp]
      rfl
    · rw [if_neg hp, if_neg hp, List.append_nil]
  · rw [if_neg hall, List.map_nil, List.map_nil, ite_self, List.append_nil]
    rfl

/-- The events of a quiet step leave the streams that do not begin. -/
theorem Quiet.begunOn (hq : Quiet c self evs c') {p : CoroPtr} (hp : .opened p ∉ evs)
    (log : List FrameEvent) : begunOn p (log ++ evs) = begunOn p log := by
  rcases hq.made with ⟨rfl, -⟩ | rfl
  · have hne : self ≠ p := fun h => hp (h ▸ List.mem_singleton_self _)
    rw [begunOn_append, List.foldl_cons, List.foldl_nil, track, if_neg hne]
  · exact begunOn_made p self log _

theorem Quiet.streams (hI : Streams c log) (hw : Writers c') (hq : Quiet c self evs c') :
    Streams c' (log ++ evs) := by
  have hbegins : ∀ p, evs = [.opened p] → FrameEvent.begunOn p (log ++ evs) = [] := by
    rintro p rfl
    rw [begunOn_append, List.foldl_cons, List.foldl_nil, track, if_pos rfl]
  refine ⟨hw, fun p b hopen => ?_, fun p b closed hp => ?_, fun q => ?_⟩
  -- a stream that is open was open, or begins here
  · rcases hq.stream p b false hopen with ⟨closed', hold, hcl, hnot⟩ | ⟨rfl, hnobody, hevs⟩
    · rw [hcl rfl] at hold
      obtain ⟨msgs, next, hsends, hbegun⟩ := hI.sending p b hold
      exact ⟨msgs, next, hsends.congr (hq.mid_iff hopen), hbegun.trans (hq.begunOn hnot log).symm⟩
    · exact ⟨[], none, (Sends.nil hnobody).congr (hq.mid_iff hopen), (hbegins p hevs).symm⟩
  · rcases hq.stream p b closed hp with ⟨closed', hold, -, hnot⟩ | ⟨rfl, -, hevs⟩
    · obtain ⟨msgs, next, hframes, hbegun⟩ := hI.framed p b closed' hold
      exact ⟨msgs, next, hframes, hbegun.trans (hq.begunOn hnot log).symm⟩
    · exact ⟨[], none, frames_nil, (hbegins p hevs).symm⟩
  · have hold := hI.made q
    rw [madeBy_append, begunBy_append]
    by_cases hself : q = self
    -- what `self` has made it has not begun
    · subst hself
      have hbefore := (List.sublist_append_left ..).trans hold
      rcases hq.made with ⟨rfl, hnone⟩ | rfl
      · rw [hnone]
        simpa [madeBy, begunBy] using hbefore
      · rw [madeBy_made, begunBy_made, if_pos rfl, List.append_nil]
        exact hbefore.append_right _
    · have hsame : c'.unsent q = c.unsent q := by rw [unsent, unsent, hq.others q hself]
      rw [hsame]
      rcases hq.made with ⟨rfl, -⟩ | rfl
      · simpa [madeBy, begunBy] using hold
      · rw [madeBy_made, begunBy_made, if_neg (Ne.symm hself), List.append_nil, List.append_nil]
        exact hold

/-- **Accepting bytes** of the only coroutine in the middle of a frame. -/
theorem Streams.accept (hI : Streams c log) (hw : Writers c') {rest : Bytes} {back : Back}
    {n : Nat} (hpc : c.pcAt self = some (.write client rest back))
    (ht : c.stream client = some (b, false)) (hrest : rest ≠ []) (hn : 0 < n)
    (halone : ∀ q rest' back', c.Mid client q rest' back' → q = self)
    (hpc' : c'.pcAt = Function.update c.pcAt self (some (.write client (rest.drop n) back)))
    (hstream' : c'.stream = Function.update c.stream client (some (b ++ rest.take n, false))) :
    Streams c' (log ++ (c.unsent self).map fun f => .begun self f.1 f.2) := by
  have hself : c'.pcAt self = some (.write client (rest.drop n) back) := by
    rw [hpc', Function.update_self]
  have honly := alone_after hpc' halone
  obtain ⟨msgs, next, hsends, hbegun⟩ := hI.sending client b ht
  have hsent := hsends.extend hpc hrest halone hn hself honly
  -- the frame is begun by now, and complete or the next one
  have hnow : (msgs ++ if rest.drop n = [] then [back.msg] else []) ++
      (if rest.drop n = [] then none else some back.msg).toList
        = FrameEvent.begunOn client (log ++ (c.unsent self).map fun f => .begun self f.1 f.2) := by
    rw [begunOn_begun hpc, if_pos rfl, ← hbegun, List.append_assoc, List.append_assoc,
      (hsends.sent hpc hrest halone).2]
    split <;> rfl
  have helse : ∀ p, p ≠ client → FrameEvent.begunOn p
      (log ++ (c.unsent self).map fun f => .begun self f.1 f.2) = FrameEvent.begunOn p log := by
    intro p hp
    rw [begunOn_begun hpc, if_neg (Ne.symm hp), List.append_nil]
  refine ⟨hw, fun p b' hopen => ?_, fun p b' closed hp => ?_, fun q => ?_⟩
  · by_cases hp : p = client
    · subst hp
      rw [hstream', Function.update_self] at hopen
      cases hopen
      exact ⟨_, _, hsent, hnow⟩
    · rw [hstream', Function.update_of_ne hp] at hopen
      obtain ⟨msgs', next', hsends', hbegun'⟩ := hI.sending p b' hopen
      exact ⟨msgs', next', hsends'.congr (mid_elsewhere hp hpc hpc'),
        hbegun'.trans (helse p hp).symm⟩
  · by_cases hclient : p = client
    · subst hclient
      rw [hstream', Function.update_self] at hp
      cases hp
      exact ⟨_, _, hsent.frames, hnow⟩
    · rw [hstream', Function.update_of_ne hclient] at hp
      obtain ⟨msgs', next', hframes', hbegun'⟩ := hI.framed p b' closed hp
      exact ⟨msgs', next', hframes', hbegun'.trans (helse p hclient).symm⟩
  · have hold := hI.made q
    rw [madeBy_append, begunBy_append, madeBy_begun, begunBy_begun, List.append_nil]
    by_cases hq : q = self
    -- what was not begun is begun now
    · subst hq
      have hnone : c'.unsent q = [] := by
        rw [unsent_of_pcAt hself, SessionPc.unsent, if_neg]
        intro hall
        have hshort := (hI.writers.suffix q client rest back hpc).length_le
        have hpos := List.length_pos_of_ne_nil hrest
        rw [← hall, List.length_drop] at hshort
        omega
      rw [if_pos rfl, hnone, List.append_nil]
      exact hold
    · have hsame : c'.unsent q = c.unsent q := by
        rw [unsent, unsent, hpc', Function.update_of_ne hq]
      rw [if_neg (Ne.symm hq), List.append_nil, hsame]
      exact hold

theorem Streams.still (hI : Streams c log) (hpc : c'.pcAt = c.pcAt)
    (hstream : c'.stream = c.stream) : Streams c' log := by
  refine ⟨⟨hpc ▸ hI.writers.suffix, hpc ▸ hI.writers.reply⟩, fun p b hopen => ?_,
    hstream ▸ hI.framed, fun q => ?_⟩
  · rw [hstream] at hopen
    obtain ⟨msgs, next, hsends, hbegun⟩ := hI.sending p b hopen
    exact ⟨msgs, next, hsends.congr (mid_congr hpc), hbegun⟩
  · have hsame : c'.unsent q = c.unsent q := by rw [unsent, unsent, hpc]
    rw [hsame]
    exact hI.made q

end Log

section Runs

variable {H : StdHeap timerAfter} {c c' : Chat} {log : List FrameEvent}

/-- Outside the scheduler, what a coroutine does not do leaves the sessions alone. -/
theorem act_coroutine {a : ChatAct} {b : Option (Act Task Unit)} (h : c.act a = some (c', b)) :
    (c'.sessions = c.sessions ∧ c.frameEvents a = []) ∨
      ∃ self, c.machine.sched.runningCoro = some self ∧ c.coroutineAct self a = some (c', b) := by
  have hnone : ∀ {evs : List FrameEvent},
      evs = (match c.machine.sched.runningCoro with | none => [] | some _ => []) → evs = [] := by
    intro evs hevs
    rw [hevs]
    cases c.machine.sched.runningCoro <;> rfl
  cases actStep_of_act h with
  | sys a hrun => exact .inl ⟨rfl, hnone rfl⟩
  | listen fd hpc hfd hfresh => exact .inl ⟨rfl, hnone rfl⟩
  | post t fd hfd hfresh => exact .inl ⟨rfl, hnone rfl⟩
  | coroutine self hpc hself h => exact .inr ⟨self, hself, h⟩

/-- The scheduler's part in a step does not touch the sessions. -/
theorem step_act {a : ChatAct} (hs : c.step H a = some c') :
    ∃ c₁ b, c.act a = some (c₁, b) ∧ c'.sessions = c₁.sessions := by
  rcases step_cases hs with hact | ⟨c₁, b, m', hact, -, rfl⟩
  · exact ⟨c', none, hact, rfl⟩
  · exact ⟨c₁, some b, hact, rfl⟩

theorem pcAt_congr (h : c'.sessions = c.sessions) : c'.pcAt = c.pcAt := by
  funext p
  rw [pcAt, pcAt, h]

theorem stream_congr (h : c'.sessions = c.sessions) : c'.stream = c.stream := by
  funext p
  rw [stream, stream, h]

/-- What a step is to the outgoing streams. -/
theorem step_traffic (hsteady : Steady c) {a : ChatAct} (hs : c.step H a = some c') :
    (c'.pcAt = c.pcAt ∧ c'.stream = c.stream ∧ c.frameEvents a = []) ∨
      ∃ self c₁, c.machine.sched.runningCoro = some self ∧ Traffic c self a c₁ ∧
        c'.pcAt = c₁.pcAt ∧ c'.stream = c₁.stream := by
  obtain ⟨c₁, b, hact, hsame⟩ := step_act hs
  rcases act_coroutine hact with ⟨hsame₁, hevs⟩ | ⟨self, hself, hcoroutine⟩
  · exact .inl ⟨pcAt_congr (hsame.trans hsame₁), stream_congr (hsame.trans hsame₁), hevs⟩
  · exact .inr ⟨self, c₁, hself, coroutineAct_traffic hsteady.room hself hcoroutine,
      pcAt_congr hsame, stream_congr hsame⟩

theorem Writers.step (hI : Writers c) (hsteady : Steady c) {a : ChatAct}
    (hs : c.step H a = some c') : Writers c' := by
  rcases step_traffic hsteady hs with ⟨hpc, -, -⟩ | ⟨self, c₁, -, htraffic, hpc, -⟩
  · exact ⟨hpc ▸ hI.suffix, hpc ▸ hI.reply⟩
  · obtain ⟨hsuffix, hreply⟩ := hI.traffic htraffic
    exact ⟨hpc ▸ hsuffix, hpc ▸ hreply⟩

/-- **Step lemma.** -/
theorem Streams.step (hI : Streams c log) (hsteady : Steady c) {a : ChatAct}
    (hs : c.step H a = some c') (hok : c.RepliesAlone a c') :
    Streams c' (log ++ c.frameEvents a) := by
  rcases step_traffic hsteady hs with ⟨hpc, hstream, hevs⟩ |
    ⟨self, c₁, hself, htraffic, hpc, hstream⟩
  · rw [hevs, List.append_nil]
    exact hI.still hpc hstream
  · refine Streams.still ?_ hpc hstream
    have hwriters := hI.writers.traffic htraffic
    cases htraffic with
    | still hpc₁ hstream₁ hevs =>
        rw [hevs, List.append_nil]
        exact hI.still hpc₁ hstream₁
    | quiet hquiet => exact hquiet.streams hI hwriters
    | accept client rest back b n extra hpcs ht hrest hn hpc₁ hstream₁ ha =>
        subst ha
        have halone : c.sendsAlone self = true := by
          have hall : c.machine.sched.runningCoro.all c.sendsAlone = true := hok
          rw [hself] at hall
          exact hall
        rw [frameEvents_accept hself]
        exact hI.accept hwriters hpcs ht hrest hn (hI.writers.alone hsteady.room halone hpcs)
          hpc₁ hstream₁

theorem writers_init (pipeReadFd : Fd) (pipeCap : ℕ+) : Writers (init pipeReadFd pipeCap) :=
  ⟨nofun, nofun⟩

theorem streams_init (pipeReadFd : Fd) (pipeCap : ℕ+) : Streams (init pipeReadFd pipeCap) [] :=
  ⟨writers_init pipeReadFd pipeCap, nofun, nofun, fun _ => List.nil_sublist _⟩

/-- **Run lemma.** -/
theorem Streams.run {r : Chat × List FrameEvent} {pipeReadFd : Fd} {pipeCap : ℕ+}
    (hrun : Run (logged (Chat.step H) frameEvents) (unlogged RepliesAlone)
      (init pipeReadFd pipeCap, []) r) : Streams r.1 r.2 := by
  have hboth : Steady r.1 ∧ Streams r.1 r.2 := by
    refine hrun.invariant (P := fun r => Steady r.1 ∧ Streams r.1 r.2)
      ⟨steady_init pipeReadFd pipeCap, streams_init pipeReadFd pipeCap⟩ ?_
    rintro r a r' ⟨hsteady, hstreams⟩ hs hok
    obtain ⟨hstep, hlog⟩ := logged_eq_some_iff.mp hs
    rw [hlog]
    exact ⟨hsteady.step hstep, hstreams.step hsteady hstep hok⟩
  exact hboth.2

/-- A run without its history: what is accepted on a connection is frames. -/
theorem frames_of_run {pipeReadFd : Fd} {pipeCap : ℕ+}
    (hrun : Run (Chat.step H) RepliesAlone (init pipeReadFd pipeCap) c) {p : CoroPtr} {s : Session}
    (hs : c.sessions p = some s) : ∃ msgs next, Frames msgs next s.accepted := by
  obtain ⟨log, hlogged⟩ := hrun.logged frameEvents []
  obtain ⟨msgs, next, hframes, -⟩ := (Streams.run hlogged).framed p _ _ (stream_eq hs)
  exact ⟨msgs, next, hframes⟩

end Runs

/-- **Frames.** In every run of chat sessions on one scheduler in which replies and
    broadcasts do not meet in the middle of a frame, what the kernel has accepted on a
    connection is the frames that are begun on it, in the order they are begun, all but at
    most the last of them complete; the rest of that one is with the coroutine that sends
    it, as long as the connection is open.  What a coroutine begins are frames that
    `send_frame` has made in it, each once and in this order. -/
theorem frames_never_interleave (H : StdHeap timerAfter) (pipeReadFd : Fd) (pipeCap : ℕ+)
    {c : Chat} {log : List FrameEvent}
    (hrun : Run (logged (Chat.step H) frameEvents) (unlogged RepliesAlone)
      (init pipeReadFd pipeCap, []) (c, log)) :
    (∀ p s, c.sessions p = some s → ∃ msgs next,
      Frames msgs next s.accepted ∧ msgs ++ next.toList = FrameEvent.begunOn p log ∧
      (s.conn.closed = false → ∀ msg, next = some msg → ∃ q rest back,
        c.pcAt q = some (.write p rest back) ∧ back.msg = msg ∧
        s.accepted ++ rest = (msgs ++ [msg]).flatMap textFrame)) ∧
    ∀ q, (FrameEvent.begunBy q log).Sublist (FrameEvent.madeBy q log) := by
  have hI : Streams c log := Streams.run hrun
  refine ⟨fun p s hs => ?_, fun q => (List.sublist_append_left ..).trans (hI.made q)⟩
  have hstream := stream_eq hs
  cases hclosed : s.conn.closed with
  | true =>
      obtain ⟨msgs, next, hframes, hbegun⟩ := hI.framed p _ _ hstream
      exact ⟨msgs, next, hframes, hbegun, fun h => Bool.noConfusion h⟩
  | false =>
      rw [hclosed] at hstream
      obtain ⟨msgs, next, hsends, hbegun⟩ := hI.sending p _ hstream
      refine ⟨msgs, next, hsends.frames, hbegun, fun _ msg hmsg => ?_⟩
      rw [hmsg] at hsends
      exact hsends.writer

/-- The announcement of the first member. -/
def firstMessage : Bytes := joinMessage (bytes "a") 1 (bytes "[\"a\"]")

/-- A reply and a broadcast that do not meet: the first session is suspended within its
    own announcement, and the second one waits for a request. -/
theorem frames_never_interleave_suspended :
    ∃ c log, Run (logged (Chat.step sortedTimers) frameEvents) (unlogged RepliesAlone)
        (init 3 64, []) (c, log) ∧
      c.stream 0 = some ([0x81], false) ∧ FrameEvent.begunOn 0 log = [firstMessage] ∧
      (∃ q rest back, c.pcAt q = some (.write 0 rest back) ∧
        0x81 :: rest = textFrame firstMessage) ∧
      FrameEvent.begunBy 0 log = [(0, firstMessage)] := by
  obtain ⟨⟨c, log⟩, hrun, hend⟩ := exists_run_of_exec (logged (Chat.step sortedTimers) frameEvents)
    (unlogged RepliesAlone)
    (fun r => decide (r.1.stream 0 = some ([0x81], false) ∧
      FrameEvent.begunOn 0 r.2 = [firstMessage] ∧ FrameEvent.begunBy 0 r.2 = [(0, firstMessage)]))
    (init 3 64, [])
    (twoConnections ++ joins (bytes "a") ++ [.send (.accept 0), .send .eagain, .sys .reap,
      .sys .readyLoop, .start, .httpWait true]) (by decide +kernel)
  obtain ⟨hstream, hbegun, hby⟩ := of_decide_eq_true hend
  obtain ⟨s, hs, hboth⟩ := Option.map_eq_some_iff.mp hstream
  obtain ⟨haccepted, hopen⟩ := Prod.mk.inj hboth
  obtain ⟨hall, -⟩ := frames_never_interleave sortedTimers 3 64 hrun
  obtain ⟨msgs, next, hframes, hmsgs, hwriter⟩ := hall 0 s hs
  refine ⟨c, log, hrun, hstream, hbegun, ?_, hby⟩
  rw [hbegun] at hmsgs
  rw [haccepted] at hframes hwriter
  cases next with
  -- the frame is longer than what is sent of it
  | none =>
      obtain ⟨part, hb, hpart⟩ := hframes
      have hpart : part = [] := hpart
      obtain rfl : msgs = [firstMessage] := by simpa using hmsgs
      rw [hpart] at hb
      exact absurd hb (by decide +kernel)
  | some msg =>
      obtain ⟨rfl, hmsg⟩ := List.append_inj' (hmsgs.trans (List.nil_append [firstMessage]).symm) rfl
      obtain rfl : msg = firstMessage := by simpa using hmsg
      obtain ⟨q, rest, back, hpc, -, hrest⟩ := hwriter hopen _ rfl
      refine ⟨q, rest, back, hpc, ?_⟩
      simpa using hrest

/-! ### A reply within a broadcast -/

/-- The second session has sent one byte of its announcement to the first, whose send
    buffer is full; the first one, which is about to read, answers a PING. -/
theorem reply_interleaves :
    ¬ ∀ c, Run (Chat.step sortedTimers) anyStep (init 3 64) c →
      ∀ p s, c.sessions p = some s → ∃ msgs next, Frames msgs next s.accepted := by
  intro hframes
  obtain ⟨c, hrun, hmixed⟩ := exists_run_of_exec (Chat.step sortedTimers) anyStep
    (fun c => decide ((c.sessions 0).map Session.accepted
      = some (textFrame firstMessage ++ [0x81, 0x81, 0x00]))) (init 3 64)
    (firstWaits ++ [.sys .readyLoop, .start, .httpWait true, .sys .reap, .sys .readyLoop,
      .sys (.fireTimers 0), .sys (.epollWait [6, 5]), .sys .event, .sys .event,
      .sys (.lastTimers 0), .sys .readyLoop, .upgrade (bytes "b"), .locked, .locked, .locked,
      .locked, .locked, .next, .send (.accept 0), .send .eagain, .sys .reap, .sys .readyLoop,
      .recv (.data 0x89 [0]), .next, .next, .next, .send (.accept 1)])
    (by decide +kernel)
  obtain ⟨s, hs, haccepted⟩ := Option.map_eq_some_iff.mp (of_decide_eq_true hmixed)
  obtain ⟨msgs, next, hmsgs⟩ := hframes c hrun 0 s hs
  rw [haccepted] at hmsgs
  obtain ⟨all, hall⟩ := hmsgs.begins
  obtain ⟨all', hbehind⟩ := begins_behind (by decide) hall
  have hbyte := length_byte hbehind
  revert hbyte
  decide

end Chat

end CoroutineHttp.Ws
