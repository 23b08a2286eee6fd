/-
  CoroutineHttp.Ws.Ledger

  The chat room as a group (`CoroutineHttp.Library.Group`): what a client has received of
  the messages that are broadcast, and what it is owed.

  A broadcast is said where it locks the room; its frames follow one by one, and the
  coroutine that has the lock keeps who has not got one (`owes`).  So what a client has
  received and what is pending for it are together what it is due (`Ledger.sends`).
  The rules say how this is kept by a step that accepts no bytes (`Ledger.rule`) and by
  one that does (`Ledger.accept`).
-/

import CoroutineHttp.Library.Group
import CoroutineHttp.Ws.Outgoing

namespace CoroutineHttp.Ws

open CoroutineHttp.Library CoroutineHttp.Core CoroutineHttp.Net

/-! ## Messages -/

/-- The messages but the replies to PINGs, which are empty. -/
def texts (msgs : List Bytes) : List Bytes := msgs.filter (· ≠ [])

theorem texts_append (msgs msgs' : List Bytes) :
    texts (msgs ++ msgs') = texts msgs ++ texts msgs' :=
  List.filter_append ..

namespace SessionPc

/-- The message of the broadcast that is made at this point, or to be made next. -/
def said? : SessionPc → Option Bytes
  | .broadcast _ msg | .each _ msg _ | .write _ _ (.each _ msg _) => some msg
  | _ => none

/-- What the group learns of the critical section at this point. -/
def event (self : CoroPtr) : SessionPc → List (GroupEvent CoroPtr Bytes)
  | .join => [.join self]
  | .leave => [.leave self]
  | .broadcast _ msg => [.say msg]
  | _ => []

/-- What a broadcast at this point has not sent to `p` in full. -/
def owes (p : CoroPtr) : SessionPc → List Bytes
  | .each _ msg todo => if p ∈ todo then [msg] else []
  | .write client rest (.each _ msg todo) =>
      if p ∈ todo ∨ (client = p ∧ rest ≠ []) then [msg] else []
  | _ => []

theorem owes_length (pc : SessionPc) (p : CoroPtr) : (pc.owes p).length ≤ 1 := by
  unfold owes
  split
  · split <;> simp
  · split <;> simp
  · exact Nat.zero_le 1

theorem owes_of_not_locks {pc : SessionPc} (h : pc.locks = false) (p : CoroPtr) :
    pc.owes p = [] := by
  cases pc with
  | each phase msg todo => cases h
  | write client rest back =>
      cases back with
      | each phase msg todo => cases h
      | loop => rfl
  | http | join | log | online | users | broadcast | loop | recv | leave | gone => rfl

theorem owes_of_not_target {pc : SessionPc} {p : CoroPtr} (h : p ∉ pc.targets) :
    pc.owes p = [] := by
  cases pc with
  | each phase msg todo => exact if_neg h
  | write client rest back =>
      cases back with
      | each phase msg todo =>
          obtain ⟨hne, hnot⟩ := not_or.mp (mt List.mem_cons.mpr h)
          exact if_neg (not_or.mpr ⟨hnot, fun hp => hne hp.1.symm⟩)
      | loop => rfl
  | http | join | log | online | users | broadcast | loop | recv | leave | gone => rfl

/-- A point at which no broadcast is made and none is next, nor the join. -/
def plain : SessionPc → Bool
  | .join | .broadcast .. | .each .. | .write .. => false
  | _ => true

theorem locks_of_plain {pc : SessionPc} (h : pc.plain = true) : pc.locks = false := by
  cases pc with
  | join | broadcast | each | write => cases h
  | http | log | online | users | loop | recv | leave | gone => rfl

/-- Past the join nobody is to be written to twice, and nothing empty is said. -/
structure Fit (pc : SessionPc) : Prop where
  joined : pc ≠ .join
  targets : pc.targets.Nodup
  said : pc.said? ≠ some []

theorem Fit.of_plain {pc : SessionPc} (h : pc.plain = true) : pc.Fit := by
  cases pc with
  | join | broadcast | each | write => cases h
  | http | log | online | users | loop | recv | leave | gone =>
      exact ⟨by simp, List.nodup_nil, by simp [said?]⟩

end SessionPc

theorem systemMessage_ne_nil (nick what : Bytes) (online : Nat) (users : Bytes) :
    systemMessage nick what online users ≠ [] := by
  simp [systemMessage, bytes]

theorem chatMessage_ne_nil (nick payload : Bytes) : chatMessage nick payload ≠ [] := by
  simp [chatMessage, bytes]

theorem afterFrame_fit (self : CoroPtr) (nick : Bytes) (frame : Option WsFrame) :
    (afterFrame self nick frame).Fit := by
  cases frame with
  | none => exact .of_plain rfl
  | some f =>
      unfold afterFrame
      dsimp only
      split
      · exact .of_plain rfl
      · split
        · exact ⟨by simp, List.nodup_singleton self, by simp [SessionPc.said?]⟩
        · split
          · exact ⟨by simp, List.nodup_nil,
              fun h => chatMessage_ne_nil nick f.payload (Option.some.inj h)⟩
          · exact .of_plain rfl

theorem Back.fit {client : CoroPtr} {rest : Bytes} (back : Back)
    (h : (SessionPc.write client rest back).Fit) : back.pc.Fit := by
  cases back with
  | each phase msg todo => exact ⟨by simp [Back.pc], (List.nodup_cons.mp h.targets).2, h.said⟩
  | loop => exact .of_plain rfl

/-- A `write` that has nothing to send to `p` returns. -/
theorem Back.owes {client p : CoroPtr} {rest : Bytes} (back : Back) (h : client ≠ p ∨ rest = []) :
    back.pc.owes p = (SessionPc.write client rest back).owes p := by
  cases back with
  | loop => rfl
  | each phase msg todo =>
      rcases h with hne | hrest
      · simp [SessionPc.owes, Back.pc, hne]
      · simp [SessionPc.owes, Back.pc, hrest]

namespace Chat

/-! ## The sequence of events -/

/-- The event of a step: that of the critical section the running coroutine is before. -/
def event (c : Chat) : ChatAct → List (GroupEvent CoroPtr Bytes)
  | .locked =>
      match c.machine.sched.runningCoro with
      | some self => ((c.pcAt self).map (SessionPc.event self)).getD []
      | none => []
  | _ => []

theorem event_locked {c : Chat} {self : CoroPtr} {pc : SessionPc}
    (hself : c.machine.sched.runningCoro = some self) (hat : c.pcAt self = some pc) :
    c.event .locked = pc.event self := by
  simp [event, hself, hat]

/-- What the broadcast that has the lock has not sent to `p` in full. -/
def pending (c : Chat) (p : CoroPtr) : List Bytes :=
  match c.room.owner.bind c.pcAt with
  | some pc => pc.owes p
  | none => []

/-- `b` begins as what a client is due. -/
def Begins (due : List Bytes) (b : Bytes) : Prop :=
  ∃ msgs next, Frames msgs next b ∧ texts (msgs ++ next.toList) <+: due

/-- The invariant. -/
structure Ledger (c : Chat) (log : List (GroupEvent CoroPtr Bytes)) : Prop where
  members : c.room.members = GroupEvent.members log
  nodup : c.room.members.Nodup
  targets : ∀ q pc, c.pcAt q = some pc → pc.targets.Nodup
  said : ∀ q pc, c.pcAt q = some pc → pc.said? ≠ some []
  unheard : ∀ p, c.pcAt p = none → GroupEvent.due p log = []
  fresh : ∀ p b closed, c.pcAt p = some .join → c.stream p = some (b, closed) → b = []
  sends : ∀ p b, c.pcAt p ≠ some .join → c.stream p = some (b, false) →
    ∃ msgs next, c.Sends p msgs next b ∧ texts msgs ++ c.pending p = GroupEvent.due p log
  begins : ∀ p b closed, c.pcAt p ≠ some .join → c.stream p = some (b, closed) →
    Begins (GroupEvent.due p log) b

theorem Begins.mono {due due' : List Bytes} {b : Bytes} (h : Begins due b) (hdue : due <+: due') :
    Begins due' b := by
  obtain ⟨msgs, next, hframes, hpre⟩ := h
  exact ⟨msgs, next, hframes, hpre.trans hdue⟩

/-! ## What is pending -/

section Pending

variable {c c' : Chat} {self : CoroPtr} {pc pc' : SessionPc}

theorem pending_of_free (h : c.room.owner = none) (p : CoroPtr) : c.pending p = [] := by
  rw [pending, h]
  rfl

theorem pending_of_owner (howner : c.room.owner = some self) (hpc : c.pcAt self = some pc)
    (p : CoroPtr) : c.pending p = pc.owes p := by
  rw [pending, howner, Option.bind_some, hpc]

theorem pending_length (c : Chat) (p : CoroPtr) : (c.pending p).length ≤ 1 := by
  rw [pending]
  split
  next pc hat => exact pc.owes_length p
  next => exact Nat.zero_le 1

/-- `self` goes to a point that owes `p` the same. -/
theorem pending_update (hpc : c.pcAt self = some pc)
    (hpc' : c'.pcAt = Function.update c.pcAt self (some pc'))
    (howner : c'.room.owner = c.room.owner) {p : CoroPtr} (howes : pc'.owes p = pc.owes p) :
    c'.pending p = c.pending p := by
  rw [pending, pending, howner, hpc']
  cases c.room.owner with
  | none => rfl
  | some q =>
      rw [Option.bind_some, Option.bind_some]
      by_cases hq : q = self
      · rw [hq, Function.update_self, hpc]
        exact howes
      · rw [Function.update_of_ne hq]

end Pending

/-! ## Steps without bytes -/

/-- How a client comes through a step: it is due `new` in addition, which is pending as
    long as its connection is open, or it begins. -/
inductive Fares (c : Chat) (log : List (GroupEvent CoroPtr Bytes)) (c' : Chat)
    (log' : List (GroupEvent CoroPtr Bytes)) (p : CoroPtr) (b : Bytes) (closed : Bool) : Prop where
  | on (closed' : Bool) (new : List Bytes) (hjoin : c.pcAt p ≠ some .join)
      (hstream : c.stream p = some (b, closed')) (hclosed : closed = false → closed' = false)
      (hpending : closed = false → c'.pending p = c.pending p ++ new)
      (hdue : GroupEvent.due p log' = GroupEvent.due p log ++ new)
  | anew (hb : b = []) (hdue : GroupEvent.due p log' = []) (hpending : c'.pending p = [])
      (hnobody : ∀ q rest back, c'.pcAt q ≠ some (.write p rest back))

/-- Nobody's place within a frame to an open connection changes. -/
def SamePlaces (c c' : Chat) : Prop :=
  ∀ p b, c'.stream p = some (b, false) →
    ∀ q rest back, c'.Mid p q rest back ↔ c.Mid p q rest back

section Quiet

variable {c c' : Chat} {log log' : List (GroupEvent CoroPtr Bytes)} {self : CoroPtr}
  {pc pc' : SessionPc}

/-- **Ledger rule**, for a step of `self` to `pc'` in which nobody's place within a frame
    changes. -/
theorem Ledger.rule (hI : Ledger c log)
    (hpc : c'.pcAt = Function.update c.pcAt self (some pc'))
    (hmembers : c'.room.members = GroupEvent.members log') (hnodup : c'.room.members.Nodup)
    (htargets : pc'.targets.Nodup) (hsaid : pc'.said? ≠ some [])
    (hmid : SamePlaces c c')
    (hunheard : ∀ p, p ≠ self → c.pcAt p = none → GroupEvent.due p log' = GroupEvent.due p log)
    (hfresh : pc' = .join → ∀ b closed, c'.stream self = some (b, closed) → b = [])
    (hother : ∀ p, p ≠ self → ∀ b closed, c'.stream p = some (b, closed) →
      ∃ closed', c.stream p = some (b, closed'))
    (hfares : ∀ p b closed, c'.pcAt p ≠ some .join → c'.stream p = some (b, closed) →
      Fares c log c' log' p b closed) : Ledger c' log' := by
  have hself : c'.pcAt self = some pc' := by rw [hpc, Function.update_self]
  have hkeep : ∀ q, q ≠ self → c'.pcAt q = c.pcAt q := by
    intro q hq
    rw [hpc, Function.update_of_ne hq]
  refine ⟨hmembers, hnodup, fun q pc h => ?_, fun q pc h => ?_, fun p h => ?_,
    fun p b closed hp h => ?_, fun p b hp h => ?_, fun p b closed hp h => ?_⟩
  · by_cases hq : q = self
    · rw [hq, hself] at h
      cases h
      exact htargets
    · rw [hkeep q hq] at h
      exact hI.targets q pc h
  · by_cases hq : q = self
    · rw [hq, hself] at h
      cases h
      exact hsaid
    · rw [hkeep q hq] at h
      exact hI.said q pc h
  · by_cases hq : p = self
    · rw [hq, hself] at h
      cases h
    · rw [hkeep p hq] at h
      rw [hunheard p hq h, hI.unheard p h]
  · by_cases hq : p = self
    · subst hq
      rw [hself] at hp
      exact hfresh (Option.some.inj hp) b closed h
    · rw [hkeep p hq] at hp
      obtain ⟨closed', hold⟩ := hother p hq b closed h
      exact hI.fresh p b closed' hp hold
  · cases hfares p b false hp h with
    | on closed' new hjoin hstream hclosed hpending hdue =>
        rw [hclosed rfl] at hstream
        obtain ⟨msgs, next, hsends, hall⟩ := hI.sends p b hjoin hstream
        refine ⟨msgs, next, hsends.congr (hmid p b h), ?_⟩
        rw [hpending rfl, ← List.append_assoc, hall, hdue]
    | anew hb hdue hpending hnobody =>
        subst hb
        refine ⟨[], none, .nil hnobody, ?_⟩
        rw [hpending, hdue]
        rfl
  · cases hfares p b closed hp h with
    | on closed' new hjoin hstream hclosed hpending hdue =>
        refine (hI.begins p b closed' hjoin hstream).mono ?_
        rw [hdue]
        exact List.prefix_append ..
    | anew hb hdue hpending hnobody =>
        exact ⟨[], none, hb ▸ frames_nil, List.nil_prefix⟩

/-- A step of `self` that says nothing to the group. -/
theorem Ledger.keep (hI : Ledger c log) (hat : c.pcAt self = some pc)
    (hpc : c'.pcAt = Function.update c.pcAt self (some pc')) (hjoin : pc ≠ .join)
    (hfit : pc'.Fit) (hmembers : c'.room.members = c.room.members) (hmid : SamePlaces c c')
    (hstream : ∀ p b closed, c'.stream p = some (b, closed) →
      ∃ closed', c.stream p = some (b, closed') ∧ (closed = false → closed' = false))
    (hpending : ∀ p b, c'.stream p = some (b, false) → c'.pending p = c.pending p) :
    Ledger c' log := by
  refine hI.rule hpc (hmembers ▸ hI.members) (hmembers ▸ hI.nodup) hfit.targets hfit.said hmid
    (fun _ _ _ => rfl) (fun h => absurd h hfit.joined) (fun p _ b closed h => ?_)
    fun p b closed hp h => ?_
  · obtain ⟨closed', hold, -⟩ := hstream p b closed h
    exact ⟨closed', hold⟩
  · obtain ⟨closed', hold, hclosed⟩ := hstream p b closed h
    refine .on closed' [] ?_ hold hclosed (fun hopen => ?_) (List.append_nil _).symm
    · by_cases hq : p = self
      · rw [hq, hat]
        exact fun h => hjoin (Option.some.inj h)
      · rwa [hpc, Function.update_of_ne hq] at hp
    · rw [List.append_nil]
      exact hpending p b (hopen ▸ h)

/-- A step that touches neither the sessions nor the room. -/
theorem Ledger.congr (hI : Ledger c log) (hsessions : c'.sessions = c.sessions)
    (hroom : c'.room = c.room) : Ledger c' log := by
  have hpc : c'.pcAt = c.pcAt := pcAt_congr hsessions
  have hstream : c'.stream = c.stream := stream_congr hsessions
  have hpending : c'.pending = c.pending := by
    funext p
    rw [pending, pending, hroom, hpc]
  refine ⟨hroom ▸ hI.members, hroom ▸ hI.nodup, hpc ▸ hI.targets, hpc ▸ hI.said, hpc ▸ hI.unheard,
    hpc ▸ hstream ▸ hI.fresh, fun p b hp h => ?_, hpc ▸ hstream ▸ hI.begins⟩
  rw [hpc] at hp
  rw [hstream] at h
  obtain ⟨msgs, next, hsends, hall⟩ := hI.sends p b hp h
  exact ⟨msgs, next, hsends.congr (mid_congr hpc), hpending ▸ hall⟩

end Quiet

/-! ## Events -/

section Events

variable {c c' : Chat} {log : List (GroupEvent CoroPtr Bytes)} {self : CoroPtr} {pc pc' : SessionPc}

/-- A coroutine that has locals, seen as `RoomOk` does. -/
theorem view_of_pcAt (h : c.pcAt self = some pc) : ∃ fd, c.view self = some (fd, pc) := by
  obtain ⟨s, hs, rfl⟩ := Option.map_eq_some_iff.mp h
  exact ⟨s.conn.fd, view_of_sessions hs⟩

theorem RoomOk.pcAt_of_member (hI : RoomOk c.view c.room) {p : CoroPtr}
    (hp : p ∈ c.room.members) : ∃ pc, c.pcAt p = some pc ∧ pc.inRoom = true := by
  obtain ⟨fd, pc, hview, hin⟩ := hI.member p hp
  obtain ⟨s, hs, hsame⟩ := Option.map_eq_some_iff.mp hview
  cases hsame
  exact ⟨s.pc, pcAt_eq hs, hin⟩

theorem RoomOk.not_member (hI : RoomOk c.view c.room) (hat : c.pcAt self = some pc)
    (hout : pc.inRoom = false) : self ∉ c.room.members := by
  intro hmem
  obtain ⟨pc', hat', hin⟩ := hI.pcAt_of_member hmem
  rw [hat] at hat'
  cases hat'
  rw [hout] at hin
  cases hin

/-- Who is written to is a member, or writes to itself. -/
theorem RoomOk.written (hI : RoomOk c.view c.room) {q client : CoroPtr} {rest : Bytes}
    {back : Back} (h : c.pcAt q = some (.write client rest back)) :
    client = q ∨ client ∈ c.room.members := by
  obtain ⟨fd, hview⟩ := view_of_pcAt h
  have htarget : client ∈ (SessionPc.write client rest back).targets := by
    cases back <;> simp [SessionPc.targets]
  exact (hI.targets q fd _ hview client htarget).imp_right And.right

/-- Nothing is pending for a coroutine without a connection. -/
theorem RoomOk.pending_none (hI : RoomOk c.view c.room) {p : CoroPtr} (hnone : c.pcAt p = none) :
    c.pending p = [] := by
  rw [pending]
  cases hat : c.room.owner.bind c.pcAt with
  | none => rfl
  | some pc =>
      obtain ⟨q, -, hq⟩ := Option.bind_eq_some_iff.mp hat
      obtain ⟨fd, hview⟩ := view_of_pcAt hq
      apply SessionPc.owes_of_not_target
      intro htarget
      rcases hI.targets q fd pc hview p htarget with rfl | ⟨-, hmem⟩
      · rw [hnone] at hq
        cases hq
      · obtain ⟨pc', hat', -⟩ := hI.pcAt_of_member hmem
        rw [hnone] at hat'
        cases hat'

/-- **Joining.** -/
theorem Ledger.join (hI : Ledger c log) (hroom : RoomOk c.view c.room)
    (hat : c.pcAt self = some .join) (hfree : c.room.owner = none) (nick : Bytes)
    (hc' : c' = (c.setRoom (c.room.join self nick)).goto self (.log .joined))
    (hmid : SamePlaces c c') :
    Ledger c' (log ++ [.join self]) := by
  have hpc : c'.pcAt = Function.update c.pcAt self (some (.log .joined)) := by
    rw [hc']
    exact pcAt_goto hat _
  have hstream : c'.stream = c.stream := by
    rw [hc']
    exact stream_goto _ self _
  have hmembers : c'.room.members = c.room.members ++ [self] := by
    rw [hc']
    exact members_join c.room nick
  have hfree' : c'.room.owner = none := by
    rw [hc']
    exact hfree
  have hnot : self ∉ c.room.members := hroom.not_member hat rfl
  refine hI.rule hpc ?_ ?_ List.nodup_nil nofun hmid ?_ nofun ?_ ?_
  · rw [hmembers, hI.members, GroupEvent.members_concat]
    rfl
  · rw [hmembers]
    rw [← List.concat_eq_append]
    exact hI.nodup.concat hnot
  · intro p hp _
    exact GroupEvent.due_join log hp.symm
  · intro p _ b closed h
    exact ⟨closed, hstream ▸ h⟩
  · intro p b closed hp h
    rw [hstream] at h
    by_cases hself : p = self
    -- what it may be due from its last visit is forgotten
    · subst hself
      refine .anew (hI.fresh p b closed hat h) (GroupEvent.due_join_self p log)
        (pending_of_free hfree' p) fun q rest back hq => ?_
      rw [hpc] at hq
      by_cases hqp : q = p
      · rw [hqp, Function.update_self] at hq
        cases hq
      · rw [Function.update_of_ne hqp] at hq
        rcases hroom.written hq with rfl | hmem
        · exact hqp rfl
        · exact hnot hmem
    · rw [hpc, Function.update_of_ne hself] at hp
      refine .on closed [] hp h id (fun _ => ?_) ?_
      · rw [pending_of_free hfree', pending_of_free hfree]
        rfl
      · rw [GroupEvent.due_join log (Ne.symm hself), List.append_nil]

theorem members_leave (room : ChatRoom) (p : CoroPtr) :
    (room.leave p).members = room.members.filter (· ≠ p) := by
  rw [ChatRoom.members, ChatRoom.leave, ChatRoom.members, List.filter_map]
  congr 1
  apply List.filter_congr
  intro client _
  by_cases h : client.ws = p <;> simp [h]

/-- **Leaving.** -/
theorem Ledger.leave (hI : Ledger c log) (hat : c.pcAt self = some .leave)
    (hfree : c.room.owner = none)
    (hc' : c' = (c.setRoom (c.room.leave self)).goto self (.log .left))
    (hmid : SamePlaces c c') :
    Ledger c' (log ++ [.leave self]) := by
  have hpc : c'.pcAt = Function.update c.pcAt self (some (.log .left)) := by
    rw [hc']
    exact pcAt_goto hat _
  have hstream : c'.stream = c.stream := by
    rw [hc']
    exact stream_goto _ self _
  have hmembers : c'.room.members = c.room.members.filter (· ≠ self) := by
    rw [hc']
    exact members_leave c.room self
  have hfree' : c'.room.owner = none := by
    rw [hc']
    exact hfree
  refine hI.rule hpc ?_ ?_ List.nodup_nil nofun hmid ?_ nofun ?_ ?_
  · rw [hmembers, hI.members, GroupEvent.members_concat]
    rfl
  · rw [hmembers]
    exact hI.nodup.filter _
  · intro p _ _
    exact GroupEvent.due_leave p self log
  · intro p _ b closed h
    exact ⟨closed, hstream ▸ h⟩
  · intro p b closed hp h
    rw [hstream] at h
    refine .on closed [] ?_ h id (fun _ => ?_) ?_
    · by_cases hself : p = self
      · rw [hself, hat]
        nofun
      · rwa [hpc, Function.update_of_ne hself] at hp
    · rw [pending_of_free hfree', pending_of_free hfree]
      rfl
    · rw [GroupEvent.due_leave, List.append_nil]

/-- **Saying.** From here on the message is due to the members, and owed to each. -/
theorem Ledger.lock (hI : Ledger c log) (hroom : RoomOk c.view c.room) {phase : Phase}
    {msg : Bytes} (hat : c.pcAt self = some (.broadcast phase msg)) (hfree : c.room.owner = none)
    (hc' : c' = (c.setRoom { c.room with owner := some self }).goto self
      (.each phase msg c.room.members))
    (hmid : SamePlaces c c') :
    Ledger c' (log ++ [.say msg]) := by
  have hpc : c'.pcAt = Function.update c.pcAt self (some (.each phase msg c.room.members)) := by
    rw [hc']
    exact pcAt_goto hat _
  have hstream : c'.stream = c.stream := by
    rw [hc']
    exact stream_goto _ self _
  have hmembers : c'.room.members = c.room.members := by
    rw [hc']
    rfl
  have howner : c'.room.owner = some self := by
    rw [hc']
    rfl
  have hself : c'.pcAt self = some (.each phase msg c.room.members) := by
    rw [hpc, Function.update_self]
  have hsaid : (SessionPc.each phase msg c.room.members).said? ≠ some [] :=
    hI.said self (.broadcast phase msg) hat
  refine hI.rule hpc ?_ (hmembers ▸ hI.nodup) hI.nodup hsaid hmid ?_ nofun ?_ ?_
  · rw [hmembers, hI.members, GroupEvent.members_concat]
    rfl
  · intro p _ hp
    rw [GroupEvent.due_say, ← hI.members, if_neg, List.append_nil]
    intro hmem
    obtain ⟨pc, hpc, -⟩ := hroom.pcAt_of_member hmem
    rw [hp] at hpc
    cases hpc
  · intro p _ b closed h
    exact ⟨closed, hstream ▸ h⟩
  · intro p b closed hp h
    rw [hstream] at h
    refine .on closed (if p ∈ c.room.members then [msg] else []) ?_ h id (fun _ => ?_) ?_
    · by_cases hq : p = self
      · rw [hq, hat]
        nofun
      · rwa [hpc, Function.update_of_ne hq] at hp
    · rw [pending_of_free hfree, pending_of_owner howner hself]
      rfl
    · rw [GroupEvent.due_say, hI.members]

/-- **A session begins**, with its connection or on an upgrade. -/
theorem Ledger.begin (hI : Ledger c log) (hroom : RoomOk c.view c.room)
    (hold : c.pcAt self = none ∧ pc' = .http ∨ c.pcAt self = some .http ∧ pc' = .join)
    (hpc : c'.pcAt = Function.update c.pcAt self (some pc')) {closed : Bool}
    (hstream : c'.stream = Function.update c.stream self (some ([], closed)))
    (hc' : c'.room = c.room)
    (hmid : SamePlaces c c') : Ledger c' log := by
  have hnew : pc' = .http ∨ pc' = .join := hold.imp And.right And.right
  have hpending : ∀ p, c'.pending p = c.pending p := by
    intro p
    rw [pending, pending, hc', hpc]
    cases howner : c.room.owner with
    | none => rfl
    | some q =>
        rw [Option.bind_some, Option.bind_some]
        by_cases hq : q = self
        · subst hq
          rw [Function.update_self]
          rcases hold with ⟨hnone, rfl⟩ | ⟨hhttp, rfl⟩
          · rw [hnone]
            rfl
          · rw [hhttp]
            rfl
        · rw [Function.update_of_ne hq]
  refine hI.rule hpc (hc' ▸ hI.members) (hc' ▸ hI.nodup) ?_ ?_ hmid (fun _ _ _ => rfl) ?_ ?_ ?_
  · rcases hnew with rfl | rfl <;> exact List.nodup_nil
  · rcases hnew with rfl | rfl <;> nofun
  · intro _ b closed' h
    rw [hstream, Function.update_self] at h
    cases h
    rfl
  · intro p hp b closed' h
    rw [hstream, Function.update_of_ne hp] at h
    exact ⟨closed', h⟩
  · intro p b closed' hp h
    by_cases hself : p = self
    · subst hself
      rw [hpc, Function.update_self] at hp
      rcases hold with ⟨hnone, rfl⟩ | ⟨-, rfl⟩
      · rw [hstream, Function.update_self] at h
        cases h
        have hnobody := hroom.nobody_writes (.inl hnone)
        refine .anew rfl (hI.unheard p hnone) ?_ fun q rest back hq => ?_
        · rw [hpending]
          exact hroom.pending_none hnone
        · rw [hpc] at hq
          by_cases hqp : q = p
          · rw [hqp, Function.update_self] at hq
            cases hq
          · rw [Function.update_of_ne hqp] at hq
            exact hnobody q rest back hq
      · exact absurd rfl hp
    · rw [hstream, Function.update_of_ne hself] at h
      rw [hpc, Function.update_of_ne hself] at hp
      refine .on closed' [] hp h id (fun _ => ?_) (List.append_nil _).symm
      rw [hpending, List.append_nil]

end Events

/-! ## Bytes -/

section Accept

variable {c c' : Chat} {log : List (GroupEvent CoroPtr Bytes)} {self client : CoroPtr}
  {rest b : Bytes} {back : Back} {n : Nat}

/-- A broadcast is done with `client` when its frame is sent, and not before. -/
theorem owes_drop {p : CoroPtr} (hrest : rest ≠ []) (h : client ≠ p ∨ rest.drop n ≠ []) :
    (SessionPc.write client (rest.drop n) back).owes p =
      (SessionPc.write client rest back).owes p := by
  cases back with
  | loop => rfl
  | each phase msg todo =>
      rcases h with hne | hmore
      · simp [SessionPc.owes, hne]
      · simp only [SessionPc.owes, ne_eq, hrest, hmore]

/-- A broadcast that has not sent its frame to `client` in full owes it the message. -/
theorem Ledger.owed (hI : Ledger c log) (hroom : RoomOk c.view c.room)
    (hat : c.pcAt self = some (.write client rest back)) (hrest : rest ≠ []) :
    texts [back.msg] <+: c.pending client := by
  cases back with
  -- a reply is not due
  | loop => exact List.nil_prefix
  | each phase msg todo =>
      obtain ⟨fd, hview⟩ := view_of_pcAt hat
      have howner : c.room.owner = some self := hroom.lock self fd _ hview rfl
      have hmsg : msg ≠ [] := fun h => hI.said self _ hat (congrArg some h)
      rw [pending_of_owner howner hat]
      simp [SessionPc.owes, Back.msg, texts, hmsg, hrest]

/-- The last bytes of a frame to `client` bring it the message of the frame. -/
theorem Ledger.paid (hI : Ledger c log) (hroom : RoomOk c.view c.room)
    (hat : c.pcAt self = some (.write client rest back)) (hrest : rest ≠ [])
    (hlast : rest.drop n = [])
    (hpc : c'.pcAt = Function.update c.pcAt self (some (.write client (rest.drop n) back)))
    (hc' : c'.room = c.room) : c.pending client = texts [back.msg] ++ c'.pending client := by
  cases back with
  | loop =>
      -- a reply is not due
      have hsame : c'.pending client = c.pending client :=
        pending_update hat hpc (congrArg ChatRoom.owner hc') rfl
      rw [hsame]
      rfl
  | each phase msg todo =>
      obtain ⟨fd, hview⟩ := view_of_pcAt hat
      have howner : c.room.owner = some self := hroom.lock self fd _ hview rfl
      have hself : c'.pcAt self = some (.write client (rest.drop n) (.each phase msg todo)) := by
        rw [hpc, Function.update_self]
      have hmsg : msg ≠ [] := fun h => hI.said self _ hat (congrArg some h)
      have hnot : client ∉ todo := (List.nodup_cons.mp (hI.targets self _ hat)).1
      rw [pending_of_owner howner hat, pending_of_owner (hc' ▸ howner) hself]
      simp [SessionPc.owes, Back.msg, texts, hmsg, hnot, hrest, hlast]

/-- **Accepting bytes.** -/
theorem Ledger.accept (hI : Ledger c log) (hroom : RoomOk c.view c.room)
    (hat : c.pcAt self = some (.write client rest back)) (ht : c.stream client = some (b, false))
    (hrest : rest ≠ []) (hn : 0 < n)
    (halone : ∀ q rest' back', c.Mid client q rest' back' → q = self)
    (hpc : c'.pcAt = Function.update c.pcAt self (some (.write client (rest.drop n) back)))
    (hstream : c'.stream = Function.update c.stream client (some (b ++ rest.take n, false)))
    (hc' : c'.room = c.room) : Ledger c' log := by
  have hself : c'.pcAt self = some (.write client (rest.drop n) back) := by
    rw [hpc, Function.update_self]
  have hother : ∀ q, q ≠ self → c'.pcAt q = c.pcAt q := by
    intro q hq
    rw [hpc, Function.update_of_ne hq]
  have honly := alone_after hpc halone
  have howner : c'.room.owner = c.room.owner := congrArg ChatRoom.owner hc'
  -- nobody writes to a session before its `join`
  have hclient : c.pcAt client ≠ some .join := by
    intro hjoin
    rcases hroom.written hat with rfl | hmem
    · rw [hat] at hjoin
      cases hjoin
    · exact hroom.not_member hjoin rfl hmem
  have hjoin : ∀ p, c'.pcAt p ≠ some .join → c.pcAt p ≠ some .join := by
    intro p hp h
    by_cases hq : p = self
    · rw [hq, hat] at h
      cases h
    · exact hp ((hother p hq).trans h)
  -- `client` receives the bytes, and the message with the last of them
  have hreceived : ∃ msgs next, c'.Sends client msgs next (b ++ rest.take n) ∧
      texts msgs ++ c'.pending client = GroupEvent.due client log ∧
      texts (msgs ++ next.toList) <+: GroupEvent.due client log := by
    obtain ⟨msgs, next, hsends, hall⟩ := hI.sends client b hclient ht
    refine ⟨_, _, hsends.extend hat hrest halone hn hself honly, ?_, ?_⟩
    · by_cases hlast : rest.drop n = []
      · rw [if_pos hlast, texts_append, List.append_assoc,
          ← hI.paid hroom hat hrest hlast hpc hc', hall]
      · rw [if_neg hlast, List.append_nil,
          pending_update hat hpc howner (owes_drop hrest (.inr hlast)), hall]
    · have hbegun : (msgs ++ if rest.drop n = [] then [back.msg] else []) ++
          (if rest.drop n = [] then none else some back.msg).toList = msgs ++ [back.msg] := by
        split <;> simp
      rw [hbegun, texts_append, ← hall]
      exact (List.prefix_append_right_inj _).mpr (hI.owed hroom hat hrest)
  refine ⟨hc' ▸ hI.members, hc' ▸ hI.nodup, fun q pc h => ?_, fun q pc h => ?_, fun p h => ?_,
    fun p b' closed hp h => ?_, fun p b' hp h => ?_, fun p b' closed hp h => ?_⟩
  · by_cases hq : q = self
    · rw [hq, hself] at h
      cases h
      have hold := hI.targets self _ hat
      cases back <;> exact hold
    · rw [hother q hq] at h
      exact hI.targets q pc h
  · by_cases hq : q = self
    · rw [hq, hself] at h
      cases h
      have hold := hI.said self _ hat
      cases back <;> exact hold
    · rw [hother q hq] at h
      exact hI.said q pc h
  · by_cases hq : p = self
    · rw [hq, hself] at h
      cases h
    · rw [hother p hq] at h
      exact hI.unheard p h
  · have hne : p ≠ self := by
      rintro rfl
      rw [hself] at hp
      cases hp
    rw [hother p hne] at hp
    have hpc : p ≠ client := fun h => hclient (h ▸ hp)
    rw [hstream, Function.update_of_ne hpc] at h
    exact hI.fresh p b' closed hp h
  · by_cases hpclient : p = client
    · subst hpclient
      rw [hstream, Function.update_self] at h
      cases h
      obtain ⟨msgs, next, hsends, hall, -⟩ := hreceived
      exact ⟨msgs, next, hsends, hall⟩
    · rw [hstream, Function.update_of_ne hpclient] at h
      obtain ⟨msgs, next, hsends, hall⟩ := hI.sends p b' (hjoin p hp) h
      refine ⟨msgs, next, hsends.congr (mid_elsewhere hpclient hat hpc), ?_⟩
      rw [pending_update hat hpc howner (owes_drop hrest (.inl (Ne.symm hpclient))), hall]
  · by_cases hpclient : p = client
    · subst hpclient
      rw [hstream, Function.update_self] at h
      cases h
      obtain ⟨msgs, next, hsends, -, hpre⟩ := hreceived
      exact ⟨msgs, next, hsends.frames, hpre⟩
    · rw [hstream, Function.update_of_ne hpclient] at h
      exact hI.begins p b' closed (hjoin p hp) h

end Accept

end Chat

end CoroutineHttp.Ws
