/-
  CoroutineHttp.Ws.Sessions

  Broadcasts against the sessions that read: whether a coroutine that waits on a
  descriptor can be lost.

  The sessions are looked at through the descriptor and the program point of each
  (`view`).  A coroutine is in `wait_event` on the descriptor it holds itself, or, as
  the owner of the room's lock, on that of a member (`Sound.waitsOn`).
  So a descriptor is shared exactly where a broadcast meets `EAGAIN` on the connection
  of a session that waits on it; without this `CoroutineHttp.Core.Waiting` applies.
-/

import CoroutineHttp.Core.Post
import CoroutineHttp.Core.Waiting
import CoroutineHttp.Ws.Steps

namespace CoroutineHttp.Ws

open CoroutineHttp.Library CoroutineHttp.Core CoroutineHttp.Net

/-! ## Program points -/

namespace SessionPc

/-- Between `join` and `leave`. -/
def inRoom : SessionPc → Bool
  | .http | .join | .gone => false
  | .log phase | .online phase | .users phase _ | .broadcast phase _ | .each phase _ _ =>
      phase != .left
  | .loop | .recv _ | .leave => true
  | .write _ _ (.each phase _ _) => phase != .left
  | .write _ _ .loop => true

/-- In the loop of `broadcast`. -/
def locks : SessionPc → Bool
  | .each _ _ _ | .write _ _ (.each _ _ _) => true
  | _ => false

/-- The connections still to be written to. -/
def targets : SessionPc → List CoroPtr
  | .each _ _ todo => todo
  | .write client _ (.each _ _ todo) => client :: todo
  | .write client _ .loop => [client]
  | _ => []

/-- `p` goes on without the room. -/
structure Free (p : CoroPtr) (pc pc' : SessionPc) : Prop where
  inRoom : pc'.inRoom = pc.inRoom
  locks : pc'.locks = pc.locks
  targets : ∀ t ∈ pc'.targets, t = p ∨ t ∈ pc.targets
  was : pc ≠ .gone
  live : pc' ≠ .gone

end SessionPc

theorem Phase.next_spec (phase : Phase) :
    phase.next.inRoom = (phase != .left) ∧ phase.next.locks = false ∧
      phase.next.targets = [] ∧ phase.next ≠ .gone := by
  cases phase <;> exact ⟨rfl, rfl, rfl, by simp [Phase.next]⟩

theorem afterFrame_free (self : CoroPtr) (nick : Bytes) (frame : Option WsFrame)
    (prog : Reading (Option WsFrame)) :
    SessionPc.Free self (.recv prog) (afterFrame self nick frame) := by
  cases frame with
  | none => exact ⟨rfl, rfl, by simp [afterFrame, SessionPc.targets], by simp, by simp [afterFrame]⟩
  | some f =>
      unfold afterFrame
      dsimp only
      split
      · exact ⟨rfl, rfl, by simp [SessionPc.targets], by simp, by simp⟩
      · split
        · exact ⟨rfl, rfl, by simp [SessionPc.targets], by simp, by simp⟩
        · split
          · exact ⟨rfl, rfl, by simp [SessionPc.targets], by simp, by simp⟩
          · exact ⟨rfl, rfl, by simp [SessionPc.targets], by simp, by simp⟩

/-- `recv_frame` goes on. -/
theorem SessionPc.Free.recv (self : CoroPtr) (prog prog' : Reading (Option WsFrame)) :
    SessionPc.Free self (.recv prog) (.recv prog') :=
  ⟨rfl, rfl, by simp [SessionPc.targets], by simp, by simp⟩

/-- A `write` returns to its caller. -/
theorem Back.free (self client : CoroPtr) (rest : Bytes) (back : Back) :
    SessionPc.Free self (.write client rest back) back.pc := by
  cases back with
  | each phase msg todo =>
      exact ⟨rfl, rfl, fun t ht => .inr (List.mem_cons_of_mem _ ht), by simp, by simp [pc]⟩
  | loop => exact ⟨rfl, rfl, by simp [pc, SessionPc.targets], by simp, by simp [pc]⟩

namespace Chat

/-! ## The view -/

/-- The descriptor and the program point of a session. -/
def view (c : Chat) (p : CoroPtr) : Option (Fd × SessionPc) :=
  (c.sessions p).map fun s => (s.conn.fd, s.pc)

theorem view_of_sessions {c : Chat} {p : CoroPtr} {s : Session} (h : c.sessions p = some s) :
    c.view p = some (s.conn.fd, s.pc) := by
  simp [view, h]

/-- A change of `p` moves `p` in the view. -/
theorem view_modify {c : Chat} {p : CoroPtr} {f : Session → Session} {fd : Fd}
    {pc : SessionPc} {s : Session} (hs : c.sessions p = some s) (hfd : (f s).conn.fd = fd)
    (hpc : (f s).pc = pc) : (c.modify p f).view = Function.update c.view p (some (fd, pc)) := by
  funext q
  by_cases hq : q = p
  · subst hq
    simp [view, modify, hs, hfd, hpc]
  · simp [view, modify, hq]

/-- A change that concerns neither descriptor nor program point is not seen. -/
theorem view_modify_same {c : Chat} (p : CoroPtr) {f : Session → Session}
    (hf : ∀ s, (f s).conn.fd = s.conn.fd ∧ (f s).pc = s.pc) : (c.modify p f).view = c.view := by
  funext q
  by_cases hq : q = p
  · subst hq
    cases hs : c.sessions q with
    | none => simp [view, modify, hs]
    | some s => simp [view, modify, hs, (hf s).1, (hf s).2]
  · simp [view, modify, hq]

theorem view_goto {c : Chat} {p : CoroPtr} {fd : Fd} {pc pc' : SessionPc}
    (h : c.view p = some (fd, pc)) :
    (c.goto p pc').view = Function.update c.view p (some (fd, pc')) := by
  obtain ⟨s, hs, hsame⟩ := Option.map_eq_some_iff.mp h
  obtain ⟨rfl, rfl⟩ := Prod.mk.inj hsame
  exact view_modify hs rfl rfl

/-! ## Steps -/

/-- What a step of the running coroutine `self` does outside the scheduler, and the
    action of the scheduler it ends in. -/
inductive CoroutineStepped (c : Chat) (self : CoroPtr) :
    Chat → Option (Act Task Unit) → Prop where
  | start (fd : Fd) (hnone : c.sessions self = none)
      (htask : (c.machine.sched.coros self).func = .connection fd) :
      CoroutineStepped c self (c.started self fd) none
  | acceptWait (fd : Fd) (hnone : c.view self = none)
      (htask : (c.machine.sched.coros self).func = .acceptLoop fd) :
      CoroutineStepped c self c (some (.waitEvent fd EPOLLIN))
  | accept (fd : Fd) (hfresh : c.isOpen fd = false) :
      CoroutineStepped c self (c.opened fd) (some (.create (.connection fd)))
  | ownWait (fd : Fd) (pc : SessionPc) (events : UInt32) (hself : c.view self = some (fd, pc))
      (hlive : pc ≠ .gone) : CoroutineStepped c self c (some (.waitEvent fd events))
  | clientWait (client : CoroPtr) (own fd : Fd) (pc pc' : SessionPc)
      (hself : c.view self = some (own, pc)) (hclient : c.view client = some (fd, pc'))
      (htarget : client ∈ pc.targets) : CoroutineStepped c self c (some (.waitEvent fd EPOLLOUT))
  | move (c' : Chat) (fd : Fd) (pc pc' : SessionPc) (hself : c.view self = some (fd, pc))
      (hfree : pc.Free self pc') (hview : c'.view = Function.update c.view self (some (fd, pc')))
      (hroom : c'.room = c.room) (hm : c'.machine = c.machine) (hopen : c'.isOpen = c.isOpen) :
      CoroutineStepped c self c' none
  | join (fd : Fd) (nick : Bytes) (hself : c.view self = some (fd, .join))
      (hfree : c.room.owner = none) :
      CoroutineStepped c self ((c.setRoom (c.room.join self nick)).goto self (.log .joined)) none
  | leave (fd : Fd) (hself : c.view self = some (fd, .leave)) (hfree : c.room.owner = none) :
      CoroutineStepped c self ((c.setRoom (c.room.leave self)).goto self (.log .left)) none
  | lock (fd : Fd) (phase : Phase) (msg : Bytes)
      (hself : c.view self = some (fd, .broadcast phase msg)) (hfree : c.room.owner = none) :
      CoroutineStepped c self
        ((c.setRoom { c.room with owner := some self }).goto self
          (.each phase msg c.room.members)) none
  | unlock (fd : Fd) (phase : Phase) (msg : Bytes)
      (hself : c.view self = some (fd, .each phase msg [])) :
      CoroutineStepped c self ((c.setRoom { c.room with owner := none }).goto self phase.next) none
  | destroy (c' : Chat) (fd fd' : Fd) (b : Option (Act Task Unit))
      (hself : c.view self = some (fd, .http))
      (hview : c'.view = Function.update c.view self (some (fd', .gone)))
      (hroom : c'.room = c.room) (hm : c'.machine = c.machine)
      (hclose : (b = some (.closeFd fd) ∧ c'.isOpen = Function.update c.isOpen fd false) ∨
        (b = none ∧ c'.isOpen = c.isOpen)) : CoroutineStepped c self c' b
  | finish : CoroutineStepped c self c (some .finish)

section Inversion

variable {c c' : Chat} {self : CoroPtr} {s : Session} {b : Option (Act Task Unit)}

/-- A step of `self` that moves it to `pc'`, with nothing else to be seen. -/
theorem CoroutineStepped.goto {fd : Fd} {pc pc' : SessionPc}
    (hself : c.view self = some (fd, pc)) (hfree : pc.Free self pc') :
    CoroutineStepped c self (c.goto self pc') none :=
  .move _ fd pc pc' hself hfree (view_goto hself) rfl rfl rfl

/-- `read_exact` coming to the end of the stream moves within `recv_frame`. -/
theorem recvShort_stepped {c₁ : Chat} {fd : Fd} {pc : SessionPc}
    (hself : c.view self = some (fd, pc)) (hview : c₁.view = c.view) (hroom : c₁.room = c.room)
    (hm : c₁.machine = c.machine) (hopen : c₁.isOpen = c.isOpen)
    (next : Bytes → Reading (Option WsFrame))
    (hfree : pc.Free self (.recv (next s.conn.readBuf))) :
    CoroutineStepped c self (c₁.recvShort self s next) none := by
  rw [← hview] at hself
  obtain ⟨s₁, hs₁, hsame⟩ := Option.map_eq_some_iff.mp hself
  obtain ⟨rfl, rfl⟩ := Prod.mk.inj hsame
  refine .move _ _ _ _ (hview ▸ hself) hfree ?_ hroom hm hopen
  rw [← hview]
  exact view_modify hs₁ rfl rfl

/-- The steps of a session, as the view shows them. -/
theorem SessionStep.stepped {a : ChatAct} (hs : c.sessions self = some s)
    (h : SessionStep c self s a c' b) : CoroutineStepped c self c' b := by
  have hself := view_of_sessions hs
  cases h with
  | join hpc hfree =>
      rw [hpc] at hself
      exact .join _ _ hself hfree
  | log phase hpc hfree | online phase hpc hfree | users phase online hpc hfree =>
      rw [hpc] at hself
      exact .goto hself ⟨rfl, rfl, by simp [SessionPc.targets], by simp, by simp⟩
  | lock phase msg hpc hfree =>
      rw [hpc] at hself
      exact .lock _ phase msg hself hfree
  | leave hpc hfree =>
      rw [hpc] at hself
      exact .leave _ hself hfree
  | unlock phase msg hpc =>
      rw [hpc] at hself
      exact .unlock _ phase msg hself
  | skip phase msg p todo t hpc ht hclosed =>
      rw [hpc] at hself
      exact .goto hself ⟨rfl, rfl, fun q hq => .inr (List.mem_cons_of_mem _ hq), by simp, by simp⟩
  | write phase msg p todo t hpc ht hopen =>
      rw [hpc] at hself
      exact .goto hself ⟨rfl, rfl, fun q hq => .inr hq, by simp, by simp⟩
  | loop hpc =>
      rw [hpc] at hself
      split
      · exact .goto hself ⟨rfl, rfl, by simp [SessionPc.targets], by simp, by simp⟩
      · exact .goto hself ⟨rfl, rfl, by simp [SessionPc.targets], by simp, by simp⟩
  | frame frame hpc =>
      rw [hpc] at hself
      exact .goto hself (afterFrame_free self s.nick frame _)
  | buffered n next hpc hle =>
      rw [hpc] at hself
      exact .move _ _ _ _ hself (.recv self _ _) (view_modify hs rfl rfl) rfl rfl rfl
  | short n next hpc hlt hclosed =>
      rw [hpc] at hself
      exact recvShort_stepped hself rfl rfl rfl rfl next (.recv self _ _)
  | written client rest back t hpc ht hdone =>
      rw [hpc] at hself
      exact .goto hself (back.free self client rest)
  | data n next first rest hpc hlt hopen hlen =>
      rw [hpc] at hself
      exact .move _ _ _ _ hself (.recv self _ _) (view_modify hs rfl hpc) rfl rfl rfl
  | recvWait n next hpc hlt hopen =>
      rw [hpc] at hself
      exact .ownWait _ _ _ hself (by simp)
  | recvEnd n next hpc hlt hopen =>
      rw [hpc] at hself
      have hview : (c.ended self).view = c.view := view_modify_same self fun _ => ⟨rfl, rfl⟩
      exact recvShort_stepped hself hview rfl rfl rfl next (.recv self _ _)
  | accepted client rest back t extra hpc ht hopen hrest =>
      rw [hpc] at hself
      let n := min (extra + 1) rest.length
      have hview : (c.took client (rest.take n)).view = c.view :=
        view_modify_same client fun _ => ⟨rfl, rfl⟩
      refine .move _ _ _ (.write client (rest.drop n) back) hself ?_ ?_ rfl rfl rfl
      · cases back <;> exact ⟨rfl, rfl, fun t ht => .inr ht, by simp, by simp⟩
      · rw [← hview] at hself ⊢
        exact view_goto hself
  | sendWait client rest back t hpc ht hopen hrest =>
      rw [hpc] at hself
      refine .clientWait client _ _ _ _ hself (view_of_sessions ht) ?_
      cases back <;> simp [SessionPc.targets]
  | sendFail client rest back t hpc ht hopen hrest =>
      rw [hpc] at hself
      have hview : (c.ended client).view = c.view :=
        view_modify_same client fun _ => ⟨rfl, rfl⟩
      refine .move _ _ _ back.pc hself (back.free self client rest) ?_ rfl rfl rfl
      rw [← hview] at hself ⊢
      exact view_goto hself
  | http buf ended hpc =>
      rw [hpc] at hself
      exact .move _ _ _ .http hself ⟨rfl, rfl, by simp [SessionPc.targets], by simp, by simp⟩
        (view_modify hs rfl hpc) rfl rfl rfl
  | httpWait reading hpc hopen =>
      rw [hpc] at hself
      exact .ownWait _ _ _ hself (by simp)
  | upgrade nick hpc =>
      rw [hpc] at hself
      exact .move _ _ _ .join hself ⟨rfl, rfl, by simp [SessionPc.targets], by simp, by simp⟩
        (view_modify hs rfl rfl) rfl rfl rfl
  | destroy fd hpc hfd =>
      rw [hpc] at hself
      have hown : fd = s.conn.fd := by
        unfold Connection.close at hfd
        split at hfd
        · exact (Option.some.inj hfd).symm
        · cases hfd
      subst hown
      exact .destroy _ _ _ _ hself (view_modify hs rfl rfl) rfl rfl (.inl ⟨rfl, rfl⟩)
  | destroyClosed hpc hfd =>
      rw [hpc] at hself
      exact .destroy _ _ _ _ hself (view_modify hs rfl rfl) rfl rfl (.inr ⟨rfl, rfl⟩)
  | finish hpc => exact .finish

theorem coroutineAct_cases {a : ChatAct} (h : c.coroutineAct self a = some (c', b)) :
    CoroutineStepped c self c' b := by
  cases coroutineStep_of_act h with
  | start fd hnone htask => exact .start fd hnone htask
  | acceptWait fd hnone htask => exact .acceptWait fd (by simp [view, hnone]) htask
  | accept listenFd fd hnone htask hctx hfd hfresh => exact .accept fd hfresh
  | session s hs h => exact h.stepped hs

end Inversion

/-! ## The room -/

/-- What a step that brings `p` to `pc'` owes the room: nobody else enters it, and
    while another coroutine has the lock nobody leaves it. -/
structure RoomStep (p : CoroPtr) (room : ChatRoom) (pc' : SessionPc) (room' : ChatRoom) :
    Prop where
  members : ∀ q, q ≠ p → q ∈ room'.members → q ∈ room.members
  inRoom : p ∈ room'.members → pc'.inRoom = true
  locks : pc'.locks = true → room'.owner = some p
  targets : ∀ t ∈ pc'.targets, t = p ∨ (room'.owner = some p ∧ t ∈ room'.members)
  others : ∀ q, q ≠ p → room.owner = some q →
    room'.owner = some q ∧ ∀ t ∈ room.members, t ∈ room'.members

/-- Members are in the room, and who writes to them has the lock. -/
structure RoomOk (view : CoroPtr → Option (Fd × SessionPc)) (room : ChatRoom) : Prop where
  member : ∀ p ∈ room.members, ∃ fd pc, view p = some (fd, pc) ∧ pc.inRoom = true
  lock : ∀ p fd pc, view p = some (fd, pc) → pc.locks = true → room.owner = some p
  targets : ∀ p fd pc, view p = some (fd, pc) → ∀ t ∈ pc.targets,
    t = p ∨ (room.owner = some p ∧ t ∈ room.members)

section Room

variable {view : CoroPtr → Option (Fd × SessionPc)} {room room' : ChatRoom}
  {self : CoroPtr} {fd : Fd} {pc pc' : SessionPc}

/-- **Room rule.** -/
theorem RoomOk.step (hI : RoomOk view room) (hs : RoomStep self room pc' room') :
    RoomOk (Function.update view self (some (fd, pc'))) room' := by
  refine ⟨fun p hp => ?_, fun p fd₁ pc₁ hview hlocks => ?_, fun p fd₁ pc₁ hview t ht => ?_⟩
  · by_cases hself : p = self
    · subst hself
      exact ⟨fd, pc', Function.update_self .., hs.inRoom hp⟩
    · rw [Function.update_of_ne hself]
      exact hI.member p (hs.members p hself hp)
  · by_cases hself : p = self
    · subst hself
      rw [Function.update_self] at hview
      cases hview
      exact hs.locks hlocks
    · rw [Function.update_of_ne hself] at hview
      exact (hs.others p hself (hI.lock p fd₁ pc₁ hview hlocks)).1
  · by_cases hself : p = self
    · subst hself
      rw [Function.update_self] at hview
      cases hview
      exact hs.targets t ht
    · rw [Function.update_of_ne hself] at hview
      refine (hI.targets p fd₁ pc₁ hview t ht).imp_right fun ⟨howner, hmem⟩ => ?_
      obtain ⟨howner', hkept⟩ := hs.others p hself howner
      exact ⟨howner', hkept t hmem⟩

/-- Of a member, the room knows that it is in it. -/
theorem RoomOk.inRoom (hI : RoomOk view room) (hself : view self = some (fd, pc))
    (hmem : self ∈ room.members) : pc.inRoom = true := by
  obtain ⟨fd₁, pc₁, hview, hin⟩ := hI.member self hmem
  rw [hself] at hview
  cases hview
  exact hin

theorem RoomOk.free_step (hI : RoomOk view room) (hself : view self = some (fd, pc))
    (hfree : pc.Free self pc') : RoomStep self room pc' room where
  members _ _ hp := hp
  inRoom hmem := hfree.inRoom.trans (hI.inRoom hself hmem)
  locks hlocks := hI.lock self fd pc hself (hfree.locks ▸ hlocks)
  targets t ht := by
    rcases hfree.targets t ht with heq | hold
    · exact .inl heq
    · exact hI.targets self fd pc hself t hold
  others _ _ howner := ⟨howner, fun _ ht => ht⟩

theorem members_join (room : ChatRoom) (nick : Bytes) :
    (room.join self nick).members = room.members ++ [self] := by
  simp [ChatRoom.members, ChatRoom.join]

theorem mem_members_leave {p : CoroPtr} :
    p ∈ (room.leave self).members ↔ p ∈ room.members ∧ p ≠ self := by
  simp only [ChatRoom.members, ChatRoom.leave, List.mem_map, List.mem_filter, bne_iff_ne]
  constructor
  · rintro ⟨c, ⟨hc, hne⟩, rfl⟩
    exact ⟨⟨c, hc, rfl⟩, hne⟩
  · rintro ⟨⟨c, hc, rfl⟩, hne⟩
    exact ⟨c, ⟨hc, hne⟩, rfl⟩

theorem join_step (hlock : room.owner = none) (nick : Bytes) :
    RoomStep self room (.log .joined) (room.join self nick) where
  members p hne hp := by
    rw [members_join] at hp
    exact (List.mem_append.mp hp).resolve_right fun h => hne (List.mem_singleton.mp h)
  inRoom _ := rfl
  locks h := by cases h
  targets t ht := by cases ht
  others p _ howner := by
    rw [hlock] at howner
    cases howner

theorem leave_step (hlock : room.owner = none) :
    RoomStep self room (.log .left) (room.leave self) where
  members p _ hp := (mem_members_leave.mp hp).1
  inRoom hmem := absurd rfl (mem_members_leave.mp hmem).2
  locks h := by cases h
  targets t ht := by cases ht
  others p _ howner := by
    rw [hlock] at howner
    cases howner

theorem RoomOk.lock_step (hI : RoomOk view room) {phase : Phase} {msg : Bytes}
    (hself : view self = some (fd, .broadcast phase msg)) (hlock : room.owner = none) :
    RoomStep self room (.each phase msg room.members) { room with owner := some self } where
  members _ _ hp := hp
  inRoom hmem := (hI.inRoom hself hmem : SessionPc.inRoom (.broadcast phase msg) = true)
  locks _ := rfl
  targets t ht := .inr ⟨rfl, ht⟩
  others p _ howner := by
    rw [hlock] at howner
    cases howner

theorem RoomOk.unlock_step (hI : RoomOk view room) {phase : Phase} {msg : Bytes}
    (hself : view self = some (fd, .each phase msg [])) :
    RoomStep self room phase.next { room with owner := none } where
  members _ _ hp := hp
  inRoom hmem := phase.next_spec.1.trans (hI.inRoom hself hmem)
  locks h := by
    rw [phase.next_spec.2.1] at h
    cases h
  targets t ht := by
    rw [phase.next_spec.2.2.1] at ht
    cases ht
  others p hne howner := by
    have hmine := hI.lock self fd _ hself rfl
    rw [howner] at hmine
    exact absurd (Option.some.inj hmine) hne

/-- A coroutine outside the handler is no member. -/
theorem RoomOk.outside_step (hI : RoomOk view room)
    (hself : ∀ fd pc, view self = some (fd, pc) → pc.inRoom = false)
    (hlocks : pc'.locks = false) (htargets : pc'.targets = []) : RoomStep self room pc' room where
  members _ _ hp := hp
  inRoom hmem := by
    obtain ⟨fd₁, pc₁, hview, hin⟩ := hI.member self hmem
    rw [hself fd₁ pc₁ hview] at hin
    cases hin
  locks h := by
    rw [hlocks] at h
    cases h
  targets t ht := by
    rw [htargets] at ht
    cases ht
  others _ _ howner := ⟨howner, fun _ ht => ht⟩

end Room

/-! ## Descriptors -/

/-- `p` has been given `fd` and has not destroyed its `Connection`. -/
def Holds (c : Chat) (p : CoroPtr) (fd : Fd) : Prop :=
  p < c.machine.sched.allocs ∧ (c.machine.sched.coros p).func.fd = fd ∧
    ∀ fd', c.view p ≠ some (fd', .gone)

/-- The kernel has the descriptor open, and it is not the scheduler's pipe. -/
def Given (c : Chat) (fd : Fd) : Prop :=
  c.isOpen fd = true ∧ fd ≠ c.machine.sched.pipeReadFd

/-- An open descriptor has one holder, a coroutine or a task still queued. -/
structure Descriptors (c : Chat) : Prop where
  pipe : c.isOpen c.machine.sched.pipeReadFd = true
  given : ∀ p fd, c.Holds p fd → c.Given fd
  unique : ∀ p q fd, c.Holds p fd → c.Holds q fd → p = q
  queued : ∀ f ∈ c.machine.queued, c.Given f.fd ∧ ∀ p, ¬ c.Holds p f.fd
  nodup : (c.machine.queued.map Task.fd).Nodup
  session : ∀ p fd pc, c.view p = some (fd, pc) →
    p < c.machine.sched.allocs ∧ (pc ≠ .gone → (c.machine.sched.coros p).func.fd = fd)

/-- The step brings `p` to `pc'`, and changes nothing else that is seen. -/
structure Moves (c : Chat) (p : CoroPtr) (fd' : Fd) (pc' : SessionPc) (c' : Chat) : Prop where
  view : c'.view = Function.update c.view p (some (fd', pc'))
  room : RoomStep p c.room pc' c'.room
  machine : c'.machine = c.machine
  same : pc' ≠ .gone → c'.isOpen = c.isOpen ∧
    ((∃ pc, c.view p = some (fd', pc) ∧ pc ≠ .gone) ∨
      (c.view p = none ∧ (c.machine.sched.coros p).func.fd = fd'))
  gone : pc' = .gone → ∃ fd, c.view p = some (fd, .http) ∧
    (c'.isOpen = c.isOpen ∨ c'.isOpen = Function.update c.isOpen fd false)

section Descriptors

variable {c c' : Chat} {self p : CoroPtr} {fd fd' : Fd} {pc' : SessionPc}

theorem Descriptors.holds_session {pc : SessionPc} (hI : Descriptors c)
    (hview : c.view p = some (fd, pc)) (hlive : pc ≠ .gone) : c.Holds p fd := by
  obtain ⟨hlt, hfd⟩ := hI.session p fd pc hview
  refine ⟨hlt, hfd hlive, fun fd' h => ?_⟩
  rw [hview] at h
  cases h
  exact hlive rfl

theorem Moves.view_other (hm : c.Moves self fd' pc' c') (hp : p ≠ self) :
    c'.view p = c.view p := by
  rw [hm.view, Function.update_of_ne hp]

theorem Moves.view_self (hm : c.Moves self fd' pc' c') : c'.view self = some (fd', pc') := by
  rw [hm.view, Function.update_self]

/-- Nobody comes to hold anything by a move. -/
theorem Moves.holds_back (hm : c.Moves self fd' pc' c') (hp : c'.Holds p fd) : c.Holds p fd := by
  obtain ⟨hlt, hfd, hlive⟩ := hp
  rw [hm.machine] at hlt hfd
  refine ⟨hlt, hfd, fun fd₁ hview => ?_⟩
  by_cases hself : p = self
  · subst hself
    have hpc : pc' ≠ .gone := fun h => hlive fd' (h ▸ hm.view_self)
    rcases (hm.same hpc).2 with ⟨pc, hview', hne⟩ | ⟨hnone, -⟩
    · rw [hview] at hview'
      cases hview'
      exact hne rfl
    · rw [hview] at hnone
      cases hnone
  · exact hlive fd₁ ((hm.view_other hself).trans hview)

/-- Only the destruction of the `Connection` gives a descriptor up. -/
theorem Moves.holds (hm : c.Moves self fd' pc' c') (hp : c.Holds p fd)
    (hkeep : p ≠ self ∨ pc' ≠ .gone) : c'.Holds p fd := by
  obtain ⟨hlt, hfd, hlive⟩ := hp
  refine ⟨hm.machine ▸ hlt, hm.machine ▸ hfd, fun fd₁ hview => ?_⟩
  by_cases hself : p = self
  · subst hself
    rw [hm.view_self] at hview
    cases hview
    exact hkeep.elim (fun h => h rfl) fun h => h rfl
  · exact hlive fd₁ ((hm.view_other hself).symm.trans hview)

/-- What is given to somebody else than `self` stays open. -/
theorem Moves.given (hm : c.Moves self fd' pc' c') (hI : Descriptors c) (hfd : c.Given fd)
    (hother : pc' = .gone → ¬ c.Holds self fd) : c'.Given fd := by
  refine ⟨?_, hm.machine ▸ hfd.2⟩
  by_cases hpc : pc' = .gone
  · obtain ⟨own, hview, hopen | hopen⟩ := hm.gone hpc
    · exact hopen ▸ hfd.1
    · have hne : fd ≠ own := by
        rintro rfl
        exact hother hpc (hI.holds_session hview (by simp))
      rw [hopen, Function.update_of_ne hne]
      exact hfd.1
  · exact (hm.same hpc).1 ▸ hfd.1

theorem Descriptors.move (hI : Descriptors c) (hm : c.Moves self fd' pc' c')
    (hlt : self < c.machine.sched.allocs) : Descriptors c' := by
  have hqueued : ∀ f ∈ c'.machine.queued, f ∈ c.machine.queued := fun f hf => hm.machine ▸ hf
  refine ⟨?_, fun p fd hp => ?_, fun p q fd hp hq => ?_, fun f hf => ?_, ?_, ?_⟩
  · by_cases hpc : pc' = .gone
    · obtain ⟨own, hview, hopen | hopen⟩ := hm.gone hpc
      · rw [hopen, hm.machine]
        exact hI.pipe
      · have hne : c.machine.sched.pipeReadFd ≠ own :=
          (hI.given self own (hI.holds_session hview (by simp))).2.symm
        rw [hopen, hm.machine, Function.update_of_ne hne]
        exact hI.pipe
    · rw [(hm.same hpc).1, hm.machine]
      exact hI.pipe
  -- only the mover can have given a descriptor up, and then it holds it no more
  · refine hm.given hI (hI.given p fd (hm.holds_back hp)) fun hpc hself => ?_
    have heq := hI.unique p self fd (hm.holds_back hp) hself
    subst heq
    exact hp.2.2 fd' (hpc ▸ hm.view_self)
  · exact hI.unique p q fd (hm.holds_back hp) (hm.holds_back hq)
  · obtain ⟨hgiven, hnone⟩ := hI.queued f (hqueued f hf)
    exact ⟨hm.given hI hgiven fun _ => hnone self, fun p hp => hnone p (hm.holds_back hp)⟩
  · rw [hm.machine]
    exact hI.nodup
  · intro p fd pc hview
    rw [hm.machine]
    by_cases hself : p = self
    · subst hself
      rw [hm.view_self] at hview
      cases hview
      refine ⟨hlt, fun hpc => ?_⟩
      rcases (hm.same hpc).2 with ⟨pc₁, hold, hne⟩ | ⟨-, hfd⟩
      · exact (hI.session p _ pc₁ hold).2 hne
      · exact hfd
    · exact hI.session p fd pc ((hm.view_other hself).symm.trans hview)

/-- A new descriptor is given to nobody yet. -/
theorem Descriptors.opened (hI : Descriptors c) (hfresh : c.isOpen fd = false) :
    Descriptors (c.opened fd) ∧ (c.opened fd).Given fd ∧ (∀ p, ¬ (c.opened fd).Holds p fd) ∧
      fd ∉ (c.opened fd).machine.queued.map Task.fd := by
  have hopen : ∀ {fd₁}, c.isOpen fd₁ = true → (c.opened fd).isOpen fd₁ = true := by
    intro fd₁ h
    by_cases hfd : fd₁ = fd
    · subst hfd
      exact Function.update_self ..
    · exact (Function.update_of_ne hfd _ _).trans h
  have hnot : ∀ {fd₁}, c.isOpen fd₁ = true → fd₁ ≠ fd := by
    rintro fd₁ h rfl
    rw [hfresh] at h
    cases h
  refine ⟨⟨hopen hI.pipe, fun p fd₁ hp => ?_, hI.unique, fun f hf => ?_, hI.nodup, hI.session⟩,
    ⟨Function.update_self .., (hnot hI.pipe).symm⟩, fun p hp => ?_, fun hmem => ?_⟩
  · exact ⟨hopen (hI.given p fd₁ hp).1, (hI.given p fd₁ hp).2⟩
  · obtain ⟨hgiven, hnone⟩ := hI.queued f hf
    exact ⟨⟨hopen hgiven.1, hgiven.2⟩, hnone⟩
  · exact hnot (hI.given p fd hp).1 rfl
  · obtain ⟨f, hf, heq⟩ := List.mem_map.mp hmem
    exact hnot (hI.queued f hf).1.1 heq

variable {a : Act Task Unit} {m' : Machine Task Unit}

/-- Existing coroutines hold what they held. -/
theorem holds_withMachine (hs : Machine.PostStepped c.machine a m')
    (hlt : p < c.machine.sched.allocs) (hlt' : p < m'.sched.allocs) :
    (c.withMachine m').Holds p fd ↔ c.Holds p fd := by
  unfold Holds
  rw [show (c.withMachine m').machine = m' from rfl, hs.func_eq.2 p hlt]
  exact ⟨fun h => ⟨hlt, h.2⟩, fun h => ⟨hlt', h.2⟩⟩

/-- The descriptors stay in order under a new state of the scheduler, provided a
    coroutine it has made, and every task queued, has one of its own. -/
theorem Descriptors.renew (hI : Descriptors c) (hs : Machine.PostStepped c.machine a m')
    (hle : c.machine.sched.allocs ≤ m'.sched.allocs) (made : Option Task)
    (hmade : ∀ p fd, (c.withMachine m').Holds p fd →
      c.Holds p fd ∨ ∃ f, made = some f ∧ p = c.machine.sched.allocs ∧ fd = f.fd)
    (hfree : ∀ f, made = some f → c.Given f.fd ∧ ∀ p, ¬ c.Holds p f.fd)
    (hqueued : ∀ g ∈ m'.queued, c.Given g.fd ∧ (∀ p, ¬ c.Holds p g.fd) ∧
      ∀ f, made = some f → g.fd ≠ f.fd)
    (hnodup : (m'.queued.map Task.fd).Nodup) : Descriptors (c.withMachine m') := by
  obtain ⟨hpipe, hfunc⟩ := hs.func_eq
  have hgiven : ∀ {fd}, c.Given fd → (c.withMachine m').Given fd := fun h => ⟨h.1, hpipe ▸ h.2⟩
  refine ⟨?_, fun p fd hp => ?_, fun p q fd hp hq => ?_, fun g hg => ?_, hnodup, ?_⟩
  · rw [show (c.withMachine m').machine = m' from rfl, hpipe]
    exact hI.pipe
  · rcases hmade p fd hp with hp | ⟨f, hf, -, rfl⟩
    · exact hgiven (hI.given p fd hp)
    · exact hgiven (hfree f hf).1
  -- of two holders at most one is new, and what a new one holds nobody held
  · rcases hmade p fd hp with hp | ⟨f, hf, rfl, rfl⟩
    · rcases hmade q fd hq with hq | ⟨f, hf, -, rfl⟩
      · exact hI.unique p q fd hp hq
      · exact absurd hp ((hfree f hf).2 p)
    · rcases hmade q f.fd hq with hq | ⟨-, -, rfl, -⟩
      · exact absurd hq ((hfree f hf).2 q)
      · rfl
  · obtain ⟨hfd, hnone, hne⟩ := hqueued g hg
    refine ⟨hgiven hfd, fun p hp => ?_⟩
    rcases hmade p g.fd hp with hp | ⟨f, hf, -, heq⟩
    · exact hnone p hp
    · exact hne f hf heq
  · intro p fd pc hview
    obtain ⟨hlt, hfd⟩ := hI.session p fd pc hview
    exact ⟨hlt.trans_le hle, fun hpc => (congrArg Task.fd (hfunc p hlt)).trans (hfd hpc)⟩

/-- Without a new coroutine nobody comes to hold anything. -/
theorem holds_kept (hs : Machine.PostStepped c.machine a m')
    (hallocs : m'.sched.allocs = c.machine.sched.allocs) (hp : (c.withMachine m').Holds p fd) :
    c.Holds p fd := by
  have hlt : p < m'.sched.allocs := hp.1
  exact (holds_withMachine hs (hallocs ▸ hlt) hlt).mp hp

/-- A new coroutine that runs `f` holds the descriptor of `f`. -/
theorem holds_made (hs : Machine.PostStepped c.machine a m') {f : Task}
    (hallocs : m'.sched.allocs = c.machine.sched.allocs + 1)
    (hf : (m'.sched.coros c.machine.sched.allocs).func = f)
    (hp : (c.withMachine m').Holds p fd) :
    c.Holds p fd ∨ (p = c.machine.sched.allocs ∧ fd = f.fd) := by
  have hlt : p < m'.sched.allocs := hp.1
  -- there is one new coroutine, the youngest
  by_cases hp' : p < c.machine.sched.allocs
  · exact .inl ((holds_withMachine hs hp' hlt).mp hp)
  · have heq : p = c.machine.sched.allocs := by
      rw [hallocs] at hlt
      exact Nat.le_antisymm (Nat.le_of_lt_succ hlt) (Nat.not_lt.mp hp')
    subst heq
    exact .inr ⟨rfl, hp.2.1.symm.trans (congrArg Task.fd hf)⟩

/-- A step of the scheduler keeps the descriptors in order, provided a task it brings
    in has one of its own. -/
theorem Descriptors.machine (hI : Descriptors c) (hs : Machine.PostStepped c.machine a m')
    (hnew : ∀ f, Machine.newTask a = some f →
      c.Given f.fd ∧ (∀ p, ¬ c.Holds p f.fd) ∧ f.fd ∉ c.machine.queued.map Task.fd) :
    Descriptors (c.withMachine m') := by
  have hkept : ∀ g ∈ c.machine.queued, c.Given g.fd ∧ (∀ p, ¬ c.Holds p g.fd) ∧
      ∀ f, (none : Option Task) = some f → g.fd ≠ f.fd :=
    fun g hg => ⟨(hI.queued g hg).1, (hI.queued g hg).2, fun f h => by cases h⟩
  -- the four ways of a task: none moves, one is queued, made at once, or taken off
  cases hs.taskFlow with
  | still hallocs hqueued =>
      refine hI.renew hs hallocs.ge none (fun p fd hp => .inl (holds_kept hs hallocs hp))
        (fun f h => by cases h) ?_ ?_
      · rw [hqueued]
        exact hkept
      · rw [hqueued]
        exact hI.nodup
  | enqueue f ha hallocs hqueued =>
      obtain ⟨hfd, hnone, hmem⟩ := hnew f ha
      refine hI.renew hs hallocs.ge none (fun p fd hp => .inl (holds_kept hs hallocs hp))
        (fun f h => by cases h) (fun g hg => ?_) ?_
      · rw [hqueued] at hg
        rcases List.mem_append.mp hg with hg | hg
        · exact hkept g hg
        · rw [List.mem_singleton.mp hg]
          exact ⟨hfd, hnone, fun f h => by cases h⟩
      · rw [hqueued, List.map_append]
        simpa using hI.nodup.concat hmem
  | spawn f ha hallocs hf hqueued =>
      obtain ⟨hfd, hnone, hmem⟩ := hnew f ha
      refine hI.renew hs (by omega) (some f) (fun p fd hp => ?_) ?_ (fun g hg => ?_) ?_
      · exact (holds_made hs hallocs hf hp).imp_right fun h => ⟨f, rfl, h⟩
      · rintro _ ⟨⟩
        exact ⟨hfd, hnone⟩
      · rw [hqueued] at hg
        refine ⟨(hkept g hg).1, (hkept g hg).2.1, ?_⟩
        rintro _ ⟨⟩ heq
        exact hmem (List.mem_map.mpr ⟨g, hg, heq⟩)
      · rw [hqueued]
        exact hI.nodup
  | dequeue f fs hqueued hallocs hf hqueued' =>
      have hmem : f ∈ c.machine.queued := hqueued ▸ List.mem_cons_self
      have hnodup := hI.nodup
      rw [hqueued, List.map_cons, List.nodup_cons] at hnodup
      refine hI.renew hs (by omega) (some f) (fun p fd hp => ?_) ?_ (fun g hg => ?_) ?_
      · exact (holds_made hs hallocs hf hp).imp_right fun h => ⟨f, rfl, h⟩
      · rintro _ ⟨⟩
        exact hI.queued f hmem
      · rw [hqueued'] at hg
        obtain ⟨hgfd, hgnone⟩ := hI.queued g (hqueued ▸ List.mem_cons_of_mem _ hg)
        refine ⟨hgfd, hgnone, ?_⟩
        rintro _ ⟨⟩ heq
        exact hnodup.1 (List.mem_map.mpr ⟨g, hg, heq⟩)
      · rw [hqueued']
        exact hnodup.2

end Descriptors

/-! ## The invariant -/

/-- Every coroutine in `wait_event` is on the descriptor it holds itself or, as the
    owner of the lock, on that of a member. -/
structure Sound (c : Chat) : Prop where
  waiting : c.machine.Waiting
  noChannel : c.machine.sched.NoChannel
  room : RoomOk c.view c.room
  descriptors : Descriptors c
  waitsOn : ∀ q fd, c.machine.sched.InWait q fd →
    ∃ r, c.Holds r fd ∧ (r = q ∨ (c.room.owner = some q ∧ r ∈ c.room.members))

section Sound

variable {c c' : Chat} {self p : CoroPtr} {fd fd' : Fd} {pc' : SessionPc}

theorem sound_init (pipeReadFd : Fd) (pipeCap : ℕ+) : Sound (init pipeReadFd pipeCap) where
  waiting := Machine.waiting_init pipeReadFd pipeCap _
  noChannel _ := id
  room := by
    refine ⟨fun p hp => ?_, fun p fd pc hview => ?_, fun p fd pc hview => ?_⟩
    · simp [init, ChatRoom.members] at hp
    · cases hview
    · cases hview
  descriptors := by
    refine ⟨by simp [init, Machine.init], fun p fd hp => ?_, fun p q fd hp => ?_,
      fun f hf => ?_, List.nodup_nil, fun p fd pc hview => ?_⟩
    · exact absurd hp.1 (Nat.not_lt_zero p)
    · exact absurd hp.1 (Nat.not_lt_zero p)
    · cases hf
    · cases hview
  waitsOn q fd hq := absurd hq.1 (Nat.not_lt_zero q)

/-- A step of the running coroutine outside the scheduler. -/
theorem Sound.move (hI : Sound c) (hm : c.Moves self fd' pc' c')
    (hrun : c.machine.sched.runningCoro = some self) : Sound c' := by
  have hlt : self < c.machine.sched.allocs :=
    Scheduler.lt_of_homeOf (hI.waiting.placed.exact.home_of_running hrun)
  refine ⟨?_, ?_, ?_, hI.descriptors.move hm hlt, fun q fd hq => ?_⟩
  · rw [hm.machine]
    exact hI.waiting
  · rw [hm.machine]
    exact hI.noChannel
  · rw [hm.view]
    exact hI.room.step hm.room
  · rw [hm.machine] at hq
    -- the mover runs, so it is not in `wait_event`
    have hne : q ≠ self := by
      rintro rfl
      exact hI.waiting.placed.not_inWait_running hrun hq
    obtain ⟨r, hr, hown⟩ := hI.waitsOn q fd hq
    have hkeep : r ≠ self ∨ pc' ≠ .gone := by
      by_contra hcon
      obtain ⟨hrs, hpc⟩ := not_or.mp hcon
      obtain ⟨own, hview, -⟩ := hm.gone (not_not.mp hpc)
      rcases hown with heq | ⟨-, hmem⟩
      · exact hne (heq.symm.trans (not_not.mp hrs))
      · -- a member does not destroy its connection
        rw [not_not.mp hrs] at hmem
        have hin := hI.room.inRoom hview hmem
        cases hin
    refine ⟨r, hm.holds hr hkeep, hown.imp_right fun ⟨howner, hmem⟩ => ?_⟩
    obtain ⟨howner', hkept⟩ := hm.room.others q hne howner
    exact ⟨howner', hkept r hmem⟩

/-- A step of the scheduler. -/
theorem Sound.machine {H : StdHeap timerAfter} {a : Act Task Unit} {m' : Machine Task Unit}
    (hI : Sound c) (hs : Machine.Stepped H c.machine a m') (hchan : ¬ a.UsesChannel)
    (hun : c.machine.Unshared a)
    (hnew : ∀ f, Machine.newTask a = some f →
      c.Given f.fd ∧ (∀ p, ¬ c.Holds p f.fd) ∧ f.fd ∉ c.machine.queued.map Task.fd)
    (hwait : ∀ fd events, a = .waitEvent fd events → ∀ q,
      c.machine.sched.runningCoro = some q →
      ∃ r, c.Holds r fd ∧ (r = q ∨ (c.room.owner = some q ∧ r ∈ c.room.members))) :
    Sound (c.withMachine m') := by
  have hno := hs.noChannel hchan hI.noChannel
  have hpost := Machine.PostStepped.of_stepped hs
  have hwaiting := hI.waiting.step hs hun hno.exclusive
  refine ⟨hwaiting, hno, hI.room, hI.descriptors.machine hpost hnew, fun q fd hq => ?_⟩
  have hold : ∃ r, c.Holds r fd ∧ (r = q ∨ (c.room.owner = some q ∧ r ∈ c.room.members)) := by
    obtain ⟨-, hlater⟩ := hI.waiting.placed.step hs
      ⟨hI.waiting.exclusive_fd hs.wait hun, hno.exclusive.1, hno.exclusive.2⟩
    -- in `wait_event` before the step, or by this call
    rcases hI.waiting.placed.inWait_back hwaiting.placed hlater hs.wait hq
      with hq | ⟨events, ha, hself⟩
    · exact hI.waitsOn q fd hq
    · exact hwait fd events ha q hself
  obtain ⟨r, hr, hown⟩ := hold
  have hlt' : r < m'.sched.allocs := by
    refine hr.1.trans_le ?_
    cases hpost.taskFlow with
    | still hallocs _ | enqueue _ _ hallocs _ => exact hallocs.ge
    | spawn _ _ hallocs _ _ | dequeue _ _ _ hallocs _ _ => exact hallocs ▸ Nat.le_succ _
  exact ⟨r, (holds_withMachine hpost hr.1 hlt').mpr hr, hown⟩

theorem Sound.opened (hI : Sound c) (hfresh : c.isOpen fd = false) : Sound (c.opened fd) :=
  ⟨hI.waiting, hI.noChannel, hI.room, (hI.descriptors.opened hfresh).1, hI.waitsOn⟩

theorem RoomOk.destroy_moves (hI : RoomOk c.view c.room) {own : Fd}
    (hself : c.view self = some (own, .http))
    (hview : c'.view = Function.update c.view self (some (fd', .gone)))
    (hroom : c'.room = c.room) (hm : c'.machine = c.machine)
    (hopen : c'.isOpen = c.isOpen ∨ c'.isOpen = Function.update c.isOpen own false) :
    c.Moves self fd' .gone c' := by
  refine ⟨hview, ?_, hm, fun h => absurd rfl h, fun _ => ⟨own, hself, hopen⟩⟩
  rw [hroom]
  refine hI.outside_step (fun fd₁ pc₁ h => ?_) rfl rfl
  rw [hself] at h
  cases h
  rfl

/-- A step outside the scheduler moves the coroutine that takes it. -/
theorem CoroutineStepped.moves (hI : RoomOk c.view c.room) (hs : CoroutineStepped c self c' none) :
    ∃ fd' pc', c.Moves self fd' pc' c' := by
  cases hs with
  | start fd hnone htask =>
      have hview : c.view self = none := by simp [view, hnone]
      refine ⟨fd, .http, ?_, hI.outside_step ?_ rfl rfl, rfl, fun _ => ⟨rfl, .inr ⟨hview, ?_⟩⟩,
        fun h => by cases h⟩
      · funext q
        by_cases hq : q = self
        · subst hq
          simp [view, started, Connection.init]
        · simp [view, started, hq]
      · intro fd₁ pc₁ h
        rw [hview] at h
        cases h
      · rw [htask]
        rfl
  -- a step that needs no lock
  | move c' fd pc pc' hself hfree hview hroom hm hopen =>
      exact ⟨fd, pc', hview, hroom ▸ hI.free_step hself hfree, hm,
        fun _ => ⟨hopen, .inl ⟨pc, hself, hfree.was⟩⟩, fun h => absurd h hfree.live⟩
  | join fd nick hself hlock =>
      exact ⟨fd, _, view_goto hself, join_step hlock nick, rfl,
        fun _ => ⟨rfl, .inl ⟨.join, hself, by simp⟩⟩, fun h => by cases h⟩
  | leave fd hself hlock =>
      exact ⟨fd, _, view_goto hself, leave_step hlock, rfl,
        fun _ => ⟨rfl, .inl ⟨.leave, hself, by simp⟩⟩, fun h => by cases h⟩
  | lock fd phase msg hself hlock =>
      exact ⟨fd, _, view_goto hself, hI.lock_step hself hlock, rfl,
        fun _ => ⟨rfl, .inl ⟨_, hself, by simp⟩⟩, fun h => by cases h⟩
  | unlock fd phase msg hself =>
      exact ⟨fd, _, view_goto hself, hI.unlock_step hself, rfl,
        fun _ => ⟨rfl, .inl ⟨_, hself, by simp⟩⟩, fun h => absurd h phase.next_spec.2.2.2⟩
  | destroy c' fd fd' b hself hview hroom hm hclose =>
      have hopen := (hclose.resolve_left fun h => by cases h.1).2
      exact ⟨fd', .gone, hI.destroy_moves hself hview hroom hm (.inl hopen)⟩

/-! ## Runs -/

/-- The descriptor the step calls `wait_event` on, if it does. -/
def waitFd (c : Chat) (a : ChatAct) : Option Fd :=
  match c.act a with
  | some (_, some (.waitEvent fd _)) => some fd
  | _ => none

/-- The condition on a step: if it calls `wait_event` on a descriptor, no other
    coroutine is in `wait_event` on it. -/
def ParksAlone (c : Chat) (a : ChatAct) : Prop :=
  ∀ fd ∈ c.waitFd a, ∀ q, q < c.machine.sched.allocs → ¬ c.machine.sched.InWait q fd

instance (c : Chat) (a : ChatAct) : Decidable (c.ParksAlone a) :=
  inferInstanceAs (Decidable (∀ fd ∈ c.waitFd a, ∀ q, q < c.machine.sched.allocs →
    ¬ c.machine.sched.InWait q fd))

theorem ParksAlone.alone {a : ChatAct} (h : c.ParksAlone a) {events : UInt32}
    (hact : c.act a = some (c', some (.waitEvent fd events))) (q : CoroPtr) :
    ¬ c.machine.sched.InWait q fd :=
  fun hq => h fd (by simp [waitFd, hact]) q hq.1 hq

variable {H : StdHeap timerAfter}

/-- A coroutine that has an entry in `wait_event`'s tables to make: the descriptor is
    its own, or that of the client it is writing to. -/
theorem Sound.waits_held (hI : Sound c) {events : UInt32}
    (hs : CoroutineStepped c self c' (some (.waitEvent fd events)))
    (hrun : c.machine.sched.runningCoro = some self) :
    c' = c ∧ ∃ r, c.Holds r fd ∧ (r = self ∨ (c.room.owner = some self ∧ r ∈ c.room.members)) := by
  have hlt : self < c.machine.sched.allocs :=
    Scheduler.lt_of_homeOf (hI.waiting.placed.exact.home_of_running hrun)
  cases hs with
  | acceptWait fd hnone htask =>
      refine ⟨rfl, self, ⟨hlt, congrArg Task.fd htask, fun fd' h => ?_⟩, .inl rfl⟩
      rw [hnone] at h
      cases h
  | ownWait fd pc events hself hlive =>
      exact ⟨rfl, self, hI.descriptors.holds_session hself hlive, .inl rfl⟩
  -- a member or the writer itself, neither of which has destroyed its connection
  | clientWait client own fd pc pc' hself hclient htarget =>
      refine ⟨rfl, client, ?_, hI.room.targets self own pc hself client htarget⟩
      apply hI.descriptors.holds_session hclient
      rintro rfl
      rcases hI.room.targets self own pc hself client htarget with rfl | ⟨-, hmem⟩
      · rw [hself] at hclient
        cases hclient
        cases htarget
      · have hin := hI.room.inRoom hclient hmem
        cases hin
  | destroy c' fd fd' b hself hview hroom hm hclose =>
      rcases hclose with ⟨h, -⟩ | ⟨h, -⟩ <;> cases h

/-- A new task with a descriptor of its own. -/
theorem Sound.spawn (hI : Sound c) (hfresh : c.isOpen fd = false) {a : Act Task Unit}
    {m' : Machine Task Unit} (hs : Machine.Stepped H c.machine a m') (f : Task)
    (hf : f.fd = fd) (ha : a = .create f ∨ ∃ t, a = .postAppend t f) :
    Sound ((c.opened fd).withMachine m') := by
  obtain ⟨-, hgiven, hnone, hmem⟩ := hI.descriptors.opened hfresh
  have htask : Machine.newTask a = some f := by
    rcases ha with rfl | ⟨t, rfl⟩ <;> rfl
  refine (hI.opened hfresh).machine hs ?_ ?_ (fun g hg => ?_) (fun fd events hw => ?_)
  · rcases ha with rfl | ⟨t, rfl⟩ <;> exact id
  · rcases ha with rfl | ⟨t, rfl⟩ <;> trivial
  · rw [htask] at hg
    obtain rfl : f = g := Option.some.inj hg
    rw [hf]
    exact ⟨hgiven, hnone, hmem⟩
  · rcases ha with rfl | ⟨t, rfl⟩ <;> cases hw

/-- An action that is neither a call of `wait_event` nor a new task. -/
theorem Sound.plain (hI : Sound c) {a : Act Task Unit} {m' : Machine Task Unit}
    (hs : Machine.Stepped H c.machine a m') (hchan : ¬ a.UsesChannel)
    (hun : c.machine.Unshared a) (hnew : Machine.newTask a = none)
    (hwait : ∀ fd events, a ≠ .waitEvent fd events) : Sound (c.withMachine m') := by
  refine hI.machine hs hchan hun (fun f hf => ?_) (fun fd events h => absurd h (hwait fd events))
  rw [hnew] at hf
  cases hf

theorem ofRun_plain {a : Act Task Unit} (h : ofRun a = true) (m : Machine Task Unit) :
    ¬ a.UsesChannel ∧ m.Unshared a ∧ Machine.newTask a = none ∧
      ∀ fd events, a ≠ .waitEvent fd events := by
  cases a with
  | run | readyLoop | reap | fireTimers _ | epollWait _ | epollFail _ | event | lastTimers _
  | readPipe | swapQueue | drain | postWrite _ =>
      exact ⟨id, trivial, rfl, fun _ _ heq => by cases heq⟩
  | create _ | yield | waitEvent _ _ | sleep _ _ | send _ _ | recv _ | closeFd _ | finish
  | postAppend _ _ => cases h

/-- Under the condition a coroutine shares no descriptor with another one. -/
theorem CoroutineStepped.unshared (hI : Sound c) {b : Act Task Unit}
    (hs : CoroutineStepped c self c' (some b)) (hrun : c.machine.sched.runningCoro = some self)
    (hok : ∀ fd events, b = .waitEvent fd events → ∀ q, ¬ c.machine.sched.InWait q fd) :
    c.machine.Unshared b := by
  have hwaits : ∀ fd events, b = .waitEvent fd events → c.machine.Unshared b := by
    rintro fd events rfl
    obtain ⟨-, r, hr, -⟩ := hI.waits_held hs hrun
    exact ⟨(hI.descriptors.given r fd hr).2, hok fd events rfl⟩
  cases hs with
  | acceptWait fd _ _ | ownWait fd _ events _ _ | clientWait _ _ fd _ _ _ _ _ =>
      exact hwaits fd _ rfl
  | accept fd hfresh | finish => trivial
  | destroy c' fd fd' b hself hview hroom hmach hclose =>
      rcases hclose with ⟨h, hopen⟩ | ⟨h, -⟩
      · cases h
        intro q hq
        -- in `c'` nobody holds the descriptor any more
        have hmoves := hI.room.destroy_moves hself hview hroom hmach (.inr hopen)
        obtain ⟨r, hr, -⟩ := (hI.move hmoves hrun).waitsOn q fd (hmach ▸ hq)
        have hheld := hI.descriptors.holds_session hself (by simp)
        have heq := hI.descriptors.unique r self fd (hmoves.holds_back hr) hheld
        subst heq
        exact hr.2.2 fd' hmoves.view_self
      · cases h

/-- A step of the running coroutine that ends in the scheduler. -/
theorem Sound.ends (hI : Sound c) {b : Act Task Unit} {m' : Machine Task Unit}
    (hs : CoroutineStepped c self c' (some b)) (hm : Machine.Stepped H c.machine b m')
    (hrun : c.machine.sched.runningCoro = some self) (hun : c.machine.Unshared b) :
    Sound (c'.withMachine m') := by
  have hwaits : ∀ fd events, b = .waitEvent fd events → Sound (c'.withMachine m') := by
    rintro fd events rfl
    obtain ⟨rfl, r, hr, hown⟩ := hI.waits_held hs hrun
    refine hI.machine hm id hun (fun f hf => by cases hf) ?_
    intro fd₁ events₁ heq q hq
    cases heq
    obtain rfl : self = q := Option.some.inj (hrun.symm.trans hq)
    exact ⟨r, hr, hown⟩
  cases hs with
  | acceptWait fd _ _ | ownWait fd _ events _ _ | clientWait _ _ fd _ _ _ _ _ =>
      exact hwaits fd _ rfl
  | accept fd hfresh => exact hI.spawn hfresh hm (.connection fd) rfl (.inl rfl)
  | finish => exact hI.plain hm id trivial rfl fun _ _ h => by cases h
  | destroy c' fd fd' b hself hview hroom hmach hclose =>
      rcases hclose with ⟨h, hopen⟩ | ⟨h, -⟩
      · cases h
        have hI' := hI.move (hI.room.destroy_moves hself hview hroom hmach (.inr hopen)) hrun
        rw [← hmach] at hm hun
        exact hI'.plain hm id hun rfl fun _ _ h => by cases h
      · cases h

/-- What a step is made of. -/
theorem step_cases {a : ChatAct} (hs : c.step H a = some c') :
    c.act a = some (c', none) ∨
      ∃ c₁ b m', c.act a = some (c₁, some b) ∧ Machine.step H c.machine b = some m' ∧
        c' = c₁.withMachine m' := by
  unfold Chat.step at hs
  split at hs
  next => cases hs
  next c₁ hact =>
    cases hs
    exact .inl hact
  next c₁ b hact =>
    obtain ⟨m', hm, rfl⟩ := Option.map_eq_some_iff.mp hs
    exact .inr ⟨c₁, b, m', hact, hm, rfl⟩

/-- Who acts: the program outside the coroutines, or the running coroutine. -/
theorem act_cases {a : ChatAct} {b : Option (Act Task Unit)} (h : c.act a = some (c', b)) :
    (∃ a', b = some a' ∧ ofRun a' = true ∧ c' = c) ∨
      (∃ f a', b = some a' ∧ (a' = .create f ∨ ∃ t, a' = .postAppend t f) ∧
        c.isOpen f.fd = false ∧ c' = c.opened f.fd) ∨
      ∃ self, c.machine.sched.runningCoro = some self ∧ CoroutineStepped c self c' b := by
  cases actStep_of_act h with
  | sys a hrun => exact .inl ⟨a, rfl, hrun, rfl⟩
  | listen fd hpc hfd hfresh =>
      exact .inr (.inl ⟨.acceptLoop fd, _, rfl, .inl rfl, hfresh, rfl⟩)
  | post t fd hfd hfresh =>
      exact .inr (.inl ⟨.connection fd, _, rfl, .inr ⟨t, rfl⟩, hfresh, rfl⟩)
  | coroutine self hpc hself h => exact .inr (.inr ⟨self, hself, coroutineAct_cases h⟩)

/-- Without the scheduler only a coroutine acts. -/
theorem act_alone {a : ChatAct} (h : c.act a = some (c', none)) :
    ∃ self, c.machine.pc = .coroutine ∧ c.machine.sched.runningCoro = some self ∧
      CoroutineStepped c self c' none := by
  cases actStep_of_act h with
  | coroutine self hpc hself h => exact ⟨self, hpc, hself, coroutineAct_cases h⟩

theorem Sound.unshared (hI : Sound c) {a : ChatAct} {b : Act Task Unit}
    (hact : c.act a = some (c', some b)) (hok : c.ParksAlone a) : c.machine.Unshared b := by
  rcases act_cases hact with ⟨a', h, hrun, -⟩ | ⟨f, a', h, ha, -, -⟩ | ⟨self, hself, hs⟩
  · cases h
    exact (ofRun_plain hrun c.machine).2.1
  · cases h
    rcases ha with rfl | ⟨t, rfl⟩ <;> trivial
  · exact hs.unshared hI hself fun fd events hb => hok.alone (hb ▸ hact)

/-- **Step lemma.** -/
theorem Sound.step (hI : Sound c) {a : ChatAct} (hs : c.step H a = some c')
    (hok : c.ParksAlone a) : Sound c' := by
  rcases step_cases hs with hact | ⟨c₁, b, m', hact, hm, rfl⟩
  · obtain ⟨self, -, hself, hstepped⟩ := act_alone hact
    obtain ⟨fd', pc', hm⟩ := hstepped.moves hI.room
    exact hI.move hm hself
  · have hm := Machine.step_cases hm
    have hun := hI.unshared hact hok
    rcases act_cases hact
      with ⟨a', h, hrun, rfl⟩ | ⟨f, a', h, ha, hfresh, rfl⟩ | ⟨self, hself, hstepped⟩
    · cases h
      obtain ⟨hchan, -, hnew, hwait⟩ := ofRun_plain hrun c₁.machine
      exact hI.plain hm hchan hun hnew hwait
    · cases h
      exact hI.spawn hfresh hm f rfl ha
    · exact hI.ends hstepped hm hself hun

/-- **Run lemma.** -/
theorem Sound.run (hI : Sound c) (hrun : Run (Chat.step H) (fun c a _ => c.ParksAlone a) c c') :
    Sound c' :=
  hrun.invariant hI fun _ _ _ hs hstep hok => hs.step hstep hok

/-- What a step does to the scheduler. -/
theorem machine_step {a : ChatAct} (hI : Sound c) (hs : c.step H a = some c')
    (hok : c.ParksAlone a) :
    c'.machine = c.machine ∨
      ∃ b, Machine.Stepped H c.machine b c'.machine ∧ c.machine.Unshared b := by
  rcases step_cases hs with hact | ⟨c₁, b, m', hact, hm, rfl⟩
  · obtain ⟨self, -, -, hstepped⟩ := act_alone hact
    obtain ⟨fd', pc', hm⟩ := hstepped.moves hI.room
    exact .inl hm.machine
  · exact .inr ⟨b, Machine.step_cases hm, hI.unshared hact hok⟩

end Sound

/-- **No session is lost by a broadcast that shares no descriptor.** In every run in
    which a coroutine calls `wait_event` only on a descriptor on which no other
    coroutine is in `wait_event`: a parked coroutine is in `waiting_map`, and the
    kernel watches the descriptor for the event it asked for or has reported one that
    the loop has still to handle; it stays so until the loop handles an event of the
    descriptor, which puts it on the ready queue; and who calls `wait_event` is parked. -/
theorem parked_until_event (H : StdHeap timerAfter) (pipeReadFd : Fd) (pipeCap : ℕ+) {c : Chat}
    (hrun : Run (Chat.step H) (fun c a _ => c.ParksAlone a) (init pipeReadFd pipeCap) c) :
    (∀ p fd events, c.machine.sched.Parks p fd events →
      c.machine.sched.waitingMap.lookup fd = some p ∧ c.machine.Watched fd events) ∧
    ∀ a c', c.step H a = some c' → c.ParksAlone a →
      (∀ p fd events, c.machine.sched.Parks p fd events →
        c'.machine.sched.Parks p fd events ∨
          ((∃ evs, c.machine.pc = .events (fd :: evs)) ∧ p ∈ c'.machine.sched.readyQueue ∧
            (c'.machine.sched.coros p).state = .ready)) ∧
      ∀ c₁ p fd events, c.act a = some (c₁, some (.waitEvent fd events)) →
        c.machine.sched.runningCoro = some p → c'.machine.sched.Parks p fd events := by
  have hI := (sound_init pipeReadFd pipeCap).run hrun
  refine ⟨fun p fd events hp => ⟨hI.waiting.lookup hp, hI.waiting.watched p fd events hp⟩,
    fun a c' hs hok => ⟨fun p fd events hp => ?_, fun c₁ p fd events hact hself => ?_⟩⟩
  · rcases machine_step hI hs hok with hsame | ⟨b, hstepped, -⟩
    · exact .inl (hsame ▸ hp)
    · refine (hI.waiting.stays (hI.step hs hok).waiting hstepped.wait hp).imp_right ?_
      exact fun h => ⟨h.1, h.2.2⟩
  · have hlt : p < c.machine.sched.allocs :=
      Scheduler.lt_of_homeOf (hI.waiting.placed.exact.home_of_running hself)
    rcases step_cases hs with hact' | ⟨c₂, b, m', hact', hm, rfl⟩
    · rw [hact] at hact'
      cases hact'
    · rw [hact] at hact'
      cases hact'
      -- the call itself is the step that parks
      cases Machine.step_cases hm with
      | waitEvent self _ _ hpc hself' =>
          obtain ⟨hst, hctx⟩ := Scheduler.waitEvent_self hself fd events
          refine ⟨?_, hst, hctx⟩
          exact (Scheduler.waitEvent_frame c.machine.sched fd events).1 ▸ hlt

/-! ### Two sessions -/

/-- Two connections are posted, and the scheduler makes their coroutines. -/
def twoConnections : List ChatAct :=
  [.post 0 5, .sys (.postWrite 0), .post 0 6, .sys (.postWrite 0), .sys .run, .sys .readyLoop,
    .sys (.fireTimers 0), .sys (.epollWait [3]), .sys .event, .sys .readPipe, .sys .readPipe,
    .sys .swapQueue, .sys .drain, .sys .drain, .sys .drain, .sys (.lastTimers 0)]

/-- The next coroutine is switched to, upgrades its connection and joins the room; it is
    about to announce itself to the first member. -/
def joins (nick : Bytes) : List ChatAct :=
  [.sys .readyLoop, .start, .upgrade nick, .locked, .locked, .locked, .locked, .locked, .next]

/-- The first session joins, and waits for a frame. -/
def firstWaits : List ChatAct :=
  twoConnections ++ joins (bytes "a") ++ [.send (.accept 200), .next, .next, .next, .recv .eagain,
    .sys .reap]

/-- The second one joins as well; where the kernel takes its announcements, both wait. -/
theorem parked_until_event_two :
    ∃ c, Run (Chat.step sortedTimers) (fun c a _ => c.ParksAlone a) (init 3 64) c ∧
      c.machine.sched.waitingMap.lookup 5 = some 0 ∧ c.machine.Watched 5 EPOLLIN ∧
      c.machine.sched.waitingMap.lookup 6 = some 1 ∧ c.machine.Watched 6 EPOLLIN := by
  obtain ⟨c, hrun, hparks⟩ := exists_run_of_exec (Chat.step sortedTimers)
    (fun c a _ => c.ParksAlone a)
    (fun c => decide (c.machine.sched.Parks 0 5 EPOLLIN ∧ c.machine.sched.Parks 1 6 EPOLLIN))
    (init 3 64)
    (firstWaits ++ joins (bytes "b") ++ [.send (.accept 200), .next, .next,
      .send (.accept 200), .next, .next, .next, .recv .eagain])
    (by decide +kernel)
  obtain ⟨hfirst, hsecond⟩ := of_decide_eq_true hparks
  have hheld := (parked_until_event sortedTimers 3 64 hrun).1
  exact ⟨c, hrun, (hheld 0 5 _ hfirst).1, (hheld 0 5 _ hfirst).2, (hheld 1 6 _ hsecond).1,
    (hheld 1 6 _ hsecond).2⟩

/-- The send buffer of the first session is full when the second one joins: the second
    takes its entry in the map and its registration. -/
theorem broadcast_loses_session :
    ¬ ∀ c, Run (Chat.step sortedTimers) anyStep (init 3 64) c →
      ∀ p fd events, c.machine.sched.Parks p fd events →
        c.machine.sched.waitingMap.lookup fd = some p ∧ c.machine.Watched fd events := by
  intro hkeeps
  obtain ⟨c, hrun, hlost⟩ := exists_run_of_exec (Chat.step sortedTimers) anyStep
    (fun c => decide (c.machine.sched.Parks 0 5 EPOLLIN ∧
      c.machine.sched.waitingMap.lookup 5 = some 1))
    (init 3 64) (firstWaits ++ joins (bytes "b") ++ [.send .eagain]) (by decide +kernel)
  obtain ⟨hparks, hlook⟩ := of_decide_eq_true hlost
  have hheld := (hkeeps c hrun 0 5 EPOLLIN hparks).1
  rw [hlook] at hheld
  cases hheld

end Chat

end CoroutineHttp.Ws
