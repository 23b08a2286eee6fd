/-
  CoroutineHttp.Ws.Descriptors

  The descriptors of the system calls the coroutines make, in every run: no call is made
  on a descriptor that is closed, or that has been given to another connection since.

  `CoroutineHttp.Ws.Sessions` has the invariant (`Descriptors`) under the condition that
  no descriptor is waited on twice; it needs no more than `Steady`, which every step
  keeps.
-/

import CoroutineHttp.Ws.RoomLock

namespace CoroutineHttp.Ws

open CoroutineHttp.Library CoroutineHttp.Core CoroutineHttp.Net

namespace Chat

/-! ## Every run -/

section Steps

variable {H : StdHeap timerAfter} {c c' : Chat} {self : CoroPtr} {fd : Fd}

theorem Steady.lt_allocs (hI : Steady c) (hself : c.machine.sched.runningCoro = some self) :
    self < c.machine.sched.allocs :=
  Scheduler.lt_of_homeOf (hI.tidy.once.home_of_running hself)

/-- A step of the scheduler that brings in no task. -/
theorem Descriptors.plain (hI : Descriptors c) {a : Act Task Unit} {m' : Machine Task Unit}
    (hm : Machine.Stepped H c.machine a m') (hnew : Machine.newTask a = none) :
    Descriptors (c.withMachine m') := by
  refine hI.machine (Machine.PostStepped.of_stepped hm) fun f hf => ?_
  rw [hnew] at hf
  cases hf

/-- A new task, with a descriptor the kernel has just opened. -/
theorem Descriptors.spawn (hI : Descriptors c) {f : Task} (hfresh : c.isOpen f.fd = false)
    {a : Act Task Unit} {m' : Machine Task Unit} (hm : Machine.Stepped H c.machine a m')
    (ha : Machine.newTask a = some f) : Descriptors ((c.opened f.fd).withMachine m') := by
  obtain ⟨hI', hgiven, hnone, hmem⟩ := hI.opened hfresh
  refine hI'.machine (Machine.PostStepped.of_stepped hm) fun g hg => ?_
  rw [ha] at hg
  obtain rfl : f = g := Option.some.inj hg
  exact ⟨hgiven, hnone, hmem⟩

/-- **Step lemma**: no condition on the step. -/
theorem Descriptors.step (hI : Descriptors c) (hsteady : Steady c) {a : ChatAct}
    (hs : c.step H a = some c') : Descriptors c' := by
  rcases step_cases hs with hact | ⟨c₁, b, m', hact, hm, rfl⟩
  · obtain ⟨self, -, hself, hstepped⟩ := act_alone hact
    obtain ⟨fd', pc', hm⟩ := hstepped.moves hsteady.room
    exact hI.move hm (hsteady.lt_allocs hself)
  · have hm := Machine.step_cases hm
    rcases act_cases hact
      with ⟨a', hb, hrun, rfl⟩ | ⟨f, a', hb, ha, hfresh, rfl⟩ | ⟨self, hself, hstepped⟩
    · cases hb
      exact hI.plain hm (ofRun_plain hrun c₁.machine).2.2.1
    · cases hb
      apply hI.spawn hfresh hm
      rcases ha with rfl | ⟨t, rfl⟩ <;> rfl
    · cases hstepped with
      | acceptWait fd _ _ | ownWait fd _ events _ _ | clientWait _ _ fd _ _ _ _ _ | finish =>
          exact hI.plain hm rfl
      | accept fd hfresh =>
          exact hI.spawn (f := .connection fd) hfresh hm rfl
      | destroy c₁ fd fd' b hview hview' hroom hmach hclose =>
          rcases hclose with ⟨hb, hopen⟩ | ⟨hb, -⟩
          · cases hb
            have hmoves := hsteady.room.destroy_moves hview hview' hroom hmach (.inr hopen)
            rw [← hmach] at hm
            exact (hI.move hmoves (hsteady.lt_allocs hself)).plain hm rfl
          · cases hb

/-- **Run lemma.** -/
theorem Descriptors.run {pipeReadFd : Fd} {pipeCap : ℕ+}
    (hrun : Run (Chat.step H) anyStep (init pipeReadFd pipeCap) c) : Steady c ∧ Descriptors c :=
  hrun.invariant (P := fun c => Steady c ∧ Descriptors c)
    ⟨steady_init pipeReadFd pipeCap, (sound_init pipeReadFd pipeCap).descriptors⟩
    fun _ _ _ hI hs _ => ⟨hI.1.step hs, hI.2.step hI.1 hs⟩

end Steps

/-! ## System calls -/

/-- The descriptor of the system call that the coroutine `self` makes in a step: `recv`,
    `send`, `accept`, `close`, or `epoll_ctl` in `wait_event`. -/
def callFd (c : Chat) (self : CoroPtr) : ChatAct → Option Fd
  | .http _ _ | .httpWait _ | .recv _ => (c.sessions self).map fun s => s.conn.fd
  | .destroy => (c.sessions self).bind fun s => s.conn.close.2
  | .send _ =>
      (c.sessions self).bind fun s =>
        match s.pc with
        | .write client _ _ => (c.sessions client).map fun t => t.conn.fd
        | _ => none
  | .acceptWait | .accept _ => some (c.machine.sched.coros self).func.fd
  | _ => none

/-- `self` may make a system call on `fd`: it is open, and held by `self` or, while `self`
    has the lock of the room, by a member; nobody else holds it. -/
structure MayCall (c : Chat) (self : CoroPtr) (fd : Fd) : Prop where
  isOpen : c.isOpen fd = true
  notPipe : fd ≠ c.machine.sched.pipeReadFd
  holder : ∃ r, c.Holds r fd ∧ (r = self ∨ (c.room.owner = some self ∧ r ∈ c.room.members)) ∧
    ∀ q, c.Holds q fd → q = r
  notQueued : ∀ f ∈ c.machine.queued, f.fd ≠ fd

section Calls

variable {H : StdHeap timerAfter} {c c' : Chat} {self r : CoroPtr} {fd : Fd}

theorem Descriptors.mayCall (hI : Descriptors c) (hr : c.Holds r fd)
    (hown : r = self ∨ (c.room.owner = some self ∧ r ∈ c.room.members)) : c.MayCall self fd := by
  obtain ⟨hopen, hpipe⟩ := hI.given r fd hr
  refine ⟨hopen, hpipe, ⟨r, hr, hown, fun q hq => hI.unique q r fd hq hr⟩, fun f hf heq => ?_⟩
  exact (hI.queued f hf).2 r (heq ▸ hr)

/-- A session that is not over holds its descriptor. -/
theorem Descriptors.own (hI : Descriptors c) {s : Session} (hs : c.sessions self = some s)
    (hlive : s.pc ≠ .gone) : c.MayCall self s.conn.fd :=
  hI.mayCall (hI.holds_session (view_of_sessions hs) hlive) (.inl rfl)

/-- The client of a `write` is a member, or the writer itself. -/
theorem Descriptors.client (hI : Descriptors c) (hroom : RoomOk c.view c.room) {s t : Session}
    (hs : c.sessions self = some s) {client : CoroPtr} {rest : Bytes} {back : Back}
    (hpc : s.pc = .write client rest back) (ht : c.sessions client = some t) :
    c.MayCall self t.conn.fd := by
  have htarget : client ∈ s.pc.targets := by
    rw [hpc]
    cases back <;> simp [SessionPc.targets]
  have hown := hroom.targets self _ _ (view_of_sessions hs) client htarget
  refine hI.mayCall (hI.holds_session (view_of_sessions ht) fun hgone => ?_) hown
  -- neither of which has destroyed its connection
  rcases hown with rfl | ⟨-, hmem⟩
  · rw [hs] at ht
    cases ht
    rw [hpc] at hgone
    cases hgone
  · have hin := hroom.inRoom (view_of_sessions ht) hmem
    rw [hgone] at hin
    cases hin

/-- The task of a coroutine without a `Connection` holds the descriptor it captures. -/
theorem Descriptors.task (hI : Descriptors c)
    (hlt : self < c.machine.sched.allocs) (hnone : c.sessions self = none) :
    c.MayCall self (c.machine.sched.coros self).func.fd := by
  refine hI.mayCall ⟨hlt, rfl, fun fd' h => ?_⟩ (.inl rfl)
  rw [view, hnone] at h
  cases h

/-- **A call of a session** is on a descriptor it may use. -/
theorem SessionStep.mayCall {s : Session} {a : ChatAct} {b : Option (Act Task Unit)}
    (hI : Descriptors c) (hroom : RoomOk c.view c.room) (hs : c.sessions self = some s)
    (h : SessionStep c self s a c' b) (hfd : c.callFd self a = some fd) : c.MayCall self fd := by
  have hown : s.pc ≠ .gone → (c.sessions self).map (fun s => s.conn.fd) = some fd →
      c.MayCall self fd := by
    intro hlive heq
    rw [hs] at heq
    cases heq
    exact hI.own hs hlive
  cases h with
  | http buf ended hpc | httpWait reading hpc hopen => exact hown (by rw [hpc]; nofun) hfd
  | data n next first rest hpc hlt hopen hlen | recvWait n next hpc hlt hopen
  | recvEnd n next hpc hlt hopen => exact hown (by rw [hpc]; nofun) hfd
  | accepted client rest back t extra hpc ht hopen hrest
  | sendWait client rest back t hpc ht hopen hrest
  | sendFail client rest back t hpc ht hopen hrest =>
      simp only [callFd, hs, hpc, ht, Option.bind_some, Option.map_some] at hfd
      cases hfd
      exact hI.client hroom hs hpc ht
  | destroy fd' hpc hclose =>
      refine hown (by rw [hpc]; nofun) ?_
      simp only [callFd, hs, Option.bind_some] at hfd
      rw [hs, Option.map_some]
      unfold Connection.close at hfd
      split at hfd
      · exact hfd
      · cases hfd
  | destroyClosed hpc hclose =>
      simp [callFd, hs, hclose] at hfd
  -- steps without a system call
  | join | leave | log | online | users | lock | unlock | skip | write | loop | frame | buffered
  | short | written | upgrade | finish => cases hfd

/-- **The calls of a coroutine.** -/
theorem coroutineAct_mayCall {a : ChatAct} {b : Option (Act Task Unit)} (hI : Descriptors c)
    (hsteady : Steady c) (hself : c.machine.sched.runningCoro = some self)
    (h : c.coroutineAct self a = some (c', b)) (hfd : c.callFd self a = some fd) :
    c.MayCall self fd := by
  cases coroutineStep_of_act h with
  | start fd' hnone htask => cases hfd
  | acceptWait fd' hnone htask | accept listenFd fd' hnone htask hctx hpos hfresh =>
      cases hfd
      exact hI.task (hsteady.lt_allocs hself) hnone
  | session s hs h => exact h.mayCall hI hsteady.room hs hfd

/-- What a step closes is the descriptor of the session that destroys its connection. -/
theorem closed_by {a : ChatAct} {b : Option (Act Task Unit)} (h : c.act a = some (c', b))
    (hopen : c.isOpen fd = true) (hclosed : c'.isOpen fd = false) :
    ∃ self s, a = .destroy ∧ c.machine.sched.runningCoro = some self ∧
      c.sessions self = some s ∧ s.pc = .http ∧ s.conn.fd = fd := by
  have hopened : ∀ fd', (c.opened fd').isOpen fd ≠ false := by
    intro fd' hne
    have hupdate : Function.update c.isOpen fd' true fd = false := hne
    by_cases heq : fd = fd'
    · rw [heq, Function.update_self] at hupdate
      cases hupdate
    · rw [Function.update_of_ne heq, hopen] at hupdate
      cases hupdate
  have hsame : c.isOpen fd ≠ false := by
    rw [hopen]
    nofun
  cases actStep_of_act h with
  | sys a hrun => exact absurd hclosed hsame
  | listen fd' hpc hpos hfresh => exact absurd hclosed (hopened fd')
  | post t fd' hpos hfresh => exact absurd hclosed (hopened fd')
  | coroutine self hpc hself h =>
      cases coroutineStep_of_act h with
      | start fd' hnone htask | acceptWait fd' hnone htask => exact absurd hclosed hsame
      | accept listenFd fd' hnone htask hctx hpos hfresh => exact absurd hclosed (hopened fd')
      | session s hs h =>
          cases h with
          | destroy fd' hpc hclose =>
              refine ⟨self, s, rfl, hself, hs, hpc, ?_⟩
              have hupdate : Function.update c.isOpen fd' false fd = false := hclosed
              have hfd : fd = fd' := by
                by_contra hne
                rw [Function.update_of_ne hne, hopen] at hupdate
                cases hupdate
              unfold Connection.close at hclose
              split at hclose
              · cases hclose
                exact hfd.symm
              · cases hclose
          | join | leave | log | online | users | lock | unlock | skip | write | loop | frame
          | buffered | short | written | data | recvWait | recvEnd | accepted | sendWait
          | sendFail | http | httpWait | upgrade | destroyClosed | finish =>
              exact absurd hclosed hsame

end Calls

/-- **Descriptors.** In every run, with accept loops, posted connections, HTTP, chat
    sessions and broadcasts in any order: a system call of a coroutine is made on a
    descriptor that is open and that nobody holds but the coroutine itself or, in a
    broadcast, a member of the room; and a descriptor is closed by its one holder, after
    which nobody holds it. -/
theorem descriptors_never_stale (H : StdHeap timerAfter) (pipeReadFd : Fd) (pipeCap : ℕ+)
    {c c' : Chat} (hrun : Run (Chat.step H) anyStep (init pipeReadFd pipeCap) c) {a : ChatAct}
    (hs : c.step H a = some c') :
    (∀ self fd, c.machine.sched.runningCoro = some self → c.callFd self a = some fd →
      c.MayCall self fd) ∧
    ∀ fd, c.isOpen fd = true → c'.isOpen fd = false →
      ∃ self, a = .destroy ∧ c.machine.sched.runningCoro = some self ∧ c.Holds self fd ∧
        ∀ q, ¬ c'.Holds q fd := by
  obtain ⟨hsteady, hI⟩ := Descriptors.run hrun
  have hact : ∃ c₁ b, c.act a = some (c₁, b) ∧ c'.isOpen = c₁.isOpen := by
    rcases step_cases hs with hact | ⟨c₁, b, m', hact, -, rfl⟩
    · exact ⟨c', none, hact, rfl⟩
    · exact ⟨c₁, some b, hact, rfl⟩
  obtain ⟨c₁, b, hact, hisOpen⟩ := hact
  constructor
  · intro self fd hself hfd
    cases actStep_of_act hact with
    | sys a hrun | listen fd' hpc hpos hfresh | post t fd' hpos hfresh => cases hfd
    | coroutine self' hpc hself' h =>
        obtain rfl : self' = self := Option.some.inj (hself'.symm.trans hself)
        exact coroutineAct_mayCall hI hsteady hself h hfd
  · intro fd hopen hclosed
    rw [hisOpen] at hclosed
    obtain ⟨self, s, ha, hself, hsession, hpc, rfl⟩ := closed_by hact hopen hclosed
    have hholds := hI.holds_session (view_of_sessions hsession) (by rw [hpc]; nofun)
    refine ⟨self, ha, hself, hholds, fun q hq => ?_⟩
    have hgiven := (hI.step hsteady hs).given q _ hq
    rw [Given, hisOpen, hclosed] at hgiven
    cases hgiven.1

/-- The first session joins and announces itself; its next step is a `send` to itself,
    under the lock. -/
theorem descriptors_never_stale_send :
    ∃ c c', Run (Chat.step sortedTimers) anyStep (init 3 64) c ∧
      c.step sortedTimers (.send (.accept 0)) = some c' ∧ c.MayCall 0 5 := by
  obtain ⟨c, hrun, hcall⟩ := exists_run_of_exec (Chat.step sortedTimers) anyStep
    (fun c => (c.step sortedTimers (.send (.accept 0))).isSome &&
      decide (c.machine.sched.runningCoro = some 0 ∧ c.callFd 0 (.send (.accept 0)) = some 5))
    (init 3 64) (twoConnections ++ joins (bytes "a")) (by decide +kernel)
  obtain ⟨hsome, hdecide⟩ := Bool.and_eq_true_iff.mp hcall
  obtain ⟨c', hs⟩ := Option.isSome_iff_exists.mp hsome
  obtain ⟨hself, hfd⟩ := of_decide_eq_true hdecide
  exact ⟨c, c', hrun, hs, (descriptors_never_stale sortedTimers 3 64 hrun hs).1 0 5 hself hfd⟩

end Chat

end CoroutineHttp.Ws
