/-
  CoroutineHttp.Ws.RoomLock

  The lock of the chat room against the scheduler thread its sessions share.

  `broadcast` holds `mutex_` while it writes.  As long as none of its `send`s answers
  `EAGAIN` (`SendsNow`), the coroutine that owns the lock is the one that runs
  (`Guarded`), so no coroutine finds the room locked.  After such an answer the owner is
  suspended, and the first coroutine that wants the lock stops the thread for good.
-/

import CoroutineHttp.Core.Occupancy
import CoroutineHttp.Ws.Sessions

namespace CoroutineHttp.Ws

open CoroutineHttp.Library CoroutineHttp.Core CoroutineHttp.Net

/-- About to lock the room, in `join`, `size`, `nicks_json`, `broadcast` or `leave`. -/
def SessionPc.wantsLock : SessionPc → Bool
  | .join | .log _ | .online _ | .users _ _ | .broadcast _ _ | .leave => true
  | _ => false

theorem SessionPc.not_wantsLock {pc : SessionPc} (h : pc.locks = true) : pc.wantsLock = false := by
  cases pc <;> simp_all [locks, wantsLock]

namespace Chat

/-! ## Every run -/

/-- The invariant of every run. -/
structure Steady (c : Chat) : Prop where
  tidy : c.machine.Tidy
  room : RoomOk c.view c.room

theorem steady_init (pipeReadFd : Fd) (pipeCap : ℕ+) : Steady (init pipeReadFd pipeCap) :=
  ⟨Machine.tidy_init pipeReadFd pipeCap _, (sound_init pipeReadFd pipeCap).room⟩

section Steady

variable {H : StdHeap timerAfter} {c c' : Chat} {self : CoroPtr} {b : Option (Act Task Unit)}

theorem CoroutineStepped.room (hI : RoomOk c.view c.room) (hs : CoroutineStepped c self c' b) :
    RoomOk c'.view c'.room := by
  cases b with
  | none =>
      obtain ⟨fd', pc', hm⟩ := hs.moves hI
      rw [hm.view]
      exact hI.step hm.room
  | some b =>
      cases hs with
      | acceptWait fd _ _ | accept fd _ | ownWait fd _ events _ _ | clientWait _ _ fd _ _ _ _ _
      | finish => exact hI
      | destroy _ fd fd' _ hself hview hroom hmach hclose =>
          have hopen : c'.isOpen = c.isOpen ∨ c'.isOpen = Function.update c.isOpen fd false :=
            hclose.elim (fun h => .inr h.2) fun h => .inl h.2
          have hm := hI.destroy_moves hself hview hroom hmach hopen
          rw [hm.view]
          exact hI.step hm.room

/-- **Step lemma**: no condition on the step. -/
theorem Steady.step (hI : Steady c) {a : ChatAct} (hs : c.step H a = some c') : Steady c' := by
  -- a step of the sessions alone keeps the machine, one of the scheduler keeps the room
  rcases step_cases hs with hact | ⟨c₁, b, m', hact, hm, rfl⟩
  · obtain ⟨self, -, -, hstepped⟩ := act_alone hact
    obtain ⟨fd', pc', hm⟩ := hstepped.moves hI.room
    refine ⟨?_, hstepped.room hI.room⟩
    rw [hm.machine]
    exact hI.tidy
  · refine ⟨hI.tidy.step (Machine.step_cases hm), ?_⟩
    rcases act_cases hact with ⟨a', -, -, rfl⟩ | ⟨f, a', -, -, -, rfl⟩ | ⟨self, hself, hstepped⟩
    · exact hI.room
    · exact hI.room
    · exact (hstepped.room hI.room : RoomOk c₁.view c₁.room)

end Steady

/-! ## The owner of the lock -/

/-- The running coroutine is in the loop of `broadcast`. -/
def broadcasting (c : Chat) : Bool :=
  match c.machine.sched.runningCoro.bind c.sessions with
  | some s => s.pc.locks
  | none => false

/-- The condition on a step: a `send` of a broadcast does not answer `EAGAIN`. -/
def SendsNow (c : Chat) : ChatAct → Chat → Prop
  | .send .eagain, _ => c.broadcasting = false
  | _, _ => True

instance (c : Chat) (a : ChatAct) (c' : Chat) : Decidable (c.SendsNow a c') := by
  unfold SendsNow
  split <;> infer_instance

/-- The coroutine that owns the lock runs, in the loop of `broadcast`. -/
structure Guarded (c : Chat) : Prop where
  steady : Steady c
  owner : ∀ p, c.room.owner = some p → c.machine.pc = .coroutine ∧
    c.machine.sched.runningCoro = some p ∧ ∃ fd pc, c.view p = some (fd, pc) ∧ pc.locks = true

section Guarded

variable {H : StdHeap timerAfter} {c c' : Chat} {self : CoroPtr} {b : Option (Act Task Unit)}

/-- What the owner of the lock does is to go on with its broadcast. -/
theorem coroutineAct_of_locks {a : ChatAct} {fd : Fd} {pc : SessionPc}
    (hview : c.view self = some (fd, pc)) (hlocks : pc.locks = true)
    (h : c.coroutineAct self a = some (c', b)) : b = none ∨ a = .send .eagain := by
  obtain ⟨s, hs, hsame⟩ := Option.map_eq_some_iff.mp hview
  obtain ⟨rfl, rfl⟩ := Prod.mk.inj hsame
  cases coroutineStep_of_act h with
  | start fd hnone htask | acceptWait fd hnone htask
  | accept listenFd fd hnone htask hctx hfd hfresh => cases hs.symm.trans hnone
  | session s' hs' h =>
      obtain rfl : s = s' := Option.some.inj (hs.symm.trans hs')
      cases h with
      | join | leave | log | online | users | lock | unlock | skip | write | loop | frame
      | buffered | short | written | data | recvEnd | accepted | sendFail | http | upgrade
      | destroyClosed => exact .inl rfl
      | sendWait client rest back t hpc ht hopen hrest => exact .inr rfl
      -- no other wait is under the lock
      | recvWait n next hpc hlt hopen | httpWait reading hpc hopen | destroy fd hpc hfd
      | finish hpc =>
          rw [hpc] at hlocks
          cases hlocks

/-- The lock passes on by locking and unlocking only. -/
theorem CoroutineStepped.owner (hI : Guarded c) (hs : CoroutineStepped c self c' b)
    (hself : c.machine.sched.runningCoro = some self) {p : CoroPtr}
    (howner : c'.room.owner = some p) :
    p = self ∧ ∃ fd pc, c'.view self = some (fd, pc) ∧ pc.locks = true := by
  -- who owned the lock before is `self`, in the loop of `broadcast`
  have hheld : c.room.owner = some p →
      p = self ∧ ∃ fd pc, c.view self = some (fd, pc) ∧ pc.locks = true := by
    intro hp
    obtain ⟨-, hrun, fd, pc, hview, hlocks⟩ := hI.owner p hp
    obtain rfl : self = p := Option.some.inj (hself.symm.trans hrun)
    exact ⟨rfl, fd, pc, hview, hlocks⟩
  cases hs with
  | start fd hnone htask =>
      obtain ⟨-, fd', pc, hview, -⟩ := hheld howner
      rw [view, hnone] at hview
      cases hview
  | acceptWait fd _ _ | accept fd _ | ownWait fd _ events _ _ | clientWait _ _ fd _ _ _ _ _
  | finish => exact hheld howner
  | move c' fd pc pc' hview hfree hview' hroom hm hopen =>
      rw [hroom] at howner
      obtain ⟨hp, fd₁, pc₁, hview₁, hlocks⟩ := hheld howner
      rw [hview] at hview₁
      cases hview₁
      refine ⟨hp, fd, pc', ?_, hfree.locks.trans hlocks⟩
      rw [hview', Function.update_self]
  -- `join` and `leave` lock and unlock at once
  | join fd nick hview hfree =>
      have hnone : c.room.owner = some p := howner
      rw [hfree] at hnone
      cases hnone
  | leave fd hview hfree =>
      have hnone : c.room.owner = some p := howner
      rw [hfree] at hnone
      cases hnone
  | lock fd phase msg hview hfree =>
      have hp : some self = some p := howner
      refine ⟨(Option.some.inj hp).symm, fd, .each phase msg c.room.members, ?_, rfl⟩
      have hview' : (c.setRoom { c.room with owner := some self }).view self
          = some (fd, .broadcast phase msg) := hview
      rw [view_goto hview', Function.update_self]
  | unlock fd phase msg hview => cases howner
  -- a session that ends is behind its last broadcast
  | destroy c' fd fd' b hview hview' hroom hm hclose =>
      rw [hroom] at howner
      obtain ⟨-, fd₁, pc₁, hview₁, hlocks⟩ := hheld howner
      rw [hview] at hview₁
      cases hview₁
      cases hlocks

/-- A step of the scheduler that is not the owner's leaves the owner running. -/
theorem keeps_running {m m' : Machine Task Unit} {a : Act Task Unit} {p : CoroPtr}
    (hs : Machine.Stepped H m a m') (hpc : m.pc = .coroutine)
    (hself : m.sched.runningCoro = some p)
    (ha : ofRun a = true ∨ (∃ f, a = .create f) ∨ ∃ t f, a = .postAppend t f) :
    m'.pc = .coroutine ∧ m'.sched.runningCoro = some p := by
  cases hs with
  | create self f _ _ => exact ⟨rfl, hself⟩
  | postAppend t f _ => exact ⟨hpc, hself⟩
  | postWrite t _ => exact ⟨hpc, hself⟩
  | yield _ _ _ | waitEvent _ _ _ _ _ | sleep _ _ _ _ _ | send _ _ _ _ _ | recv _ _ _ _
  | closeFd _ _ _ _ | finish _ _ _ =>
      rcases ha with ha | ⟨f, ha⟩ | ⟨t, f, ha⟩ <;> cases ha
  | run h | createMain _ h | readyEmpty h _ | readyNext _ _ h _ | reap h | fireTimers _ h
  | epollWait _ h | epollFail _ h | lastTimers _ h | eventPipe _ _ h _ | eventWake _ _ h _
  | pipeEmpty _ h _ | pipeRead _ h _ | swapQueue _ h | drainDone _ h | drainNext _ _ _ h =>
      rw [hpc] at h
      cases h

/-- While the owner of the lock runs, the scheduler is entered by others, or by a `send`
    that has to wait. -/
theorem act_of_locks {a : ChatAct} {b : Act Task Unit} {fd : Fd} {pc : SessionPc}
    (hself : c.machine.sched.runningCoro = some self) (hview : c.view self = some (fd, pc))
    (hlocks : pc.locks = true) (h : c.act a = some (c', some b)) :
    (c'.view = c.view ∧
        (ofRun b = true ∨ (∃ f, b = .create f) ∨ ∃ t f, b = .postAppend t f)) ∨
      a = .send .eagain := by
  cases actStep_of_act h with
  | sys a hrun => exact .inl ⟨rfl, .inl hrun⟩
  | listen fd hpc hfd hfresh => exact .inl ⟨rfl, .inr (.inl ⟨_, rfl⟩)⟩
  | post t fd hfd hfresh => exact .inl ⟨rfl, .inr (.inr ⟨t, _, rfl⟩)⟩
  | coroutine self' hpc hself' h =>
      obtain rfl : self = self' := Option.some.inj (hself.symm.trans hself')
      rcases coroutineAct_of_locks hview hlocks h with hb | ha
      · cases hb
      · exact .inr ha

theorem CoroutineStepped.room_eq {b : Act Task Unit} (hs : CoroutineStepped c self c' (some b)) :
    c'.room = c.room := by
  cases hs with
  | acceptWait fd _ _ | accept fd _ | ownWait fd _ events _ _ | clientWait _ _ fd _ _ _ _ _
  | finish => rfl
  | destroy _ fd fd' _ hself hview hroom hmach hclose => exact hroom

/-- **Step lemma.** -/
theorem Guarded.step (hI : Guarded c) {a : ChatAct} (hs : c.step H a = some c')
    (hok : c.SendsNow a c') : Guarded c' := by
  refine ⟨hI.steady.step hs, fun p hp => ?_⟩
  -- who has the lock behind the step: `self`, which goes on, or the owner before it
  rcases step_cases hs with hact | ⟨c₁, b, m', hact, hm, rfl⟩
  · obtain ⟨self, hpc, hself, hstepped⟩ := act_alone hact
    obtain ⟨fd', pc', hm⟩ := hstepped.moves hI.steady.room
    obtain ⟨rfl, hview⟩ := hstepped.owner hI hself hp
    rw [hm.machine]
    exact ⟨hpc, hself, hview⟩
  · have howner : c.room.owner = some p := by
      rcases act_cases hact with ⟨a', -, -, rfl⟩ | ⟨f, a', -, -, -, rfl⟩ | ⟨self, -, hstepped⟩
      · exact hp
      · exact hp
      · exact hstepped.room_eq ▸ hp
    obtain ⟨hpc, hself, fd, pc, hview, hlocks⟩ := hI.owner p howner
    rcases act_of_locks hself hview hlocks hact with ⟨hsame, hb⟩ | rfl
    · obtain ⟨hpc', hself'⟩ := keeps_running (Machine.step_cases hm) hpc hself hb
      exact ⟨hpc', hself', fd, pc, hsame ▸ hview, hlocks⟩
    · -- excluded: this `send` is one of a broadcast
      obtain ⟨s, hsession, hsame⟩ := Option.map_eq_some_iff.mp hview
      obtain ⟨rfl, rfl⟩ := Prod.mk.inj hsame
      have hnot : c.broadcasting = false := hok
      simp [broadcasting, hself, hsession, hlocks] at hnot

/-- **Run lemma.** -/
theorem Guarded.run (hI : Guarded c) (hrun : Run (Chat.step H) SendsNow c c') : Guarded c' :=
  hrun.invariant hI fun _ _ _ hs hstep hok => hs.step hstep hok

end Guarded

theorem guarded_init (pipeReadFd : Fd) (pipeCap : ℕ+) : Guarded (init pipeReadFd pipeCap) :=
  ⟨steady_init pipeReadFd pipeCap, fun p hp => by cases hp⟩

/-- The thread is stopped: its coroutine wants a lock that a coroutine of the same
    scheduler has. -/
def Frozen (c : Chat) : Prop :=
  ∃ p fd pc, c.machine.sched.runningCoro = some p ∧ c.view p = some (fd, pc) ∧
    pc.wantsLock = true ∧ c.room.owner ≠ none

/-- A coroutine that owns the lock is not suspended, and the thread is not stopped. -/
structure Unfrozen (c : Chat) : Prop where
  running : ∀ p, c.room.owner = some p → (c.machine.sched.coros p).state = .running
  notQueued : ∀ p, c.room.owner = some p → p ∉ c.machine.sched.readyQueue
  notParked : ∀ p fd, c.room.owner = some p → c.machine.sched.waitingMap.lookup fd ≠ some p
  awake : ¬ c.Frozen

/-- **The lock.** In every run of chat sessions on one scheduler in which no `send` of a
    broadcast answers `EAGAIN`, no coroutine is suspended while it owns the lock of the
    room, and none finds the room locked. -/
theorem room_lock_held_running (H : StdHeap timerAfter) (pipeReadFd : Fd) (pipeCap : ℕ+)
    {c : Chat} (hrun : Run (Chat.step H) SendsNow (init pipeReadFd pipeCap) c) : Unfrozen c := by
  have hI := (guarded_init pipeReadFd pipeCap).run hrun
  -- the owner runs, so it is in no queue, and the coroutine that runs is behind the lock
  have hst : ∀ p, c.room.owner = some p → (c.machine.sched.coros p).state = .running := by
    intro p hp
    obtain ⟨hpc, hself, -⟩ := hI.owner p hp
    exact hI.steady.tidy.state_running hpc hself
  refine ⟨hst, fun p hp hmem => ?_, fun p fd hp hlook => ?_, ?_⟩
  · have hready := (hI.steady.tidy.once.ready hmem).2.1
    rw [hst p hp] at hready
    cases hready
  · have hocc : c.machine.sched.occurrences c.machine.chans (.waitingMap fd) p ≠ 0 := by
      simp [Scheduler.occurrences, hlook]
    obtain ⟨-, hself, -⟩ := hI.owner p hp
    exact hI.steady.tidy.once.ne_running hself hocc (by simp) rfl
  · rintro ⟨p, fd, pc, hself, hview, hwants, howner⟩
    obtain ⟨q, hq⟩ := Option.ne_none_iff_exists'.mp howner
    obtain ⟨-, hself', fd', pc', hview', hlocks⟩ := hI.owner q hq
    obtain rfl : p = q := Option.some.inj (hself.symm.trans hself')
    rw [hview] at hview'
    cases hview'
    rw [SessionPc.not_wantsLock hlocks] at hwants
    cases hwants

/-- Two sessions; the first waits for a frame while the second announces itself. -/
theorem room_lock_held_running_two :
    ∃ c, Run (Chat.step sortedTimers) SendsNow (init 3 64) c ∧ c.room.owner = some 1 ∧
      Unfrozen c := by
  obtain ⟨c, hrun, howner⟩ := exists_run_of_exec (Chat.step sortedTimers) SendsNow
    (fun c => decide (c.room.owner = some 1)) (init 3 64)
    (firstWaits ++ joins (bytes "b") ++ [.send (.accept 200), .next]) (by decide +kernel)
  exact ⟨c, hrun, of_decide_eq_true howner, room_lock_held_running sortedTimers 3 64 hrun⟩

/-- The first session announces itself while its send buffer is full; the second one,
    which wants to join, stops the thread. -/
theorem join_freezes :
    ¬ ∀ c, Run (Chat.step sortedTimers) anyStep (init 3 64) c → Unfrozen c := by
  intro hruns
  obtain ⟨c, hrun, hfrozen⟩ := exists_run_of_exec (Chat.step sortedTimers) anyStep
    (fun c => decide (c.room.owner = some 0 ∧ c.machine.sched.runningCoro = some 1 ∧
      (c.sessions 1).map (fun s => s.pc.wantsLock) = some true))
    (init 3 64)
    (twoConnections ++ joins (bytes "a") ++ [.send .eagain, .sys .reap, .sys .readyLoop, .start,
      .upgrade (bytes "b")]) (by decide +kernel)
  obtain ⟨howner, hself, hwants⟩ := of_decide_eq_true hfrozen
  obtain ⟨s, hs, hpc⟩ := Option.map_eq_some_iff.mp hwants
  refine (hruns c hrun).awake ⟨1, _, _, hself, view_of_sessions hs, hpc, ?_⟩
  rw [howner]
  exact nofun

end Chat

end CoroutineHttp.Ws
