/-
  CoroutineHttp.Core.Spinning

  What keeps `run` from its timers and from `epoll_wait`.

  The ready loop goes on until the queue is empty, and a coroutine that yields is put
  back into it.  So `run` comes to none of its other sections before every coroutine
  that was ready has parked: it waits for a descriptor, sleeps, is blocked on a channel
  or has finished.  Until then no timer fires, no waiter is woken and no posted task is
  started, whatever the clock says.
-/

import CoroutineHttp.Core.Sleepers
import CoroutineHttp.Core.Waiting

namespace CoroutineHttp.Core

open CoroutineHttp.Library

universe u v

variable {τ : Type u} {α : Type v}

namespace Machine

open Scheduler

/-! ## Parking -/

/-- The coroutine that parks in the step: it gives up the processor without going back
    into the ready queue. -/
def parkedBy (m : Machine τ α) : Act τ α → List CoroPtr
  | .waitEvent _ _ | .finish => m.sched.runningCoro.toList
  -- a `sleep` of no time is a `yield`
  | .sleep _ ms => if 0 < ms then m.sched.runningCoro.toList else []
  -- with a receiver waiting the sender yields
  | .send ch _ => if (m.chans ch).recvWaiter.isSome then [] else m.sched.runningCoro.toList
  -- with a sender waiting the receiver goes on
  | .recv ch => if (m.chans ch).sendWaiter.isSome then [] else m.sched.runningCoro.toList
  | _ => []

/-- `run` is in its ready loop. -/
def InReadyLoop (m : Machine τ α) : Prop :=
  m.pc = .readyLoop ∨ m.pc = .coroutine ∨ m.pc = .switched

/-- `run` is in its ready loop, with `p` in the queue or having its turn. -/
structure Busy (m : Machine τ α) (p : CoroPtr) : Prop where
  loop : m.InReadyLoop
  turn : p ∈ m.sched.readyQueue ∨ m.pc = .coroutine ∧ m.sched.runningCoro = some p

/-- Whoever sleeps, waits for a descriptor or is a posted task at `m` is so at `m'`. -/
structure Unattended (m m' : Machine τ α) : Prop where
  timers : ∀ e ∈ m.sched.timerHeap, e ∈ m'.sched.timerHeap
  waiters : ∀ fd, (m.sched.waitingMap.lookup fd).isSome → (m'.sched.waitingMap.lookup fd).isSome
  fromPost : m'.fromPost = m.fromPost

theorem Unattended.refl (m : Machine τ α) : Unattended m m := ⟨fun _ h => h, fun _ h => h, rfl⟩

theorem Unattended.trans {m m' m'' : Machine τ α} (h : Unattended m m')
    (h' : Unattended m' m'') : Unattended m m'' :=
  ⟨fun e he => h'.timers e (h.timers e he), fun fd hfd => h'.waiters fd (h.waiters fd hfd),
    h'.fromPost.trans h.fromPost⟩

section Spinning

variable [Inhabited α] {H : StdHeap timerAfter} {m m' : Machine τ α} {a : Act τ α} {p : CoroPtr}

/-- **Step lemma.** Nothing but the ready queue is attended to in the ready loop. -/
theorem Tidy.unattended_step (hI : Tidy m) (hs : Stepped H m a m') (hloop : m.InReadyLoop) :
    Unattended m m' := by
  refine ⟨?_, fun fd hfd => ?_, ?_⟩
  · rcases hI.timers_step hs with ⟨now, -, -, hpc | hpc⟩ | hkeeps
    · simp [InReadyLoop, hpc] at hloop
    · simp [InReadyLoop, hpc] at hloop
    · exact hkeeps
  · cases hs.wait with
    | aside _ h _ _ => rwa [h.waitingMap]
    | waitEvent self fd' events _ hself =>
        have hmap : (m.sched.waitEvent fd' events).waitingMap
            = m.sched.waitingMap.insert fd' self := by
          simp [Scheduler.waitEvent, hself]
        show ((m.sched.waitEvent fd' events).waitingMap.lookup fd).isSome
        rw [hmap]
        by_cases heq : fd = fd'
        · rw [heq, AList.lookup_insert]
          rfl
        · rwa [AList.lookup_insert_ne heq]
    | resume q rest _ _ =>
        show ((m.sched.switchTo q rest).waitingMap.lookup fd).isSome
        rwa [(switchTo_shared m.sched q rest).2.2.2]
    | closeFd _ _ => exact hfd
    | deliver evs hpc => simp [InReadyLoop, hpc] at hloop
    | pipe _ evs hpc _ => simp [InReadyLoop, hpc] at hloop
    | wake _ evs hpc _ => simp [InReadyLoop, hpc] at hloop
  · cases PostStepped.of_stepped hs with
    | away _ _ hfrom _ _ _ _ _ _ => exact hfrom
    | drainNext f fs evs hpc _ => simp [InReadyLoop, hpc] at hloop
    | spawn _ _ _ h | enterPipe _ _ h | pipeEmpty _ _ h | pipeRead _ _ h | swapQueue _ _ h
    | drainDone _ _ h | postAppend _ _ _ h | postWrite _ h =>
        subst h
        rfl

/-- **Step lemma.** Who is ready stays so, or has his turn, until he parks. -/
theorem Busy.step (hbusy : m.Busy p) (hs : Stepped H m a m') (hno : p ∉ m.parkedBy a) :
    m'.Busy p := by
  obtain ⟨hloop, hturn⟩ := hbusy
  -- a step that gives no turn takes nobody out of the queue
  have hqueued : m.turnOf a = [] → p ∈ m.sched.readyQueue → p ∈ m'.sched.readyQueue := by
    intro hnone hp
    obtain ⟨new, hnew⟩ := fifo_step hs
    rw [hnone, List.nil_append] at hnew
    rw [← hnew]
    exact List.mem_append_left new hp
  -- the call of the running coroutine
  have hcall : ∀ {self}, m.sched.runningCoro = some self → m.turnOf a = [] → m'.InReadyLoop →
      (p = self → p ∈ m'.sched.readyQueue ∨ m'.pc = .coroutine ∧
        m'.sched.runningCoro = some p) → m'.Busy p := by
    intro self hself hnone hloop' hown
    rcases hturn with hp | ⟨-, hp⟩
    · exact ⟨hloop', .inl (hqueued hnone hp)⟩
    · exact ⟨hloop', hown (Option.some.inj (hp.symm.trans hself))⟩
  cases hs with
  | readyEmpty hpc hq =>
      rcases hturn with hp | ⟨hco, -⟩
      · rw [hq] at hp
        cases hp
      · cases hpc.symm.trans hco
  | readyNext q rest hpc hq =>
      refine ⟨.inr (.inl rfl), ?_⟩
      rcases hturn with hp | ⟨hco, -⟩
      · rw [hq] at hp
        rcases List.mem_cons.mp hp with rfl | hp
        · exact .inr ⟨rfl, (switchTo_frame m.sched p rest).2.2.1⟩
        · left
          show p ∈ (m.sched.switchTo q rest).readyQueue
          rwa [(switchTo_shared m.sched q rest).1]
      · cases hpc.symm.trans hco
  | create self f _ hself =>
      exact hcall hself rfl (.inr (.inl rfl)) fun hp => .inr ⟨rfl, hp ▸ hself⟩
  | yield self _ hself =>
      refine hcall hself rfl (.inr (.inr rfl)) fun hp => .inl ?_
      show p ∈ m.sched.yield.readyQueue
      simp [Scheduler.yield, hself, hp, makeReady, swapOut, saveCtx]
  | waitEvent self fd events _ hself =>
      refine hcall hself rfl (.inr (.inr rfl)) fun hp => absurd ?_ hno
      simp [parkedBy, hself, hp]
  | sleep self now ms _ hself =>
      refine hcall hself rfl (.inr (.inr rfl)) fun hp => .inl ?_
      have hms : ¬ 0 < ms := by
        intro hms
        exact hno (by simp [parkedBy, hms, hself, hp])
      show p ∈ (m.sched.sleep H now ms).readyQueue
      rw [sleep_nonpos H m.sched now (Int64.not_lt.mp hms)]
      simp [Scheduler.yield, hself, hp, makeReady, swapOut, saveCtx]
  | send self ch val _ hself =>
      refine hcall hself rfl (.inr (.inr rfl)) fun hp => .inl ?_
      cases hr : (m.chans ch).recvWaiter with
      | none => exact absurd (by simp [parkedBy, hr, hself, hp]) hno
      | some r =>
          show p ∈ (Channel.send m.sched (m.chans ch) ch self val).1.readyQueue
          have hrun := (writeSlot_running (s := m.sched) (m.chans ch).recvSlot val self).1
          simp [Channel.send, hr, Scheduler.yield, hrun, hself, hp, makeReady, setState, swapOut,
            saveCtx]
  | recv self ch _ hself =>
      cases hsend : (m.chans ch).sendWaiter with
      | none =>
          have hpark : p ≠ self := fun hp => hno (by simp [parkedBy, hsend, hself, hp])
          refine hcall hself rfl (.inr (.inr ?_)) fun hp => absurd hp hpark
          simp [Machine.goto, Channel.recv, hsend]
      | some s =>
          have hpc' : (if (Channel.recv m.sched (m.chans ch) ch self).2.2.isSome then
              RunPc.coroutine else .switched : RunPc τ) = .coroutine := by
            simp [Channel.recv, hsend]
          refine hcall hself rfl (.inr (.inl hpc')) fun hp => .inr ⟨hpc', ?_⟩
          show (Channel.recv m.sched (m.chans ch) ch self).1.runningCoro = some p
          simp [Channel.recv, hsend, hself, hp, makeReady, setState]
  | closeFd self fd _ hself =>
      exact hcall hself rfl (.inr (.inl rfl)) fun hp => .inr ⟨rfl, hp ▸ hself⟩
  | finish self _ hself =>
      refine hcall hself rfl (.inr (.inr rfl)) fun hp => absurd ?_ hno
      simp [parkedBy, hself, hp]
  | reap hpc =>
      rcases hturn with hp | ⟨hco, -⟩
      · exact ⟨.inl rfl, .inl (hqueued rfl hp)⟩
      · cases hpc.symm.trans hco
  | postAppend _ _ _ | postWrite _ _ => exact ⟨hloop, hturn⟩
  -- the steps of the other sections
  | run hpc | createMain _ hpc | fireTimers _ hpc | epollWait _ hpc | epollFail _ hpc
  | lastTimers _ hpc | eventPipe _ _ hpc _ | eventWake _ _ hpc _ | pipeEmpty _ hpc _
  | pipeRead _ hpc _ | swapQueue _ hpc | drainDone _ hpc | drainNext _ _ _ hpc =>
      simp [InReadyLoop, hpc] at hloop

/-- **Who spins starves the others.** In every run, however it goes on from where `run` is in
    its ready loop and `p` is ready or has its turn: as long as `p` has not parked, it is so
    still, no timer has been fired, no waiter for a descriptor woken, and no posted task
    has become a coroutine. -/
theorem busy_until_parked (pipeReadFd : Fd) (pipeCap : ℕ+) (junk : Coroutine τ α)
    (hrun : Run (step H) anyStep (init pipeReadFd pipeCap junk) m) (hbusy : m.Busy p)
    {parked : List CoroPtr}
    (hrun' : Run (logged (step H) parkedBy) (unlogged anyStep) (m, []) (m', parked)) :
    p ∈ parked ∨ m'.Busy p ∧ Unattended m m' := by
  have hI := (tidy_init pipeReadFd pipeCap junk).run hrun
  refine (hrun'.invariant
    (P := fun t => Tidy t.1 ∧ (p ∈ t.2 ∨ t.1.Busy p ∧ Unattended m t.1))
    ⟨hI, .inr ⟨hbusy, .refl m⟩⟩ ?_).2
  rintro t b t' ⟨hIt, hpt⟩ hs -
  obtain ⟨hstep, hlog⟩ := logged_eq_some_iff.mp hs
  have hs := step_cases hstep
  refine ⟨hIt.step hs, ?_⟩
  rw [hlog, List.mem_append]
  rcases hpt with hparked | ⟨hbusy, hleft⟩
  · exact .inl (.inl hparked)
  · by_cases hpark : p ∈ t.1.parkedBy b
    · exact .inl (.inr hpark)
    · exact .inr ⟨hbusy.step hs hpark, hleft.trans (hIt.unattended_step hs hbusy.loop)⟩

end Spinning

/-- One coroutine sleeps; the other one yields, and yields again. -/
theorem busy_until_parked_yield :
    ∃ m m' : Machine Nat Nat, Run (step sortedTimers) anyStep
        (init 3 64 ⟨.entry, 0, .ready, 0⟩) m ∧
      Run (logged (step sortedTimers) parkedBy) (unlogged anyStep) (m, []) (m', []) ∧
      m.sched.timerHeap = [⟨20, 0⟩] ∧ m'.Busy 1 ∧ Unattended m m' := by
  let start : Machine Nat Nat := init 3 64 ⟨.entry, 0, .ready, 0⟩
  let spinning := exec (checked (step sortedTimers) anyStep) start
    [.create 7, .create 8, .run, .readyLoop, .sleep 0 20, .reap, .readyLoop]
  have hrun : Run (step sortedTimers) anyStep start (spinning.getD start) :=
    run_getD_of_exec (by decide +kernel)
  obtain ⟨⟨m', parked⟩, hrun', hparked⟩ := exists_run_of_exec
    (logged (step sortedTimers) parkedBy) (unlogged anyStep) (fun t => decide (t.2 = []))
    (spinning.getD start, []) [.yield, .reap, .readyLoop, .yield, .reap] (by decide +kernel)
  obtain rfl : parked = [] := of_decide_eq_true hparked
  have hbusy : (spinning.getD start).Busy 1 :=
    ⟨.inr (.inl (by decide +kernel)), .inr ⟨by decide +kernel, by decide +kernel⟩⟩
  obtain ⟨hstill, hleft⟩ := (busy_until_parked 3 64 _ hrun hbusy hrun').resolve_left
    List.not_mem_nil
  exact ⟨_, m', hrun, hrun', by decide +kernel, hstill, hleft⟩

end Machine

end CoroutineHttp.Core
