/-
  CoroutineHttp.Core.Sleepers

  Coroutines that sleep, over whole runs: who is to wake first has his turn first, and
  `run` blocks in `epoll_wait` only when nobody is ready and no deadline has passed.

  `fire_timers` is the only step that takes a timer off the heap (`timers_step`); what it
  takes off is queued in the order of the deadlines.
-/

import CoroutineHttp.Core.Turns

namespace CoroutineHttp.Core

open CoroutineHttp.Library

universe u v

variable {τ : Type u} {α : Type v}

namespace Scheduler

variable {s : Scheduler τ α} {chans : ChanId → Channel α}

/-- A coroutine has one timer at most. -/
theorem AtMostOnce.timers_nodup (hI : AtMostOnce s chans) :
    (s.timerHeap.map TimerEntry.co).Nodup :=
  List.nodup_iff_count_le_one.mpr fun p =>
    (hI.count p .timerHeap).trans (by split <;> omega)

/-- Who sleeps is not queued. -/
theorem AtMostOnce.sleeper_not_ready (hI : AtMostOnce s chans) {e : TimerEntry}
    (he : e ∈ s.timerHeap) : e.co ∉ s.readyQueue := by
  have hsleeps : s.occurrences chans .timerHeap e.co ≠ 0 :=
    (List.count_pos_iff.mpr (List.mem_map_of_mem he)).ne'
  intro hready
  have hcount : s.occurrences chans .readyQueue e.co ≠ 0 :=
    (List.count_pos_iff.mpr hready).ne'
  exact hI.ne_of_place hsleeps hcount (by simp) rfl

/-- Of two sleepers whose timers are fired together, the one with the earlier deadline is
    queued first. -/
theorem AtMostOnce.fired_before (hI : AtMostOnce s chans) (H : StdHeap timerAfter)
    (hheap : IsHeap timerAfter s.timerHeap) {now : Int64} {e f : TimerEntry}
    (he : e ∈ s.timerHeap) (hf : f ∈ s.timerHeap) (hlt : e.expireMs < f.expireMs)
    (hdue : f.expireMs ≤ now) :
    Before e.co f.co ((popDue H now s.timerHeap).1.map (·.co)) := by
  obtain ⟨hexactly, hordered, -, -⟩ := popDue_spec H now hheap
  have hfired : ∀ g ∈ s.timerHeap, g.expireMs ≤ now → g ∈ (popDue H now s.timerHeap).1 :=
    fun g hg hle => hexactly.mem_iff.mpr (List.mem_filter.mpr ⟨hg, decide_eq_true hle⟩)
  have hemem := hfired e he (Int64.le_trans (Int64.le_of_lt hlt) hdue)
  obtain ⟨front, back, hsplit⟩ := List.append_of_mem (hfired f hf hdue)
  have hnodup : ((popDue H now s.timerHeap).1.map (·.co)).Nodup :=
    ((hexactly.map _).nodup_iff).mpr
      (hI.timers_nodup.sublist (List.filter_sublist.map TimerEntry.co))
  rw [hsplit] at hemem hordered hnodup ⊢
  rw [List.map_append, List.map_cons] at hnodup ⊢
  refine ⟨front.map (·.co), back.map (·.co), rfl, fun hmem => ?_, ?_⟩
  · exact (List.nodup_append.mp hnodup).2.2 _ hmem _ List.mem_cons_self rfl
  · -- behind `f` there are only later deadlines
    rcases List.mem_append.mp hemem with hfront | hback
    · exact List.mem_map_of_mem hfront
    · rcases List.mem_cons.mp hback with rfl | hback
      · exact (Int64.lt_irrefl hlt).elim
      · have hle := (List.pairwise_cons.mp (List.pairwise_append.mp hordered).2.1).1 e hback
        exact (Int64.lt_irrefl (Int64.lt_of_lt_of_le hlt hle)).elim

end Scheduler

namespace Machine

open Scheduler

section Sleepers

variable {H : StdHeap timerAfter} {m m' : Machine τ α} {a : Act τ α} {e f : TimerEntry}
  {turns : List CoroPtr}

/-! ## The order of the sleepers -/

/-- Two sleepers on their way to their turns, of which `turns` have been given. -/
inductive Waking (e f : TimerEntry) (m : Machine τ α) (turns : List CoroPtr) : Prop where
  | both (he : e ∈ m.sched.timerHeap) (hf : f ∈ m.sched.timerHeap) (hfresh : f.co ∉ turns)
  | first (he : e.co ∈ turns ++ m.sched.readyQueue) (hf : f ∈ m.sched.timerHeap)
      (hfresh : f.co ∉ turns)
  | done (h : Before e.co f.co (turns ++ m.sched.readyQueue))

/-- Who sleeps has no turn. -/
theorem Tidy.sleeper_turn (hI : Tidy m) (hf : f ∈ m.sched.timerHeap) (hfresh : f.co ∉ turns) :
    f.co ∉ turns ++ m.turnOf a := by
  rw [List.mem_append, not_or]
  exact ⟨hfresh, fun hturn =>
    hI.once.sleeper_not_ready hf (mem_readyQueue_of_turnOf hturn)⟩

/-- `fire_timers` keeps the order of two sleepers. -/
theorem Waking.fire (hw : Waking e f m turns) (hI : Tidy m) (hlt : e.expireMs < f.expireMs)
    {now : Int64} (hsched : m'.sched = (m.sched.fireTimers H now).1) : Waking e f m' turns := by
  obtain ⟨hheap', hqueue, -⟩ := fireTimers_eq H now m.sched
  obtain ⟨hexactly, -, hleft, -⟩ := popDue_spec H now hI.heap
  rw [← hsched] at hheap' hqueue
  -- a timer that is not due stays
  have hstays : ∀ g ∈ m.sched.timerHeap, ¬ g.expireMs ≤ now → g ∈ m'.sched.timerHeap := by
    intro g hg hnot
    rw [hheap', hleft.mem_iff]
    exact List.mem_filter.mpr ⟨hg, by simpa [due] using hnot⟩
  have hfired : ∀ g ∈ m.sched.timerHeap, g.expireMs ≤ now →
      g.co ∈ (popDue H now m.sched.timerHeap).1.map (·.co) := fun g hg hle =>
    List.mem_map_of_mem (hexactly.mem_iff.mpr (List.mem_filter.mpr ⟨hg, decide_eq_true hle⟩))
  have hbehind : f ∈ m.sched.timerHeap → f.co ∉ turns →
      f.co ∉ turns ++ m.sched.readyQueue := by
    intro hf hfresh
    rw [List.mem_append, not_or]
    exact ⟨hfresh, hI.once.sleeper_not_ready hf⟩
  cases hw with
  | both he hf hfresh =>
      by_cases hfdue : f.expireMs ≤ now
      · apply Waking.done
        rw [hqueue, ← List.append_assoc]
        exact (hI.once.fired_before H hI.heap he hf hlt hfdue).append_left (hbehind hf hfresh)
      · by_cases hedue : e.expireMs ≤ now
        · refine .first ?_ (hstays f hf hfdue) hfresh
          rw [hqueue]
          exact List.mem_append_right _ (List.mem_append_right _ (hfired e he hedue))
        · exact .both (hstays e he hedue) (hstays f hf hfdue) hfresh
  | first he hf hfresh =>
      by_cases hfdue : f.expireMs ≤ now
      · apply Waking.done
        rw [hqueue, ← List.append_assoc]
        exact .of_mem he (hbehind hf hfresh) (hfired f hf hfdue)
      · refine .first ?_ (hstays f hf hfdue) hfresh
        rw [hqueue, ← List.append_assoc]
        exact List.mem_append_left _ he
  | done h =>
      apply Waking.done
      rw [hqueue, ← List.append_assoc]
      exact h.append _

variable [Inhabited α]

/-- **Only `fire_timers` takes timers off the heap.** -/
theorem Tidy.timers_step (hI : Tidy m) (hs : Stepped H m a m') :
    (∃ now, m'.sched = (m.sched.fireTimers H now).1 ∧ m.turnOf a = [] ∧
        (m.pc = .timers ∨ m.pc = .events [])) ∨
      ∀ e ∈ m.sched.timerHeap, e ∈ m'.sched.timerHeap := by
  cases hs with
  | fireTimers now hpc => exact .inl ⟨now, rfl, rfl, .inl hpc⟩
  | lastTimers now hpc => exact .inl ⟨now, rfl, rfl, .inr hpc⟩
  | sleep self now ms hpc hself =>
      refine .inr fun e he => ?_
      by_cases hms : 0 < ms
      · show e ∈ (m.sched.sleep H now ms).timerHeap
        rw [sleep_pos H hself now hms]
        exact (H.push_spec _ _ hI.heap).1.mem_iff.mpr (List.mem_append_left _ he)
      · show e ∈ (m.sched.sleep H now ms).timerHeap
        rw [sleep_nonpos H m.sched now (Int64.not_lt.mp hms), yield_timerHeap]
        exact he
  | readyNext p rest _ _ => exact .inr fun e he => (switchTo_frame m.sched p rest).2.1 ▸ he
  | yield self _ _ => exact .inr fun e he => m.sched.yield_timerHeap ▸ he
  | waitEvent self fd events _ _ =>
      exact .inr fun e he => m.sched.waitEvent_timerHeap fd events ▸ he
  | send self ch val _ hself =>
      exact .inr fun e he => (send_frame hself ch (m.chans ch) val).2.2 ▸ he
  | recv self ch _ hself => exact .inr fun e he => (recv_frame hself ch (m.chans ch)).2.1 ▸ he
  | reap _ => exact .inr fun e he => (reap_frame m.sched).2.2.1 ▸ he
  | eventWake fd _ _ _ => exact .inr fun e he => (wakeFd_frame m.sched fd).2.1 ▸ he
  | _ => exact .inr fun _ he => he

/-- The turns and the queue behind them only grow at the end. -/
theorem turns_queue_step (hs : Stepped H m a m') (turns : List CoroPtr) :
    ∃ new, turns ++ m.turnOf a ++ m'.sched.readyQueue = turns ++ m.sched.readyQueue ++ new := by
  obtain ⟨new, hnew⟩ := fifo_step hs
  exact ⟨new, by rw [List.append_assoc, List.append_assoc, hnew]⟩

/-- **Step lemma.** -/
theorem Waking.step (hw : Waking e f m turns) (hI : Tidy m) (hlt : e.expireMs < f.expireMs)
    (hs : Stepped H m a m') : Waking e f m' (turns ++ m.turnOf a) := by
  obtain ⟨new, hnew⟩ := turns_queue_step hs turns
  rcases hI.timers_step hs with ⟨now, hsched, hturn, -⟩ | hkeeps
  · rw [hturn, List.append_nil]
    exact hw.fire hI hlt hsched
  · cases hw with
    | both he hf hfresh => exact .both (hkeeps e he) (hkeeps f hf) (hI.sleeper_turn hf hfresh)
    | first he hf hfresh =>
        refine .first ?_ (hkeeps f hf) (hI.sleeper_turn hf hfresh)
        rw [hnew]
        exact List.mem_append_left _ he
    | done h =>
        apply Waking.done
        rw [hnew]
        exact h.append _

/-- **Who is to wake first has his turn first.** In every run, of two coroutines that sleep
    at the same moment: whenever the one with the later deadline has had a turn, the other
    one has had one before. -/
theorem sleepers_in_order (pipeReadFd : Fd) (pipeCap : ℕ+) (junk : Coroutine τ α)
    (hrun : Run (step H) anyStep (init pipeReadFd pipeCap junk) m)
    (he : e ∈ m.sched.timerHeap) (hf : f ∈ m.sched.timerHeap) (hlt : e.expireMs < f.expireMs)
    (hrun' : TurnsRun H (m, []) (m', turns)) (hturn : f.co ∈ turns) :
    Before e.co f.co turns := by
  have hI := (tidy_init pipeReadFd pipeCap junk).run hrun
  have hw : Waking e f m' turns := by
    refine (hrun'.invariant (P := fun t => Tidy t.1 ∧ Waking e f t.1 t.2)
      ⟨hI, .both he hf List.not_mem_nil⟩ ?_).2
    rintro t b t' ⟨hIt, hw⟩ hs -
    obtain ⟨hstep, hlog⟩ := logged_eq_some_iff.mp hs
    rw [hlog]
    exact ⟨hIt.step (step_cases hstep), hw.step hIt hlt (step_cases hstep)⟩
  cases hw with
  | both _ _ hfresh => exact absurd hturn hfresh
  | first _ _ hfresh => exact absurd hturn hfresh
  | done h => exact h.of_append hturn

/-! ## Blocking in `epoll_wait` -/

/-- The clock readings of a step. -/
def readingOf (_ : Machine τ α) : Act τ α → List Int64
  | .fireTimers now | .lastTimers now => [now]
  | _ => []

/-- Before `epoll_wait` the queue is empty, and the last reading of the clock is earlier than
    every deadline. -/
structure Idle (m : Machine τ α) (readings : List Int64) : Prop where
  queue : m.pc = .polling → m.sched.readyQueue = []
  timers : m.pc = .polling → ∃ now, readings.getLast? = some now ∧
    ∀ g ∈ m.sched.timerHeap, now < g.expireMs

/-- **Step lemma.** -/
theorem Idle.step {readings : List Int64} (hI : Idle m readings) (htidy : Tidy m)
    (hs : Stepped H m a m') : Idle m' (readings ++ m.readingOf a) := by
  have haway : m'.pc ≠ .polling → Idle m' (readings ++ m.readingOf a) := fun h =>
    ⟨fun hpc => absurd hpc h, fun hpc => absurd hpc h⟩
  cases hs with
  | fireTimers now _ =>
      -- every due timer would have put its owner into the queue
      obtain ⟨hheap, hqueue, -⟩ := fireTimers_eq H now m.sched
      obtain ⟨-, -, hleft, -⟩ := popDue_spec H now htidy.heap
      simp only [Machine.goto]
      refine ⟨fun hpc => ?_, fun _ => ⟨now, by simp [readingOf], fun g hg => ?_⟩⟩
      · split at hpc
        next hempty => exact List.isEmpty_iff.mp hempty
        next => cases hpc
      · rw [hheap, hleft.mem_iff, List.mem_filter] at hg
        exact Int64.not_le.mp (by simpa [due] using hg.2)
  | postAppend _ _ _ | postWrite _ _ =>
      show Idle _ (readings ++ [])
      rw [List.append_nil]
      exact ⟨hI.queue, hI.timers⟩
  -- no other step ends before `epoll_wait`
  | pipeRead _ hpc _ => exact haway (by simp [hpc])
  | recv self ch _ _ =>
      apply haway
      simp only [Machine.goto]
      split <;> simp
  | epollFail eintr _ => cases eintr <;> exact haway (by simp [Machine.goto])
  | _ => exact haway (by simp [Machine.goto])

/-- **`run` blocks only when there is nothing else to do.** In every run without shared
    waiting that comes to `epoll_wait`: no coroutine is ready, and each unfinished one is
    registered for its descriptor, sleeps until after the last clock reading, or is blocked
    on a channel. -/
theorem idle_before_epoll_wait (pipeReadFd : Fd) (pipeCap : ℕ+) (junk : Coroutine τ α)
    {readings : List Int64}
    (hrun : Run (logged (step H) readingOf) (unlogged fun _ _ m' => m'.sched.Exclusive)
      (init pipeReadFd pipeCap junk, []) (m, readings)) (hpc : m.pc = .polling) :
    m.sched.readyQueue = [] ∧ m.sched.runningCoro = none ∧
      ∃ now, readings.getLast? = some now ∧ ∀ p, m.sched.Live p →
        (∃ fd, m.sched.ParkedOn p fd ∧ m.sched.waitingMap.lookup fd = some p) ∨
        (∃ g ∈ m.sched.timerHeap, g.co = p ∧ now < g.expireMs) ∨
        (∃ ch, m.sched.BlockedSender p ch ∧ (m.chans ch).sendWaiter = some p) ∨
        ∃ ch, m.sched.BlockedReceiver p ch ∧ (m.chans ch).recvWaiter = some p := by
  obtain ⟨hplaced, -⟩ := (placed_init pipeReadFd pipeCap junk).run hrun.forget
  have hI : Idle m readings := by
    refine (hrun.invariant (P := fun t => Tidy t.1 ∧ Idle t.1 t.2)
      ⟨tidy_init pipeReadFd pipeCap junk, ?_⟩ ?_).2
    · constructor <;> intro h <;> cases h
    · rintro t b t' ⟨hIt, hidle⟩ hs -
      obtain ⟨hstep, hlog⟩ := logged_eq_some_iff.mp hs
      rw [hlog]
      exact ⟨hIt.step (step_cases hstep), hidle.step hIt (step_cases hstep)⟩
  obtain ⟨now, hnow, htimers⟩ := hI.timers hpc
  have hqueue := hI.queue hpc
  have hnone : m.sched.runningCoro = none := by
    have hrunning := hplaced.running
    rw [hpc] at hrunning
    exact hrunning
  refine ⟨hqueue, hnone, now, hnow, fun p hlive => ?_⟩
  obtain ⟨pl, hpl⟩ := Option.ne_none_iff_exists'.mp (hplaced.exact.homed p hlive)
  have hcount := hplaced.exact.count_eq hpl pl
  rw [if_pos rfl] at hcount
  cases pl with
  | runningCoro => simp [occurrences, hnone] at hcount
  | readyQueue => simp [occurrences, hqueue] at hcount
  | waitingMap fd =>
      exact .inl ⟨fd, parkedOn_iff_homeOf.mpr hpl, by simpa [occurrences] using hcount⟩
  | timerHeap =>
      have hpos : 0 < m.sched.occurrences m.chans .timerHeap p := by
        rw [hcount]
        exact Nat.one_pos
      have hmem : p ∈ m.sched.timerHeap.map TimerEntry.co := List.count_pos_iff.mp hpos
      obtain ⟨g, hg, hco⟩ := List.mem_map.mp hmem
      exact .inr (.inl ⟨g, hg, hco, htimers g hg⟩)
  | sendWaiter ch =>
      refine .inr (.inr (.inl ⟨ch, blockedSender_iff_homeOf.mpr hpl, ?_⟩))
      simpa [occurrences] using hcount
  | recvWaiter ch =>
      refine .inr (.inr (.inr ⟨ch, blockedReceiver_iff_homeOf.mpr hpl, ?_⟩))
      simpa [occurrences] using hcount

end Sleepers

/-- Two coroutines, of which the second one sleeps for the shorter time. -/
theorem sleepers_in_order_two :
    ∃ (m m' : Machine Nat Nat) (turns : List CoroPtr),
      Run (step sortedTimers) anyStep (init 3 64 ⟨.entry, 0, .ready, 0⟩) m ∧
      TurnsRun sortedTimers (m, []) (m', turns) ∧ 0 ∈ turns ∧ Before 1 0 turns := by
  -- both sleep, their timers are fired, and each has a turn
  let start : Machine Nat Nat := init 3 64 ⟨.entry, 0, .ready, 0⟩
  let asleep := exec (checked (step sortedTimers) anyStep) start [.create 7, .create 8, .run,
    .readyLoop, .sleep 0 20, .reap, .readyLoop, .sleep 0 10, .reap]
  have hrun : Run (step sortedTimers) anyStep start (asleep.getD start) :=
    run_getD_of_exec (by decide +kernel)
  obtain ⟨⟨m', turns⟩, hrun', hturns⟩ := exists_run_of_exec
    (logged (step sortedTimers) turnOf) (unlogged anyStep) (fun t => decide (0 ∈ t.2))
    (asleep.getD start, []) [.readyLoop, .fireTimers 30, .readyLoop, .finish, .reap, .readyLoop]
    (by decide +kernel)
  have he : ⟨10, 1⟩ ∈ (asleep.getD start).sched.timerHeap := by decide +kernel
  have hf : ⟨20, 0⟩ ∈ (asleep.getD start).sched.timerHeap := by decide +kernel
  have hturn : 0 ∈ turns := of_decide_eq_true hturns
  exact ⟨_, m', turns, hrun, hrun', hturn,
    sleepers_in_order (e := ⟨10, 1⟩) (f := ⟨20, 0⟩) 3 64 _ hrun he hf (by decide) hrun' hturn⟩

/-- One coroutine waits for a descriptor, another one is asleep. -/
theorem idle_before_epoll_wait_asleep :
    ∃ (m : Machine Nat Nat) (readings : List Int64),
      Run (logged (step sortedTimers) readingOf) (unlogged fun _ _ m' => m'.sched.Exclusive)
        (init 3 64 ⟨.entry, 0, .ready, 0⟩, []) (m, readings) ∧ m.pc = .polling ∧
      m.sched.readyQueue = [] ∧ m.sched.runningCoro = none := by
  obtain ⟨⟨m, readings⟩, hrun, hend⟩ := exists_run_of_exec (logged (step sortedTimers) readingOf)
    (unlogged fun _ _ m' => m'.sched.Exclusive) (fun t => decide (t.1.pc = .polling))
    ((init 3 64 ⟨.entry, 0, .ready, 0⟩ : Machine Nat Nat), [])
    [.create 7, .create 8, .run, .readyLoop, .waitEvent 9 EPOLLIN, .reap, .readyLoop,
      .sleep 0 100, .reap, .readyLoop, .fireTimers 5]
    (by decide +kernel)
  have hpc : m.pc = .polling := of_decide_eq_true hend
  obtain ⟨hready, hnone, -⟩ := idle_before_epoll_wait 3 64 _ hrun hpc
  exact ⟨m, readings, hrun, hpc, hready, hnone⟩

end Machine

end CoroutineHttp.Core
