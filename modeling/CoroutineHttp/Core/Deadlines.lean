/-
  CoroutineHttp.Core.Deadlines

  Deadlines as 64-bit sums and differences: whether a sleeper can be woken before its time,
  and whether `epoll_wait` can be given more time than the earliest sleeper has.
-/

import Mathlib.Algebra.Group.Int.Defs
import CoroutineHttp.Core.Timers
import CoroutineHttp.Core.Occupancy

namespace CoroutineHttp.Core

open CoroutineHttp.Library

universe u v

variable {τ : Type u} {α : Type v}

/-! ## Arithmetic -/

section Arithmetic

variable {a b : Int64}

theorem toInt_add_of_lt (hb : 0 < b.toInt) (h : a.toInt + b.toInt < 2 ^ 63) :
    (a + b).toInt = a.toInt + b.toInt := by
  have ha := a.le_toInt
  rw [Int64.toInt_add, Int.bmod_eq_of_le] <;> omega

/-- A sum beyond the range wraps round, and is not above its first term. -/
theorem toInt_add_le_of_le (h : 2 ^ 63 ≤ a.toInt + b.toInt) : (a + b).toInt ≤ a.toInt := by
  have ha := a.toInt_lt
  have hb := b.toInt_lt
  rw [Int64.toInt_add, Int.bmod_def]
  split <;> omega

theorem toInt_sub_of_nonneg (ha : 0 ≤ a.toInt) (hb : 0 ≤ b.toInt) :
    (a - b).toInt = a.toInt - b.toInt := by
  have halt := a.toInt_lt
  have hblt := b.toInt_lt
  rw [Int64.toInt_sub, Int.bmod_eq_of_le] <;> omega

/-- Narrowing never enlarges, and gives a negative number only beyond 2^31. -/
theorem toInt_narrowed (ha : 0 ≤ a.toInt) :
    a.toInt32.toInt ≤ a.toInt ∧ (a.toInt32.toInt < 0 → 2 ^ 31 ≤ a.toInt) := by
  rw [Int64.toInt_toInt32, Int.bmod_def]
  split <;> omega

end Arithmetic

/-! ## The timeout of `epoll_wait` -/

namespace Scheduler

variable {s : Scheduler τ α} {now : Int64}

/-- Away from the empty heap the timeout is the time left, cut to 32 bits. -/
theorem nextTimeoutMs_cons {front : TimerEntry} {rest : List TimerEntry}
    (hs : s.timerHeap = front :: rest) (hnow : 0 ≤ now) (hfront : 0 ≤ front.expireMs) :
    ∃ left : Int64, s.nextTimeoutMs now = left.toInt32 ∧
      left.toInt = max 0 (front.expireMs.toInt - now.toInt) := by
  rw [Int64.le_iff_toInt_le] at hnow hfront
  have hdiff := toInt_sub_of_nonneg hfront hnow
  refine ⟨if 0 < front.expireMs - now then front.expireMs - now else 0, ?_, ?_⟩
  · rw [nextTimeoutMs, hs]
  rw [← hdiff]
  split
  next hpos => exact (max_eq_right (Int64.le_iff_toInt_le.mp (Int64.le_of_lt hpos))).symm
  next hneg => exact (max_eq_left (Int64.le_iff_toInt_le.mp (Int64.not_lt.mp hneg))).symm

/-- **`epoll_wait` does not oversleep.** For deadlines and a clock that are not negative, the
    timeout is not negative either, and no longer than any timer has left, whatever the
    cast to `int` makes of the difference. -/
theorem epollTimeout_bounds (hheap : IsHeap timerAfter s.timerHeap) (hnow : 0 ≤ now)
    (hdeadlines : ∀ e ∈ s.timerHeap, 0 ≤ e.expireMs) :
    0 ≤ (s.epollTimeout now).toInt ∧
      ∀ e ∈ s.timerHeap, (s.epollTimeout now).toInt ≤ max 0 (e.expireMs.toInt - now.toInt) := by
  have hfifty : (50 : Int32).toInt = 50 := rfl
  have hnonneg : 0 ≤ (s.epollTimeout now).toInt := by
    rw [epollTimeout]
    split
    next => decide
    next hneg => exact Int32.le_iff_toInt_le.mp (Int32.not_lt.mp hneg)
  refine ⟨hnonneg, fun e he => ?_⟩
  cases hs : s.timerHeap with
  | nil => simp [hs] at he
  | cons front rest =>
      rw [hs] at hheap hdeadlines he
      obtain ⟨left, htimeout, hleft⟩ :=
        nextTimeoutMs_cons hs hnow (hdeadlines front List.mem_cons_self)
      have hfront : front.expireMs.toInt ≤ e.expireMs.toInt :=
        Int64.le_iff_toInt_le.mp (front_le hheap e he)
      obtain ⟨hle, hneg⟩ := toInt_narrowed (a := left) (by omega)
      have hbound : (s.epollTimeout now).toInt ≤ left.toInt := by
        rw [epollTimeout, htimeout]
        split
        -- a negative timeout stands for at least 2^31 ms
        next h =>
          have := hneg (Int32.lt_iff_toInt_lt.mp h)
          omega
        next => exact hle
      omega

/-- A timer more than 2^32 ms away, of which the cast leaves 10 ms. -/
theorem epollTimeout_bounds_far :
    let s : Scheduler Unit Unit :=
      { (Machine.init 3 1 ⟨.entry, (), .ready, 0⟩ : Machine Unit Unit).sched with
        timerHeap := [⟨4294967396, 0⟩, ⟨4294967400, 1⟩] }
    0 ≤ (s.epollTimeout 90).toInt ∧
      ∀ e ∈ s.timerHeap, (s.epollTimeout 90).toInt ≤ max 0 (e.expireMs.toInt - 90) := by
  apply epollTimeout_bounds
  · exact isHeap_of_pairwise (by decide)
  · decide
  · decide

/-! ## Entries of the heap -/

theorem mem_of_mem_fireTimers (H : StdHeap timerAfter) (hheap : IsHeap timerAfter s.timerHeap)
    {e : TimerEntry} (he : e ∈ (s.fireTimers H now).1.timerHeap) : e ∈ s.timerHeap := by
  rw [(fireTimers_eq H now s).1] at he
  exact (List.mem_filter.mp ((popDue_spec H now hheap).2.2.1.mem_iff.mp he)).1

/-- After `fire_timers` a coroutine still waits, unless an entry of it was due. -/
theorem fireTimers_waiting (H : StdHeap timerAfter) (hheap : IsHeap timerAfter s.timerHeap)
    (now : Int64) {p : CoroPtr} (hp : (s.coros p).state = .waiting) :
    ((s.fireTimers H now).1.coros p).state = .waiting ∨
      ∃ e ∈ s.timerHeap, e.co = p ∧ e.expireMs ≤ now := by
  refine (fireTimers_rule H (P := fun s' => (∀ e ∈ s'.timerHeap, e ∈ s.timerHeap) ∧
    ((s'.coros p).state = .waiting ∨ ∃ e ∈ s.timerHeap, e.co = p ∧ e.expireMs ≤ now)) ?_ s hheap
    ⟨fun _ he => he, .inl hp⟩).1.2
  rintro s' front rest rest' ⟨hsub, hstate⟩ hs' hperm - hdue
  refine ⟨fun e he => hsub e (hs' ▸ List.mem_cons_of_mem _ (hperm.mem_iff.mp he)), ?_⟩
  by_cases hco : front.co = p
  · exact .inr ⟨front, hsub front (hs' ▸ List.mem_cons_self), hco, hdue⟩
  · refine hstate.imp_left fun hwaiting => ?_
    simpa [makeReady, setState, Ne.symm hco] using hwaiting

/-- A coroutine with an entry that is due is READY afterwards. -/
theorem fireTimers_ready_of_due (H : StdHeap timerAfter) (hheap : IsHeap timerAfter s.timerHeap)
    {e : TimerEntry} (he : e ∈ s.timerHeap) (hdue : e.expireMs ≤ now) :
    ((s.fireTimers H now).1.coros e.co).state = .ready := by
  apply fireTimers_ready H now s e
  rw [(popDue_spec H now hheap).1.mem_iff, List.mem_filter]
  exact ⟨he, decide_eq_true hdue⟩

/-- The heap after a `sleep` that does not merely yield. -/
theorem mem_sleep (H : StdHeap timerAfter) (hheap : IsHeap timerAfter s.timerHeap)
    {p : CoroPtr} (hrun : s.runningCoro = some p) {ms : Int64} (hms : 0 < ms) {e : TimerEntry} :
    e ∈ (s.sleep H now ms).timerHeap ↔ e ∈ s.timerHeap ∨ e = ⟨now + ms, p⟩ := by
  have hperm := (H.push_spec s.timerHeap ⟨now + ms, p⟩ hheap).1
  rw [sleep_pos H hrun now hms]
  exact hperm.mem_iff.trans (by rw [List.mem_append, List.mem_singleton])

end Scheduler

namespace Machine

open Scheduler

section Sleeping

variable [Inhabited α] {H : StdHeap timerAfter} {m m' : Machine τ α} {a : Act τ α}

/-- A timer that a step adds belongs to the coroutine that runs. -/
theorem mem_timerHeap_step (hI : Tidy m) (hs : Stepped H m a m') {e : TimerEntry}
    (he : e ∈ m'.sched.timerHeap) :
    e ∈ m.sched.timerHeap ∨ (m.sched.coros e.co).state = .running := by
  cases hs with
  | sleep self now ms hpc hself =>
      by_cases hms : 0 < ms
      · apply ((mem_sleep H hI.heap hself hms).mp he).imp_right
        rintro rfl
        show (m.sched.coros self).state = .running
        exact hI.state_running hpc hself
      · have hyield := sleep_nonpos H m.sched now (Int64.not_lt.mp hms)
        rw [← yield_timerHeap, ← hyield]
        exact .inl he
  | fireTimers now _ | lastTimers now _ => exact .inl (mem_of_mem_fireTimers H hI.heap he)
  -- the other steps leave the timers as they are
  | readyNext p rest _ _ => exact .inl ((switchTo_frame m.sched p rest).2.1 ▸ he)
  | yield self _ _ => exact .inl (m.sched.yield_timerHeap ▸ he)
  | waitEvent self fd events _ _ => exact .inl (m.sched.waitEvent_timerHeap fd events ▸ he)
  | send self ch val _ hself => exact .inl ((send_frame hself ch (m.chans ch) val).2.2 ▸ he)
  | recv self ch _ hself => exact .inl ((recv_frame hself ch (m.chans ch)).2.1 ▸ he)
  | reap _ => exact .inl ((reap_frame m.sched).2.2.1 ▸ he)
  | eventWake fd _ _ _ => exact .inl ((wakeFd_frame m.sched fd).2.1 ▸ he)
  | _ => exact .inl he

/-- A run throughout which `p` waits. -/
abbrev WaitingRun (H : StdHeap timerAfter) (p : CoroPtr) (m m' : Machine τ α) : Prop :=
  Run (step H) (fun _ _ m' => (m'.sched.coros p).state = .waiting) m m'

/-- The next step can be a call of `fire_timers` at clock reading `now` that makes `p`
    ready. -/
def Wakes (H : StdHeap timerAfter) (m : Machine τ α) (p : CoroPtr) (now : Int64) : Prop :=
  ∃ a m', (a = .fireTimers now ∨ a = .lastTimers now) ∧ step H m a = some m' ∧
    (m'.sched.coros p).state = .ready

/-- `p` waits, and its timers are for `deadline`. -/
structure Sleeping (p : CoroPtr) (deadline : Int64) (m : Machine τ α) : Prop where
  tidy : Tidy m
  waiting : (m.sched.coros p).state = .waiting
  entries : ∀ e ∈ m.sched.timerHeap, e.co = p → e.expireMs = deadline

variable {p : CoroPtr} {deadline now : Int64}

/-- **Step lemma.** As long as `p` waits, it gets no other timer. -/
theorem Sleeping.step (hI : Sleeping p deadline m) (hs : step H m a = some m')
    (hwaiting : (m'.sched.coros p).state = .waiting) : Sleeping p deadline m' := by
  have hstep := step_cases hs
  refine ⟨hI.tidy.step hstep, hwaiting, fun e he hco => ?_⟩
  rcases mem_timerHeap_step hI.tidy hstep he with hold | hrunning
  · exact hI.entries e hold hco
  · rw [hco, hI.waiting] at hrunning
    cases hrunning

/-- **Run lemma.** -/
theorem Sleeping.run (hI : Sleeping p deadline m) (hrun : WaitingRun H p m m') :
    Sleeping p deadline m' :=
  hrun.invariant hI fun _ _ _ hI hs hwaiting => hI.step hs hwaiting

/-- Both calls of `fire_timers`. -/
theorem sched_of_fires (ha : a = .fireTimers now ∨ a = .lastTimers now)
    (hs : Machine.step H m a = some m') : m'.sched = (m.sched.fireTimers H now).1 := by
  rcases ha with rfl | rfl
  · cases step_cases hs
    rfl
  · cases step_cases hs
    rfl

/-- A sleeper is woken when its deadline has come, by the order of 64-bit numbers. -/
theorem Sleeping.due_of_wakes (hI : Sleeping p deadline m) (hwakes : Wakes H m p now) :
    deadline ≤ now := by
  obtain ⟨a, m', ha, hs, hready⟩ := hwakes
  rw [sched_of_fires ha hs] at hready
  rcases fireTimers_waiting H hI.tidy.heap now hI.waiting with hwaiting | ⟨e, he, hco, hdue⟩
  · rw [hready] at hwaiting
    cases hwaiting
  · exact hI.entries e he hco ▸ hdue

/-- What `sleep` leaves. -/
theorem sleeping_of_sleep {m₁ : Machine τ α} {t ms : Int64} (hI : Tidy m)
    (hself : m.sched.runningCoro = some p) (hms : 0 < ms)
    (hs : Machine.step H m (.sleep t ms) = some m₁) :
    Sleeping p (t + ms) m₁ ∧ ⟨t + ms, p⟩ ∈ m₁.sched.timerHeap ∧ m₁.pc = .switched := by
  have hstep := step_cases hs
  have htidy := hI.step hstep
  cases hstep with
  | sleep self _ _ hpc hrun =>
      obtain rfl : self = p := Option.some.inj (hrun.symm.trans hself)
      have hmem : ∀ e, e ∈ (m.sched.sleep H t ms).timerHeap ↔
          e ∈ m.sched.timerHeap ∨ e = ⟨t + ms, self⟩ := fun e => mem_sleep H hI.heap hself hms
      refine ⟨⟨htidy, ?_, fun e he hco => ?_⟩, (hmem _).mpr (.inr rfl), rfl⟩
      · simp [Machine.goto, sleep_pos H hself t hms, swapOut, saveCtx, pushTimer, setState]
      · rcases (hmem e).mp he with hold | rfl
        -- who runs has no timer
        · have hocc : m.sched.occurrences m.chans .timerHeap e.co ≠ 0 :=
            (List.count_pos_iff.mpr (List.mem_map_of_mem hold)).ne'
          exact absurd hco (hI.once.ne_running hself hocc (by simp))
        · rfl

/-- One turn of the ready loop, whose coroutine returns at once. -/
theorem ready_turn {q : CoroPtr} {rest : List CoroPtr} (hI : Tidy m) (hpc : m.pc = .readyLoop)
    (hq : m.sched.readyQueue = q :: rest) (hp : (m.sched.coros p).state = .waiting) :
    ∃ m', WaitingRun H p m m' ∧ m'.pc = .readyLoop ∧ m'.sched.readyQueue = rest ∧
      m'.sched.timerHeap = m.sched.timerHeap ∧ (m'.sched.coros p).state = .waiting := by
  have hne : p ≠ q := by
    rintro rfl
    have hready := (hI.once.ready (hq ▸ List.mem_cons_self)).2.1
    rw [hp] at hready
    cases hready
  obtain ⟨-, hheap, hself, -⟩ := switchTo_frame m.sched q rest
  have hqueue := (switchTo_shared m.sched q rest).1
  have hother := switchTo_other (s := m.sched) rest hne
  let s₁ := m.sched.switchTo q rest
  let s₂ := s₁.setState q .done
  have hp₁ : (s₁.coros p).state = .waiting := by rw [hother, hp]
  have hp₂ : (s₂.coros p).state = .waiting := by simp [s₂, setState, hne, hp₁]
  obtain ⟨hcoros, -, hheap', -⟩ := reap_frame s₂
  have hp₃ : (s₂.reap.coros p).state = .waiting := by rw [hcoros, hp₂]
  have h₁ : step H m .readyLoop = some (m.goto s₁ .coroutine) := by
    simp [Machine.step, hpc, stepRun, hq, s₁]
  have h₂ : step H (m.goto s₁ .coroutine) .finish = some (m.goto s₂ .switched) := by
    simp [Machine.step, Machine.goto, hself, stepCoroutine, s₁, s₂]
  have h₃ : step H (m.goto s₂ .switched) .reap = some (m.goto s₂.reap .readyLoop) := by
    simp [Machine.step, Machine.goto, stepRun]
  exact ⟨_, ((Run.single _ h₁ hp₁).tail _ h₂ hp₂).tail _ h₃ hp₃, rfl,
    (reap_queues s₂).1.trans hqueue, hheap'.trans hheap, hp₃⟩

/-- The coroutines that are ready may all return, and `run` comes to its timers. -/
theorem reaches_timers (hI : Tidy m) (hpc : m.pc = .readyLoop)
    (hp : (m.sched.coros p).state = .waiting) :
    ∃ m', WaitingRun H p m m' ∧ m'.pc = .timers ∧ m'.sched.timerHeap = m.sched.timerHeap := by
  -- on the ready queue
  generalize hq : m.sched.readyQueue = queue
  induction queue generalizing m with
  | nil =>
      have hs : step H m .readyLoop = some (m.goto m.sched .timers) := by
        simp [Machine.step, hpc, stepRun, hq]
      exact ⟨_, .single _ hs hp, rfl, rfl⟩
  | cons q rest ih =>
      obtain ⟨m₁, hturn, hpc₁, hq₁, hheap₁, hp₁⟩ := ready_turn (H := H) hI hpc hq hp
      obtain ⟨m', hrest, hpc', hheap'⟩ := ih (hI.run hturn) hpc₁ hp₁ hq₁
      exact ⟨m', hturn.trans hrest, hpc', hheap'.trans hheap₁⟩

/-- A deadline that has wrapped wakes its sleeper with the clock where it was. -/
theorem wakes_of_wrapped {m₁ : Machine τ α} {t ms : Int64} (hI : Tidy m)
    (hself : m.sched.runningCoro = some p) (hms : 0 < ms)
    (hs : Machine.step H m (.sleep t ms) = some m₁) (hwrap : 2 ^ 63 ≤ t.toInt + ms.toInt) :
    ∃ m₂, WaitingRun H p m₁ m₂ ∧ Wakes H m₂ p t := by
  obtain ⟨hsleeping, hmem, hpc₁⟩ := sleeping_of_sleep hI hself hms hs
  obtain ⟨hcoros, -, hheap, -⟩ := reap_frame m₁.sched
  have hreap : step H m₁ .reap = some (m₁.goto m₁.sched.reap .readyLoop) := by
    simp [Machine.step, hpc₁, stepRun]
  have hfirst : WaitingRun H p m₁ (m₁.goto m₁.sched.reap .readyLoop) :=
    .single _ hreap (by rw [Machine.goto, hcoros, hsleeping.waiting])
  have hsleeping' := hsleeping.run hfirst
  obtain ⟨m₂, hrest, hpc₂, hheap₂⟩ :=
    reaches_timers (H := H) hsleeping'.tidy rfl hsleeping'.waiting
  have hmem₂ : ⟨t + ms, p⟩ ∈ m₂.sched.timerHeap := by rw [hheap₂, Machine.goto, hheap]; exact hmem
  have hdue : t + ms ≤ t := Int64.le_iff_toInt_le.mpr (toInt_add_le_of_le hwrap)
  have hready := fireTimers_ready_of_due H (hsleeping'.run hrest).tidy.heap hmem₂ hdue
  have hfire : step H m₂ (.fireTimers t) = some (m₂.goto (m₂.sched.fireTimers H t).1
      (if (m₂.sched.fireTimers H t).1.readyQueue.isEmpty then .polling else .readyLoop)) := by
    simp [Machine.step, hpc₂, stepRun]
  exact ⟨m₂, hfirst.trans hrest, _, _, .inl rfl, hfire, hready⟩

/-- **Sleep.** In every run, a coroutine that calls `sleep(ms)` at clock reading `t` is woken
    by no `fire_timers` with an earlier reading than the integer `t + ms` if and only if
    this integer is a 64-bit number. -/
theorem sleep_not_early_iff (H : StdHeap timerAfter) (pipeReadFd : Fd) (pipeCap : ℕ+)
    (junk : Coroutine τ α) {m m₁ : Machine τ α} {p : CoroPtr} {t ms : Int64}
    (hrun : Run (Machine.step H) anyStep (init pipeReadFd pipeCap junk) m)
    (hself : m.sched.runningCoro = some p) (hms : 0 < ms)
    (hs : Machine.step H m (.sleep t ms) = some m₁) :
    (∀ m₂ now, WaitingRun H p m₁ m₂ → Wakes H m₂ p now → t.toInt + ms.toInt ≤ now.toInt) ↔
      t.toInt + ms.toInt < 2 ^ 63 := by
  have hI := (tidy_init pipeReadFd pipeCap junk).run hrun
  have hpos : 0 < ms.toInt := Int64.lt_iff_toInt_lt.mp hms
  constructor
  · intro hall
    by_contra hwrap
    obtain ⟨m₂, hwaiting, hwakes⟩ := wakes_of_wrapped hI hself hms hs (not_lt.mp hwrap)
    have := hall m₂ t hwaiting hwakes
    omega
  · intro hfits m₂ now hwaiting hwakes
    have hdue := ((sleeping_of_sleep hI hself hms hs).1.run hwaiting).due_of_wakes hwakes
    rw [← toInt_add_of_lt hpos hfits]
    exact Int64.le_iff_toInt_le.mp hdue

end Sleeping

/-- A coroutine that runs. -/
theorem exists_running :
    ∃ m : Machine Nat Nat,
      Run (Machine.step sortedTimers) anyStep (init 3 64 ⟨.entry, 0, .ready, 0⟩) m ∧
        m.pc = .coroutine ∧ m.sched.runningCoro = some 0 := by
  have hrun := (Run.refl _ : Run (Machine.step sortedTimers) anyStep
    (init 3 64 ⟨.entry, 0, .ready, 0⟩) (init 3 64 ⟨.entry, 0, .ready, 0⟩ : Machine Nat Nat))
    |>.tail (.create 7) rfl trivial |>.tail .run rfl trivial |>.tail .readyLoop rfl trivial
  exact ⟨_, hrun, rfl, rfl⟩

/-- It sleeps for five milliseconds from the clock reading 1. -/
theorem sleep_not_early_iff_five :
    ∃ m m₁ : Machine Nat Nat,
      Run (Machine.step sortedTimers) anyStep (init 3 64 ⟨.entry, 0, .ready, 0⟩) m ∧
      m.sched.runningCoro = some 0 ∧ Machine.step sortedTimers m (.sleep 1 5) = some m₁ ∧
      ((∀ m₂ now, WaitingRun sortedTimers 0 m₁ m₂ → Wakes sortedTimers m₂ 0 now →
          (1 : Int64).toInt + (5 : Int64).toInt ≤ now.toInt) ↔
        (1 : Int64).toInt + (5 : Int64).toInt < 2 ^ 63) := by
  obtain ⟨m, hrun, hpc, hself⟩ := exists_running
  have hs : Machine.step sortedTimers m (.sleep 1 5)
      = some (m.goto (m.sched.sleep sortedTimers 1 5) .switched) := by
    simp [Machine.step, hpc, hself, stepCoroutine]
  exact ⟨m, _, hrun, hself, hs, sleep_not_early_iff sortedTimers 3 64 _ hrun hself (by decide) hs⟩

/-- With the greatest delay there is it is woken at once. -/
theorem sleep_forever_early :
    ¬ ∀ (m m₁ m₂ : Machine Nat Nat) (p : CoroPtr) (t ms now : Int64),
      Run (Machine.step sortedTimers) anyStep (init 3 64 ⟨.entry, 0, .ready, 0⟩) m →
      m.sched.runningCoro = some p → 0 < ms → 0 ≤ t →
      Machine.step sortedTimers m (.sleep t ms) = some m₁ → WaitingRun sortedTimers p m₁ m₂ →
      Wakes sortedTimers m₂ p now → t.toInt + ms.toInt ≤ now.toInt := by
  intro hall
  obtain ⟨m, hrun, hpc, hself⟩ := exists_running
  have hs : Machine.step sortedTimers m (.sleep 1 Int64.maxValue)
      = some (m.goto (m.sched.sleep sortedTimers 1 Int64.maxValue) .switched) := by
    simp [Machine.step, hpc, hself, stepCoroutine]
  obtain ⟨m₂, hwaiting, hwakes⟩ := wakes_of_wrapped ((tidy_init 3 64 _).run hrun) hself
    (by decide) hs (by decide)
  exact absurd (hall m _ m₂ 0 1 Int64.maxValue 1 hrun hself (by decide) (by decide) hs hwaiting
    hwakes) (by decide)

end Machine

end CoroutineHttp.Core
