/-
  CoroutineHttp.Core.Turns

  Whose turn it is: the order in which `run` switches to the coroutines of one scheduler.

  The ready queue is a `Fifo`, and holds nobody twice, so a coroutine that is ready is
  switched to after those in front of it, each of which has one turn; sleepers have their
  turns in the order of their deadlines; and the function of a coroutine is entered on its
  first turn and on no other.  The turns of a run are its history (`turnOf`).
-/

import CoroutineHttp.Library.Fifo
import CoroutineHttp.Core.Timers
import CoroutineHttp.Core.Placement
import CoroutineHttp.Core.Post

namespace CoroutineHttp.Core

open CoroutineHttp.Library

universe u v

variable {τ : Type u} {α : Type v}

namespace Scheduler

section Operations

variable {s s' s'' : Scheduler τ α} {p : CoroPtr} {chans : ChanId → Channel α}

/-! ## The ready queue -/

theorem fifo_yield (s : Scheduler τ α) : Fifo s.readyQueue [] s.yield.readyQueue := by
  unfold Scheduler.yield
  split
  · exact .refl _
  · exact .of_append rfl

theorem fifo_sleep (H : StdHeap timerAfter) (now ms : Int64) :
    Fifo s.readyQueue [] (s.sleep H now ms).readyQueue := by
  unfold Scheduler.sleep
  split
  · exact .refl _
  · split
    · exact s.fifo_yield
    · exact .refl _

theorem fifo_waitEvent (fd : Fd) (events : UInt32) :
    Fifo s.readyQueue [] (s.waitEvent fd events).readyQueue := by
  unfold Scheduler.waitEvent
  split <;> exact .refl _

theorem fifo_wakeFd (fd : Fd) : Fifo s.readyQueue [] (s.wakeFd fd).readyQueue := by
  unfold Scheduler.wakeFd
  split
  · exact .refl _
  · exact .of_append rfl

theorem fifo_fireTimers (H : StdHeap timerAfter) (now : Int64) :
    Fifo s.readyQueue [] (s.fireTimers H now).1.readyQueue :=
  .of_append (fireTimers_eq H now s).2.1

theorem fifo_send (c : Channel α) (ch : ChanId) (val : α) :
    Fifo s.readyQueue [] (Channel.send s c ch p val).1.readyQueue := by
  have hslot : (Channel.writeSlot s c.recvSlot val).readyQueue = s.readyQueue := by
    unfold Channel.writeSlot
    split
    · rfl
    · split <;> rfl
  unfold Channel.send
  split
  next r _ =>
    -- the receiver first, then the sender
    have hwoken : Fifo s.readyQueue []
        ((Channel.writeSlot s c.recvSlot val).makeReady r).readyQueue :=
      ⟨[r], by simp [makeReady, hslot]⟩
    exact hwoken.trans (fifo_yield _)
  next => exact .refl _

theorem fifo_recv [Inhabited α] (c : Channel α) (ch : ChanId) :
    Fifo s.readyQueue [] (Channel.recv s c ch p).1.readyQueue := by
  unfold Channel.recv
  split
  · exact .of_append rfl
  · exact .refl _

/-! ## Coroutines that have not been started -/

/-- `p` is ready, and will be at the start of `co_entry`. -/
def Unstarted (s : Scheduler τ α) (p : CoroPtr) : Prop :=
  (s.coros p).state = .ready ∧ (s.coros p).ctx = .entry

/-- The same coroutines have not been started. -/
def SameUnstarted (s s' : Scheduler τ α) : Prop := ∀ q, s'.Unstarted q ↔ s.Unstarted q

namespace SameUnstarted

theorem of_same (h : s'.coros = s.coros) : SameUnstarted s s' := fun q => by
  rw [Unstarted, Unstarted, h]

theorem trans (h : SameUnstarted s s') (h' : SameUnstarted s' s'') : SameUnstarted s s'' :=
  fun q => (h' q).trans (h q)

/-- Only `p` changes, and it has been started before and after. -/
theorem of_others (hothers : ∀ q, q ≠ p → s'.coros q = s.coros q) (hp : ¬ s.Unstarted p)
    (hp' : ¬ s'.Unstarted p) : SameUnstarted s s' := fun q => by
  by_cases hq : q = p
  · subst hq
    exact iff_of_false hp' hp
  · rw [Unstarted, Unstarted, hothers q hq]

theorem suspend (hp : (s.coros p).state = .running) (st : State) {c : Ctx α}
    (hc : c ≠ .entry) : SameUnstarted s ((s.setState p st).swapOut p c) := by
  apply of_others (p := p)
  · intro q hq
    simp [swapOut, saveCtx, setState, hq]
  · simp [Unstarted, hp]
  · simp [Unstarted, swapOut, saveCtx, hc]

theorem makeReady (hp : (s.coros p).ctx ≠ .entry) : SameUnstarted s (s.makeReady p) := by
  apply of_others (p := p)
  · intro q hq
    simp [Scheduler.makeReady, setState, hq]
  · exact fun h => hp h.2
  · exact fun h => hp (by simpa [Scheduler.makeReady, setState] using h.2)

theorem yield (hrun : s.runningCoro = some p) (hp : (s.coros p).state = .running) :
    SameUnstarted s s.yield := by
  have hyield : s.yield.coros = ((s.setState p .ready).swapOut p .inYield).coros := by
    simp [Scheduler.yield, hrun, swapOut, saveCtx, Scheduler.makeReady]
  exact (suspend hp .ready (by simp)).trans (of_same hyield)

theorem writeSlot (slot : Option CoroPtr) (val : α) :
    SameUnstarted s (Channel.writeSlot s slot val) := by
  unfold Channel.writeSlot
  split
  · exact of_same rfl
  next r =>
    split
    next ch x hctx =>
      apply of_others (p := r)
      · intro q hq
        simp [saveCtx, hq]
      · simp [Unstarted, hctx]
      · simp [Unstarted, saveCtx]
    next => exact of_same rfl

end SameUnstarted

/-- What waits somewhere has been started. -/
theorem AtMostOnce.started (hI : AtMostOnce s chans) {pl : Place} (hpl : pl.state = .waiting)
    (hp : s.occurrences chans pl p ≠ 0) : (s.coros p).ctx ≠ .entry := by
  have hhome := hI.home_of_count pl hp
  have hlt := lt_of_homeOf hhome
  have hwaiting : (s.coros p).state = .waiting := by
    rw [← hpl]
    refine Live.state_eq ⟨hlt, not_done_of_homeOf hhome ?_⟩ hhome
    rintro rfl
    cases hpl
  intro hentry
  rw [homeOf, if_pos hlt, hwaiting, hentry] at hhome
  cases hhome

theorem AtMostOnce.unstarted_wakeFd (hI : AtMostOnce s chans) (fd : Fd) :
    SameUnstarted s (s.wakeFd fd) := by
  unfold Scheduler.wakeFd
  split
  · exact .of_same rfl
  next co hlook =>
    have hco : s.occurrences chans (.waitingMap fd) co ≠ 0 := by simp [occurrences, hlook]
    exact .makeReady (s := { s with waitingMap := s.waitingMap.erase fd }) (hI.started rfl hco)

theorem AtMostOnce.unstarted_fireTimers (hI : AtMostOnce s chans) (H : StdHeap timerAfter)
    (hheap : IsHeap timerAfter s.timerHeap) (now : Int64) :
    SameUnstarted s (s.fireTimers H now).1 := by
  refine (fireTimers_rule H (P := fun s' => AtMostOnce s' chans ∧ SameUnstarted s s') ?_ s hheap
    ⟨hI, .of_same rfl⟩).1.2
  rintro s' front rest rest' ⟨hI', hsame⟩ hq hperm - -
  have hfront : s'.occurrences chans .timerHeap front.co ≠ 0 := by simp [occurrences, hq]
  have hwoken : Shifts s' chans ({ s' with timerHeap := rest' }.makeReady front.co) chans :=
    hI'.wake .timerHeap hfront (by simp) rfl rfl rfl (occurrences_popTimer hq hperm)
  refine ⟨(hI'.shifts hwoken).once, hsame.trans ?_⟩
  exact .makeReady (s := { s' with timerHeap := rest' }) (hI'.started rfl hfront)

theorem AtMostOnce.unstarted_send (hI : AtMostOnce s chans) (hrun : s.runningCoro = some p)
    (hp : (s.coros p).state = .running) (ch : ChanId) (val : α) :
    SameUnstarted s (Channel.send s (chans ch) ch p val).1 := by
  unfold Channel.send
  split
  next r hr =>
    obtain ⟨hrun', hp'⟩ := writeSlot_running (s := s) (chans ch).recvSlot val p
    have hI' := (hI.shifts (.alike (alike_writeSlot (chans ch).recvSlot val))).once
    have hrecv : (Channel.writeSlot s (chans ch).recvSlot val).occurrences chans
        (.recvWaiter ch) r ≠ 0 := by simp [occurrences, hr]
    have hne : p ≠ r := (hI'.ne_running (hrun'.trans hrun) hrecv (by simp)).symm
    refine ((SameUnstarted.writeSlot _ val).trans (.makeReady (hI'.started rfl hrecv))).trans
      (.yield (p := p) ?_ ?_)
    · simpa [Scheduler.makeReady, setState] using hrun'.trans hrun
    · simpa [Scheduler.makeReady, setState, hne] using hp'.trans hp
  next => exact .suspend hp .waiting (by simp)

theorem AtMostOnce.unstarted_recv [Inhabited α] (hI : AtMostOnce s chans)
    (hp : (s.coros p).state = .running) (ch : ChanId) :
    SameUnstarted s (Channel.recv s (chans ch) ch p).1 := by
  unfold Channel.recv
  split
  next r hr =>
    have hsend : s.occurrences chans (.sendWaiter ch) r ≠ 0 := by simp [occurrences, hr]
    exact .makeReady (hI.started rfl hsend)
  next => exact .suspend hp .waiting (by simp)

theorem unstarted_sleep (H : StdHeap timerAfter) (hrun : s.runningCoro = some p)
    (hp : (s.coros p).state = .running) (now ms : Int64) :
    SameUnstarted s (s.sleep H now ms) := by
  by_cases hms : 0 < ms
  · rw [sleep_pos H hrun now hms]
    exact (SameUnstarted.suspend hp .waiting (by simp)).trans (.of_same rfl)
  · rw [sleep_nonpos H s now (Int64.not_lt.mp hms)]
    exact .yield hrun hp

theorem unstarted_waitEvent (hrun : s.runningCoro = some p) (hp : (s.coros p).state = .running)
    (fd : Fd) (events : UInt32) : SameUnstarted s (s.waitEvent fd events) := by
  have hcoros : (s.waitEvent fd events).coros
      = ((s.setState p .waiting).swapOut p (.inWaitEvent fd events)).coros := by
    simp [Scheduler.waitEvent, hrun]
  exact (SameUnstarted.suspend hp .waiting (by simp)).trans (.of_same hcoros)

/-- Switching to `p` starts it, and nobody else. -/
theorem unstarted_switchTo (s : Scheduler τ α) (p : CoroPtr) (rest : List CoroPtr)
    (q : CoroPtr) : (s.switchTo p rest).Unstarted q ↔ s.Unstarted q ∧ p ≠ q := by
  by_cases hq : q = p
  · subst hq
    simp [Unstarted, (switchTo_frame s q rest).2.2.2]
  · simp [Unstarted, switchTo_other rest hq, Ne.symm hq]

theorem unstarted_create (s : Scheduler τ α) (f : τ) {q : CoroPtr} (hq : q < s.allocs) :
    (s.create f).Unstarted q ↔ s.Unstarted q := by
  simp [Unstarted, Scheduler.create, Nat.ne_of_lt hq]

end Operations

end Scheduler

/-! ## Turns -/

namespace Machine

open Scheduler

/-- The coroutine that the step switches to, if it is one of the ready loop. -/
def turnOf (m : Machine τ α) : Act τ α → List CoroPtr
  | .readyLoop => m.sched.readyQueue.head?.toList
  | _ => []

/-- The ready queue holds nobody twice. -/
theorem Tidy.ready_nodup {m : Machine τ α} (hI : Tidy m) : m.sched.readyQueue.Nodup :=
  List.nodup_iff_count_le_one.mpr fun p =>
    (hI.once.count p .readyQueue).trans (by split <;> omega)

/-- Turns are given to coroutines that are ready. -/
theorem mem_readyQueue_of_turnOf {m : Machine τ α} {a : Act τ α} {p : CoroPtr}
    (hp : p ∈ m.turnOf a) : p ∈ m.sched.readyQueue := by
  unfold turnOf at hp
  split at hp
  · exact List.mem_of_mem_head? (Option.mem_toList.mp hp)
  · cases hp

section Turns

variable [Inhabited α] {H : StdHeap timerAfter} {m m' : Machine τ α} {a : Act τ α}
  {p q : CoroPtr}

/-- A run with the turns it gives. -/
abbrev TurnsRun (H : StdHeap timerAfter) : Machine τ α × List CoroPtr →
    Machine τ α × List CoroPtr → Prop :=
  Run (logged (step H) turnOf) (unlogged anyStep)

/-- **Step lemma of the queue.** -/
theorem fifo_step (hs : Stepped H m a m') :
    Fifo m.sched.readyQueue (m.turnOf a) m'.sched.readyQueue := by
  cases hs with
  | readyEmpty _ hq => simpa [turnOf, hq, Machine.goto] using Fifo.refl []
  | readyNext p rest _ hq =>
      rw [turnOf, hq]
      show Fifo (p :: rest) [p] (m.sched.switchTo p rest).readyQueue
      rw [(switchTo_shared m.sched p rest).1]
      exact .front p rest
  | createMain f _ | create _ f _ _ | drainNext f _ _ _ => exact .of_append rfl
  | yield _ _ _ => exact fifo_yield m.sched
  | waitEvent _ fd events _ _ => exact fifo_waitEvent fd events
  | sleep _ now ms _ _ => exact fifo_sleep H now ms
  | send self ch val _ _ => exact fifo_send (m.chans ch) ch val
  | recv self ch _ _ => exact fifo_recv (m.chans ch) ch
  | reap _ =>
      show Fifo m.sched.readyQueue [] m.sched.reap.readyQueue
      rw [(reap_queues m.sched).1]
      exact .refl _
  | fireTimers now _ | lastTimers now _ => exact fifo_fireTimers H now
  | eventWake fd _ _ _ => exact fifo_wakeFd fd
  | _ => exact .refl _

/-- **Run lemma of the queue.** -/
theorem fifo_run {s t : Machine τ α × List CoroPtr} (hrun : TurnsRun H s t)
    {before : List CoroPtr} (hlog : s.2 = before) :
    ∃ turns, t.2 = before ++ turns ∧ Fifo s.1.sched.readyQueue turns t.1.sched.readyQueue := by
  induction hrun with
  | refl => exact ⟨[], by simp [hlog], .refl _⟩
  | @tail t t' a _ hs _ ih =>
      obtain ⟨turns, hturns, hfifo⟩ := ih
      obtain ⟨hstep, hlog'⟩ := logged_eq_some_iff.mp hs
      refine ⟨turns ++ t.1.turnOf a, ?_, hfifo.trans (fifo_step (step_cases hstep))⟩
      rw [hlog', hturns, List.append_assoc]

/-- **Nobody is overtaken.** In every run, however it goes on from where `p` is ready with
    `before` in front of it: the coroutines of `before` have a turn each, one after the
    other, and then `p` has; or only some of them have had theirs, and `p` is ready yet. -/
theorem turns_in_order (pipeReadFd : Fd) (pipeCap : ℕ+) (junk : Coroutine τ α)
    (hrun : Run (step H) anyStep (init pipeReadFd pipeCap junk) m) {before after : List CoroPtr}
    (hq : m.sched.readyQueue = before ++ p :: after) {turns : List CoroPtr}
    (hrun' : TurnsRun H (m, []) (m', turns)) :
    (before ++ [p]).Nodup ∧
      (before ++ [p] <+: turns ∨
        turns <+: before ∧ p ∈ m'.sched.readyQueue ∧ (m'.sched.coros p).state = .ready) := by
  have hI := (tidy_init pipeReadFd pipeCap junk).run hrun
  obtain ⟨turns', hturns, hfifo⟩ := fifo_run hrun' rfl
  obtain rfl : turns = turns' := hturns
  have hnodup : (before ++ [p]).Nodup := by
    have hsub : (before ++ [p]).Sublist m.sched.readyQueue := by
      rw [hq]
      exact (List.Sublist.refl before).append (List.singleton_sublist.mpr List.mem_cons_self)
    exact hI.ready_nodup.sublist hsub
  refine ⟨hnodup, ?_⟩
  simp only [hq] at hfifo
  apply hfifo.turn.imp_right
  rintro ⟨hpre, hmem⟩
  exact ⟨hpre, hmem, ((hI.run hrun'.forget).once.ready hmem).2.1⟩

/-! ## First turns -/

/-- **Step lemma.** Of the coroutines there are, a step starts the one it switches to. -/
theorem Tidy.unstarted_step (hI : Tidy m) (hs : Stepped H m a m') (hq : q < m.sched.allocs) :
    m'.sched.Unstarted q ↔ m.sched.Unstarted q ∧ q ∉ m.turnOf a := by
  -- all steps but the turns of the ready loop
  have hquiet : m.sched.SameUnstarted m'.sched → m.turnOf a = [] →
      (m'.sched.Unstarted q ↔ m.sched.Unstarted q ∧ q ∉ m.turnOf a) := by
    intro hsame hturn
    rw [hturn, hsame q]
    simp
  cases hs with
  | readyEmpty _ hempty => simp [turnOf, hempty, Machine.goto]
  | readyNext p rest _ hready =>
      have hswitch := unstarted_switchTo m.sched p rest q
      simpa [turnOf, hready, Machine.goto, eq_comm] using hswitch
  | createMain f _ | create _ f _ _ | drainNext f _ _ _ =>
      have hcreate := unstarted_create m.sched f hq
      simpa [turnOf, Machine.goto] using hcreate
  | yield self hpc hself =>
      exact hquiet (.yield hself (hI.state_running hpc hself)) rfl
  | waitEvent self fd events hpc hself =>
      exact hquiet (unstarted_waitEvent hself (hI.state_running hpc hself) fd events) rfl
  | sleep self now ms hpc hself =>
      exact hquiet (unstarted_sleep H hself (hI.state_running hpc hself) now ms) rfl
  | send self ch val hpc hself =>
      exact hquiet (hI.once.unstarted_send hself (hI.state_running hpc hself) ch val) rfl
  | recv self ch hpc hself =>
      exact hquiet (hI.once.unstarted_recv (hI.state_running hpc hself) ch) rfl
  | finish self hpc hself =>
      have hst := hI.state_running hpc hself
      refine hquiet (.of_others (p := self) ?_ ?_ ?_) rfl
      · intro r hr
        simp [Machine.goto, setState, hr]
      · simp [Unstarted, hst]
      · simp [Unstarted, Machine.goto, setState]
  | reap _ => exact hquiet (.of_same (reap_frame m.sched).1) rfl
  | fireTimers now _ | lastTimers now _ =>
      exact hquiet (hI.once.unstarted_fireTimers H hI.heap now) rfl
  | eventWake fd _ _ _ => exact hquiet (hI.once.unstarted_wakeFd fd) rfl
  | _ => exact hquiet (.of_same rfl) rfl

/-- What a step creates has not been started. -/
theorem allocs_step (hs : Stepped H m a m') :
    m'.sched.allocs = m.sched.allocs ∨
      m'.sched.allocs = m.sched.allocs + 1 ∧ m'.sched.Unstarted m.sched.allocs := by
  have hnew : ∀ f : τ, (m.sched.create f).Unstarted m.sched.allocs := fun f => by
    simp [Unstarted, Scheduler.create]
  cases PostStepped.of_stepped hs with
  | spawn f _ _ h | drainNext f _ _ _ h =>
      subst h
      exact .inr ⟨rfl, hnew f⟩
  | away hsame _ _ _ _ _ _ _ _ => exact .inl hsame.allocs
  | enterPipe _ _ h | pipeEmpty _ _ h | pipeRead _ _ h | swapQueue _ _ h | drainDone _ _ h
  | postAppend _ _ _ h | postWrite _ h =>
      subst h
      exact .inl rfl

/-- The coroutines that have had a turn are those that have been started. -/
structure Begun (m : Machine τ α) (turns : List CoroPtr) : Prop where
  tidy : Tidy m
  known : ∀ p ∈ turns, p < m.sched.allocs
  fresh : ∀ p, p < m.sched.allocs → (m.sched.Unstarted p ↔ p ∉ turns)

/-- **Step lemma.** -/
theorem Begun.step {turns : List CoroPtr} (hI : Begun m turns) (hs : Stepped H m a m') :
    Begun m' (turns ++ m.turnOf a) := by
  have hallocs := allocs_step hs
  have hlt : ∀ q ∈ turns ++ m.turnOf a, q < m.sched.allocs := fun q hq =>
    (List.mem_append.mp hq).elim (hI.known q) fun hturn =>
      (hI.tidy.once.ready (mem_readyQueue_of_turnOf hturn)).1
  refine ⟨hI.tidy.step hs, fun q hq => ?_, fun q hq => ?_⟩
  · have hold := hlt q hq
    rcases hallocs with heq | ⟨heq, -⟩
    · exact heq ▸ hold
    · exact heq ▸ Nat.lt_succ_of_lt hold
  · rcases Nat.lt_or_ge q m.sched.allocs with hold | hge
    · rw [hI.tidy.unstarted_step hs hold, hI.fresh q hold, List.mem_append, not_or]
    -- the one the step has created
    · obtain ⟨heq, hnew⟩ : m'.sched.allocs = m.sched.allocs + 1 ∧
          m'.sched.Unstarted m.sched.allocs := hallocs.resolve_left (by omega)
      obtain rfl : q = m.sched.allocs := by omega
      exact iff_of_true hnew fun hmem => absurd (hlt _ hmem) (lt_irrefl _)

/-- **Run lemma.** -/
theorem begun_run {pipeReadFd : Fd} {pipeCap : ℕ+} {junk : Coroutine τ α}
    {turns : List CoroPtr} (hrun : TurnsRun H (init pipeReadFd pipeCap junk, []) (m, turns)) :
    Begun m turns := by
  refine hrun.invariant (P := fun t => Begun t.1 t.2) ⟨tidy_init pipeReadFd pipeCap junk, ?_, ?_⟩ ?_
  · intro p hp
    cases hp
  · intro p hp
    exact absurd hp (Nat.not_lt_zero p)
  · intro t b t' hI hs _
    obtain ⟨hstep, hlog⟩ := logged_eq_some_iff.mp hs
    rw [hlog]
    exact hI.step (step_cases hstep)

/-- **A function is entered once.** In every run: whoever `run` is about to switch to is an
    unfinished coroutine that has not been deleted, and is at the start of `co_entry` if and
    only if it has not had a turn yet. -/
theorem entered_on_first_turn (pipeReadFd : Fd) (pipeCap : ℕ+) (junk : Coroutine τ α)
    {turns : List CoroPtr} (hrun : TurnsRun H (init pipeReadFd pipeCap junk, []) (m, turns))
    {rest : List CoroPtr} (hq : m.sched.readyQueue = p :: rest) :
    m.sched.Live p ∧ p ∉ m.sched.deletes ∧
      ((m.sched.coros p).ctx = .entry ↔ p ∉ turns) := by
  have hI := begun_run hrun
  obtain ⟨hlt, hready, -⟩ := hI.tidy.once.ready (hq ▸ List.mem_cons_self : p ∈ m.sched.readyQueue)
  have hlive : m.sched.Live p := ⟨hlt, by rw [hready]; decide⟩
  refine ⟨hlive, fun hdel => hlive.2 (hI.tidy.deleted p hdel).2, ?_⟩
  rw [← hI.fresh p hlt]
  exact ⟨fun hentry => ⟨hready, hentry⟩, And.right⟩

end Turns

/-- Two coroutines that `main` has created: the first one's turn. -/
theorem turns_in_order_two :
    ∃ (m m' : Machine Nat Nat) (turns : List CoroPtr),
      Run (step sortedTimers) anyStep (init 3 64 ⟨.entry, 0, .ready, 0⟩) m ∧
      m.sched.readyQueue = [0] ++ 1 :: [] ∧ TurnsRun sortedTimers (m, []) (m', turns) ∧
      ([0] ++ [1]).Nodup ∧ ([0] ++ [1] <+: turns ∨ turns <+: [0] ∧ 1 ∈ m'.sched.readyQueue ∧
        (m'.sched.coros 1).state = .ready) := by
  obtain ⟨m, hrun, hpc, hq⟩ : ∃ m : Machine Nat Nat,
      Run (step sortedTimers) anyStep (init 3 64 ⟨.entry, 0, .ready, 0⟩) m ∧
        m.pc = .readyLoop ∧ m.sched.readyQueue = [0] ++ 1 :: [] := by
    have hrun := (Run.refl _ : Run (step sortedTimers) anyStep
      (init 3 64 ⟨.entry, 0, .ready, 0⟩) (init 3 64 ⟨.entry, 0, .ready, 0⟩ : Machine Nat Nat))
      |>.tail (.create 7) rfl trivial |>.tail (.create 8) rfl trivial |>.tail .run rfl trivial
    exact ⟨_, hrun, rfl, rfl⟩
  have hturn : step sortedTimers m .readyLoop
      = some (m.goto (m.sched.switchTo 0 [1]) .coroutine) := by
    simp [Machine.step, hpc, stepRun, hq]
  have hrun' : TurnsRun sortedTimers (m, []) (m.goto (m.sched.switchTo 0 [1]) .coroutine, [0]) :=
    .single .readyLoop (logged_eq_some_iff.mpr ⟨hturn, by simp [turnOf, hq]⟩) trivial
  exact ⟨m, _, [0], hrun, hq, hrun', turns_in_order 3 64 _ hrun hq hrun'⟩

/-- A coroutine that has yielded is in front of the queue again. -/
theorem entered_on_first_turn_yield :
    ∃ m : Machine Nat Nat,
      TurnsRun sortedTimers (init 3 64 ⟨.entry, 0, .ready, 0⟩, []) (m, [0]) ∧
      m.sched.readyQueue = 0 :: [] ∧ m.sched.Live 0 ∧ 0 ∉ m.sched.deletes ∧
      ((m.sched.coros 0).ctx = .entry ↔ 0 ∉ [0]) := by
  have hrun := (Run.refl _ : TurnsRun sortedTimers (init 3 64 ⟨.entry, 0, .ready, 0⟩, [])
    ((init 3 64 ⟨.entry, 0, .ready, 0⟩ : Machine Nat Nat), []))
    |>.tail (.create 7) rfl trivial |>.tail .run rfl trivial |>.tail .readyLoop rfl trivial
    |>.tail .yield rfl trivial |>.tail .reap rfl trivial
  exact ⟨_, hrun, rfl, entered_on_first_turn 3 64 _ hrun rfl⟩

end Machine

end CoroutineHttp.Core
