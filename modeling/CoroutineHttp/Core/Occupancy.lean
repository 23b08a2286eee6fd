/-
  CoroutineHttp.Core.Occupancy

  The places that refer to a coroutine, and how a scheduler moves coroutines from one
  to another.

  The saved context of a coroutine says where it should be (`homeOf`).  In every run
  what a container holds is suspended there, and held once (`AtMostOnce`).  An operation
  moves one coroutine (`Moves`) or several in turn (`Shifts`), so it owes one lemma about
  its own containers.  Where a second coroutine waits on a descriptor or a channel, the
  reference to the first one is overwritten (`Moving`): it may be held nowhere, but none
  is held twice, or where it does not wait.
-/

import CoroutineHttp.Library.Runs
import CoroutineHttp.Core.Machine

namespace CoroutineHttp.Core

open CoroutineHttp.Library

universe u v

variable {τ : Type u} {α : Type v}

/-! ## Places and references -/

/-- The places a coroutine pointer is kept in.  `waiting_map` holds one pointer
    per descriptor. -/
inductive Place where
  | runningCoro
  | readyQueue
  | waitingMap (fd : Fd)
  | timerHeap
  | sendWaiter (ch : ChanId)
  | recvWaiter (ch : ChanId)
deriving DecidableEq, Repr

/-- The `state` that belongs to a place. -/
def Place.state : Place → State
  | .runningCoro => .running
  | .readyQueue => .ready
  | .waitingMap _ | .timerHeap | .sendWaiter _ | .recvWaiter _ => .waiting

namespace Scheduler

/-- How often place `pl` refers to `p`. -/
def occurrences (s : Scheduler τ α) (chans : ChanId → Channel α) :
    Place → CoroPtr → Nat
  | .runningCoro, p => if s.runningCoro = some p then 1 else 0
  | .readyQueue, p => s.readyQueue.count p
  | .waitingMap fd, p => if s.waitingMap.lookup fd = some p then 1 else 0
  | .timerHeap, p => (s.timerHeap.map TimerEntry.co).count p
  | .sendWaiter ch, p => if (chans ch).sendWaiter = some p then 1 else 0
  | .recvWaiter ch, p => if (chans ch).recvWaiter = some p then 1 else 0

/-- Created and not finished. -/
def Live (s : Scheduler τ α) (p : CoroPtr) : Prop :=
  p < s.allocs ∧ (s.coros p).state ≠ .done

/-- Created and finished. -/
def Finished (s : Scheduler τ α) (p : CoroPtr) : Prop :=
  p < s.allocs ∧ (s.coros p).state = .done

/-- Where the suspended or running coroutine `p` belongs.  A coroutine that has
    just finished is still `running_coro` until it is deleted. -/
def homeOf (s : Scheduler τ α) (p : CoroPtr) : Option Place :=
  if p < s.allocs then
    match (s.coros p).state, (s.coros p).ctx with
    | .running, _ => some .runningCoro
    | .ready, _ => some .readyQueue
    | .waiting, .inWaitEvent fd _ => some (.waitingMap fd)
    | .waiting, .inSleep => some .timerHeap
    | .waiting, .inSend ch => some (.sendWaiter ch)
    | .waiting, .inRecv ch _ => some (.recvWaiter ch)
    | .waiting, .entry => none
    | .waiting, .inYield => none
    | .done, _ => if p ∈ s.deletes then none else some .runningCoro
  else none

theorem Live.state_eq {s : Scheduler τ α} {p : CoroPtr} {pl : Place}
    (hp : s.Live p) (h : s.homeOf p = some pl) : (s.coros p).state = pl.state := by
  obtain ⟨hlt, hnd⟩ := hp
  unfold homeOf at h
  rw [if_pos hlt] at h
  split at h <;> simp_all [Place.state] <;> (subst h; rfl)

theorem lt_of_homeOf {s : Scheduler τ α} {p : CoroPtr} {pl : Place}
    (h : s.homeOf p = some pl) : p < s.allocs := by
  unfold homeOf at h
  by_contra hlt
  simp [hlt] at h

/-- Each pointer is kept at most once, and only where its owner's context says. -/
structure AtMostOnce (s : Scheduler τ α) (chans : ChanId → Channel α) : Prop where
  count : ∀ p pl, s.occurrences chans pl p ≤ if s.homeOf p = some pl then 1 else 0

/-! ## Moves -/

/-- From `s` to `s'` only coroutine `p` changes place; `p` has not finished
    before, unless it still has, and its new references are exact. -/
structure Moves (p : CoroPtr) (s : Scheduler τ α) (chans : ChanId → Channel α)
    (s' : Scheduler τ α) (chans' : ChanId → Channel α) : Prop where
  coros : ∀ q, q ≠ p → s'.coros q = s.coros q
  allocs : ∀ q, q ≠ p → (q < s'.allocs ↔ q < s.allocs)
  deletes : ∀ q, q ≠ p → (q ∈ s'.deletes ↔ q ∈ s.deletes)
  others : ∀ q, q ≠ p → ∀ pl, s'.occurrences chans' pl q = s.occurrences chans pl q
  finished : s.Finished p → s'.Finished p
  count : ∀ pl, s'.occurrences chans' pl p = if s'.homeOf p = some pl then 1 else 0
  homed : s'.Live p → s'.homeOf p ≠ none

/-- Nobody changes place. -/
structure Alike (s : Scheduler τ α) (chans : ChanId → Channel α) (s' : Scheduler τ α)
    (chans' : ChanId → Channel α) : Prop where
  homeOf : ∀ q, s'.homeOf q = s.homeOf q
  occurrences : ∀ pl q, s'.occurrences chans' pl q = s.occurrences chans pl q
  live : ∀ q, s'.Live q → s.Live q
  finished : ∀ q, s.Finished q → s'.Finished q

/-- A stretch of the scheduler in which coroutines change place one after the other. -/
inductive Shifts : Scheduler τ α → (ChanId → Channel α) → Scheduler τ α →
    (ChanId → Channel α) → Prop where
  | alike {s s' : Scheduler τ α} {chans chans' : ChanId → Channel α}
      (h : Alike s chans s' chans') : Shifts s chans s' chans'
  | moves {s s' : Scheduler τ α} {chans chans' : ChanId → Channel α} (p : CoroPtr)
      (h : Moves p s chans s' chans') : Shifts s chans s' chans'
  | trans {s s' s'' : Scheduler τ α} {chans chans' chans'' : ChanId → Channel α}
      (h : Shifts s chans s' chans') (h' : Shifts s' chans' s'' chans'') :
      Shifts s chans s'' chans''

section Moves

variable {p : CoroPtr} {s s' : Scheduler τ α} {chans chans' : ChanId → Channel α}

theorem Moves.homeOf_eq (h : Moves p s chans s' chans') {q : CoroPtr} (hq : q ≠ p) :
    s'.homeOf q = s.homeOf q := by
  unfold homeOf
  simp only [h.coros q hq, h.allocs q hq, h.deletes q hq]

/-- A move never takes a coroutine out of `DONE`. -/
theorem Finished.moves {q : CoroPtr} (hq : s.Finished q) (h : Moves p s chans s' chans') :
    s'.Finished q := by
  by_cases hqp : q = p
  · subst hqp
    exact h.finished hq
  · refine ⟨(h.allocs q hqp).mpr hq.1, ?_⟩
    rw [h.coros q hqp]
    exact hq.2

/-- Containers and objects that `homeOf` looks at stay what they are. -/
theorem Alike.of_same (hocc : ∀ pl q, s'.occurrences chans' pl q = s.occurrences chans pl q)
    (hcoros : s'.coros = s.coros) (hallocs : s'.allocs = s.allocs)
    (hdel : s'.deletes = s.deletes) : Alike s chans s' chans' := by
  refine ⟨fun q => ?_, hocc, fun q hlive => ?_, fun q hf => ?_⟩
  · simp only [Scheduler.homeOf, hcoros, hallocs, hdel]
  · simpa only [Live, hcoros, hallocs] using hlive
  · simpa only [Finished, hcoros, hallocs] using hf

theorem Shifts.refl (s : Scheduler τ α) (chans : ChanId → Channel α) : Shifts s chans s chans :=
  .alike (.of_same (fun _ _ => rfl) rfl rfl rfl)

end Moves

/-- What an operation owes the invariant: it keeps it, and takes no coroutine out of
    `DONE`. -/
structure Keeps (s s' : Scheduler τ α) (chans' : ChanId → Channel α) : Prop where
  once : AtMostOnce s' chans'
  finished : ∀ q, s.Finished q → s'.Finished q

/-- An operation that moves coroutines, and overwrites no reference if it is `free`. -/
structure Moving (free : Prop) (s : Scheduler τ α) (chans : ChanId → Channel α)
    (s' : Scheduler τ α) (chans' : ChanId → Channel α) : Prop where
  keeps : Keeps s s' chans'
  shifts : free → Shifts s chans s' chans'

/-! ## One lemma for each operation -/

section Operations

variable {p : CoroPtr} {s : Scheduler τ α} {chans : ChanId → Channel α}

theorem homeOf_of_ready (hlt : p < s.allocs) (hst : (s.coros p).state = .ready) :
    s.homeOf p = some .readyQueue := by
  unfold homeOf
  rw [if_pos hlt, hst]

/-- A coroutine whose home is a waiting place has not finished. -/
theorem not_done_of_homeOf {pl : Place} (h : s.homeOf p = some pl)
    (hpl : pl ≠ .runningCoro) : (s.coros p).state ≠ .done := by
  intro hd
  have hlt := lt_of_homeOf h
  unfold homeOf at h
  rw [if_pos hlt, hd] at h
  by_cases hdel : p ∈ s.deletes
  · simp [hdel] at h
  · simp [hdel] at h
    exact hpl h.symm

theorem AtMostOnce.home_of_count (hI : AtMostOnce s chans) (pl : Place)
    (h : s.occurrences chans pl p ≠ 0) : s.homeOf p = some pl := by
  by_contra hne
  have hcount := hI.count p pl
  rw [if_neg hne] at hcount
  exact h (Nat.le_zero.mp hcount)

theorem AtMostOnce.home_of_running (hI : AtMostOnce s chans) (hrun : s.runningCoro = some p) :
    s.homeOf p = some .runningCoro :=
  hI.home_of_count _ (by simp [occurrences, hrun])

/-- What different places hold are different coroutines. -/
theorem AtMostOnce.ne_of_place (hI : AtMostOnce s chans) {q : CoroPtr} {pl pl' : Place}
    (hp : s.occurrences chans pl p ≠ 0) (hq : s.occurrences chans pl' q ≠ 0) (hne : pl ≠ pl') :
    p ≠ q := by
  rintro rfl
  have hhome := hI.home_of_count pl hp
  rw [hI.home_of_count pl' hq] at hhome
  exact hne (Option.some.inj hhome).symm

theorem AtMostOnce.ne_running (hI : AtMostOnce s chans) (hrun : s.runningCoro = some p)
    {q : CoroPtr} {pl : Place} (hq : s.occurrences chans pl q ≠ 0) (hpl : pl ≠ .runningCoro) :
    q ≠ p :=
  hI.ne_of_place hq (by simp [occurrences, hrun]) hpl

/-- Who is ready to run occurs once in the ready queue. -/
theorem AtMostOnce.ready (hI : AtMostOnce s chans) (hp : p ∈ s.readyQueue) :
    p < s.allocs ∧ (s.coros p).state = .ready ∧ s.readyQueue.count p = 1 := by
  have hpos : 0 < s.readyQueue.count p := List.count_pos_iff.mpr hp
  have hhome : s.homeOf p = some .readyQueue := hI.home_of_count _ hpos.ne'
  have hlt := lt_of_homeOf hhome
  have hcount := hI.count p .readyQueue
  rw [if_pos hhome] at hcount
  exact ⟨hlt, Live.state_eq ⟨hlt, not_done_of_homeOf hhome (by simp)⟩ hhome,
    Nat.le_antisymm hcount hpos⟩

/-- A place whose pointer is kept elsewhere, or nowhere, does not hold it. -/
theorem AtMostOnce.absent (hI : AtMostOnce s chans) {pl : Place} (h : s.homeOf p ≠ some pl) :
    s.occurrences chans pl p = 0 := by
  have hcount := hI.count p pl
  rw [if_neg h] at hcount
  exact Nat.le_zero.mp hcount

/-- The references to a coroutine that is found somewhere. -/
theorem AtMostOnce.count_eq (hI : AtMostOnce s chans) {pl : Place}
    (h : s.occurrences chans pl p ≠ 0) (pl' : Place) :
    s.occurrences chans pl' p = if pl' = pl then 1 else 0 := by
  have hhome := hI.home_of_count pl h
  by_cases hpl : pl' = pl
  · subst hpl
    have hcount := hI.count p pl'
    rw [if_pos hhome] at hcount
    rw [if_pos rfl]
    exact Nat.le_antisymm hcount (Nat.pos_of_ne_zero h)
  · rw [if_neg hpl]
    refine hI.absent fun h' => hpl ?_
    exact (Option.some.inj (hhome.symm.trans h')).symm

/-- **Move rule.** -/
theorem AtMostOnce.shifts {s' : Scheduler τ α} {chans' : ChanId → Channel α}
    (hI : AtMostOnce s chans) (h : Shifts s chans s' chans') : Keeps s s' chans' := by
  -- on the moves: a stretch is quiet, one move, or two stretches
  induction h with
  | alike h =>
      refine ⟨⟨fun q pl => ?_⟩, h.finished⟩
      rw [h.occurrences, h.homeOf]
      exact hI.count q pl
  | moves p h =>
      refine ⟨⟨fun q pl => ?_⟩, fun q hq => hq.moves h⟩
      by_cases hq : q = p
      · subst hq
        exact (h.count pl).le
      · rw [h.others q hq, h.homeOf_eq hq]
        exact hI.count q pl
  | trans _ _ ih ih' =>
      have hmid := ih hI
      have hend := ih' hmid.once
      exact ⟨hend.once, fun q hq => hend.finished q (hmid.finished q hq)⟩

theorem Shifts.moving {s' : Scheduler τ α} {chans' : ChanId → Channel α} {free : Prop}
    (h : Shifts s chans s' chans') (hI : AtMostOnce s chans) : Moving free s chans s' chans' :=
  ⟨hI.shifts h, fun _ => h⟩

theorem Moving.of_imp {s' : Scheduler τ α} {chans' : ChanId → Channel α} {free free' : Prop}
    (h : Moving free s chans s' chans') (hfree : free' → free) : Moving free' s chans s' chans' :=
  ⟨h.keeps, fun hf => h.shifts (hfree hf)⟩

/-- **Overwriting rule.** An operation that rewrites the object of `p`, takes `p` out of
    the place `src` and puts it into the place `dst`, where the references `lost` go. -/
theorem AtMostOnce.overwrite {s' : Scheduler τ α} {chans' : ChanId → Channel α}
    (hI : AtMostOnce s chans) (src dst : Place) (c : Coroutine τ α) (lost : Place → CoroPtr → Nat)
    (hsrc : s.occurrences chans src p ≠ 0) (hnd : (s.coros p).state ≠ .done)
    (hdst : s'.homeOf p = some dst) (hcoros : s'.coros = Function.update s.coros p c)
    (hallocs : s'.allocs = s.allocs) (hdeletes : s'.deletes = s.deletes)
    (hocc : ∀ pl q, s'.occurrences chans' pl q + (if q = p ∧ pl = src then 1 else 0) + lost pl q
      = s.occurrences chans pl q + (if q = p ∧ pl = dst then 1 else 0)) :
    Moving (∀ pl q, lost pl q = 0) s chans s' chans' := by
  -- everybody else has lost what the operation overwrote, and nothing more
  have hother : ∀ q, q ≠ p → ∀ pl,
      s'.occurrences chans' pl q + lost pl q = s.occurrences chans pl q := by
    intro q hq pl
    simpa [hq] using hocc pl q
  -- `p` was in `src` only, so the balance leaves it in `dst` only
  have hp : ∀ pl, s'.occurrences chans' pl p + lost pl p = if pl = dst then 1 else 0 := by
    intro pl
    have h := hocc pl p
    rw [hI.count_eq hsrc] at h
    simp only [true_and] at h
    omega
  have hcoros' : ∀ q, q ≠ p → s'.coros q = s.coros q := by
    intro q hq
    rw [hcoros, Function.update_of_ne hq]
  have hfinished : s.Finished p → s'.Finished p := fun hfin => absurd hfin.2 hnd
  refine ⟨⟨⟨fun q pl => ?_⟩, fun q hfin => ?_⟩, fun hfree => .moves p ⟨hcoros', ?_, ?_, ?_,
    hfinished, ?_, ?_⟩⟩
  · by_cases hq : q = p
    · subst hq
      have h := hp pl
      rw [hdst]
      simp only [Option.some.injEq, eq_comm (a := dst)]
      omega
    · have hhome : s'.homeOf q = s.homeOf q := by
        simp only [homeOf, hcoros' q hq, hallocs, hdeletes]
      rw [hhome]
      exact (Nat.le.intro (hother q hq pl)).trans (hI.count q pl)
  · by_cases hq : q = p
    · subst hq
      exact hfinished hfin
    · exact ⟨hallocs ▸ hfin.1, (congrArg Coroutine.state (hcoros' q hq)).trans hfin.2⟩
  · intro q _
    rw [hallocs]
  · intro q _
    rw [hdeletes]
  · intro q hq pl
    rw [← hother q hq pl, hfree, Nat.add_zero]
  · intro pl
    have h := hp pl
    rw [hfree, Nat.add_zero] at h
    rw [h, hdst]
    simp only [Option.some.injEq, eq_comm (a := dst)]
  · intro _
    rw [hdst]
    exact Option.some_ne_none dst

/-- **Transfer rule.** It changes no other reference. -/
theorem AtMostOnce.transfer {s' : Scheduler τ α} {chans' : ChanId → Channel α}
    (hI : AtMostOnce s chans) (src dst : Place) (c : Coroutine τ α)
    (hsrc : s.occurrences chans src p ≠ 0) (hnd : (s.coros p).state ≠ .done)
    (hdst : s'.homeOf p = some dst) (hcoros : s'.coros = Function.update s.coros p c)
    (hallocs : s'.allocs = s.allocs) (hdeletes : s'.deletes = s.deletes)
    (hocc : ∀ pl q, s'.occurrences chans' pl q + (if q = p ∧ pl = src then 1 else 0)
      = s.occurrences chans pl q + (if q = p ∧ pl = dst then 1 else 0)) :
    Shifts s chans s' chans' :=
  (hI.overwrite src dst c (fun _ _ => 0) hsrc hnd hdst hcoros hallocs hdeletes hocc).shifts
    fun _ _ => rfl

attribute [local simp] occurrences makeReady swapOut saveCtx setState

/-! ### What each operation moves -/

theorem occurrences_yield (hrun : s.runningCoro = some p) (pl : Place) (q : CoroPtr) :
    s.yield.occurrences chans pl q + (if q = p ∧ pl = .runningCoro then 1 else 0)
      = s.occurrences chans pl q + (if q = p ∧ pl = .readyQueue then 1 else 0) := by
  by_cases hq : p = q <;> cases pl <;> simp [Scheduler.yield, hrun, hq, eq_comm]

/-- `sleep` that does not yield. -/
theorem occurrences_sleep (H : StdHeap timerAfter) (hheap : IsHeap timerAfter s.timerHeap)
    (hrun : s.runningCoro = some p) (entry : TimerEntry) (hentry : entry.co = p) (pl : Place)
    (q : CoroPtr) :
    (((s.setState p .waiting).pushTimer H entry).swapOut p .inSleep).occurrences chans pl q
        + (if q = p ∧ pl = .runningCoro then 1 else 0)
      = s.occurrences chans pl q + (if q = p ∧ pl = .timerHeap then 1 else 0) := by
  -- `push_heap` permutes
  have hperm : ∀ q, ((H.pushHeap (s.timerHeap ++ [entry])).map TimerEntry.co).count q
      = ((s.timerHeap ++ [entry]).map TimerEntry.co).count q := fun q =>
    ((H.push_spec _ _ hheap).1.map _).count_eq q
  rcases eq_or_ne q p with rfl | hq
  · cases pl <;> simp [hrun, pushTimer, hperm, hentry]
  · cases pl <;> simp [hrun, pushTimer, hperm, hentry, hq, hq.symm]

/-- `s'` is the scheduler after the removal from the waiting place. -/
theorem occurrences_wake {src : Place} {s' : Scheduler τ α} {chans' : ChanId → Channel α}
    (hocc : ∀ pl q, s'.occurrences chans' pl q + (if q = p ∧ pl = src then 1 else 0)
      = s.occurrences chans pl q) (pl : Place) (q : CoroPtr) :
    (s'.makeReady p).occurrences chans' pl q + (if q = p ∧ pl = src then 1 else 0)
      = s.occurrences chans pl q + (if q = p ∧ pl = .readyQueue then 1 else 0) := by
  rw [← hocc pl q]
  cases pl with
  | readyQueue =>
      rcases eq_or_ne q p with rfl | hq
      · simp; omega
      · simp [hq, hq.symm]
  | _ =>
      simp only [reduceCtorEq, and_false, if_false, Nat.add_zero]
      rfl

theorem occurrences_eraseFd {fd : Fd} (hlook : s.waitingMap.lookup fd = some p) (pl : Place)
    (q : CoroPtr) :
    ({ s with waitingMap := s.waitingMap.erase fd } : Scheduler τ α).occurrences chans pl q
        + (if q = p ∧ pl = .waitingMap fd then 1 else 0)
      = s.occurrences chans pl q := by
  cases pl with
  | waitingMap fd' =>
      by_cases hfd : fd' = fd
      · subst hfd
        simp [hlook, eq_comm]
      · simp [AList.lookup_erase_ne hfd, hfd]
  | _ => simp

theorem occurrences_popTimer {front : TimerEntry} {rest rest' : List TimerEntry}
    (hq : s.timerHeap = front :: rest) (hperm : rest'.Perm rest) (pl : Place) (q : CoroPtr) :
    ({ s with timerHeap := rest' } : Scheduler τ α).occurrences chans pl q
        + (if q = front.co ∧ pl = .timerHeap then 1 else 0)
      = s.occurrences chans pl q := by
  have hcount : ∀ q, (rest'.map TimerEntry.co).count q = (rest.map TimerEntry.co).count q :=
    fun q => (hperm.map _).count_eq q
  rcases eq_or_ne q front.co with rfl | hne
  · cases pl <;> simp [hq, hcount]
  · cases pl <;> simp [hq, hcount, hne, hne.symm]

theorem occurrences_clearRecv {ch : ChanId} (hr : (chans ch).recvWaiter = some p)
    (slot : Option CoroPtr) (pl : Place) (q : CoroPtr) :
    s.occurrences (Function.update chans ch { chans ch with recvSlot := slot, recvWaiter := none })
          pl q
        + (if q = p ∧ pl = .recvWaiter ch then 1 else 0)
      = s.occurrences chans pl q := by
  cases pl with
  | recvWaiter ch' =>
      by_cases hch : ch' = ch
      · subst hch
        simp [hr, eq_comm]
      · simp [hch]
  | sendWaiter ch' => by_cases hch : ch' = ch <;> simp [hch]
  | _ => simp

theorem occurrences_clearSend {ch : ChanId} (hr : (chans ch).sendWaiter = some p) (pl : Place)
    (q : CoroPtr) :
    s.occurrences (Function.update chans ch { chans ch with sendWaiter := none }) pl q
        + (if q = p ∧ pl = .sendWaiter ch then 1 else 0)
      = s.occurrences chans pl q := by
  cases pl with
  | sendWaiter ch' =>
      by_cases hch : ch' = ch
      · subst hch
        simp [hr, eq_comm]
      · simp [hch]
  | recvWaiter ch' => by_cases hch : ch' = ch <;> simp [hch]
  | _ => simp

theorem occurrences_switch {rest : List CoroPtr} (hrun : s.runningCoro = none)
    (hq : s.readyQueue = p :: rest) (pl : Place) (q : CoroPtr) :
    ({ s with readyQueue := rest, runningCoro := some p }.setState p .running).occurrences
          chans pl q
        + (if q = p ∧ pl = .readyQueue then 1 else 0)
      = s.occurrences chans pl q + (if q = p ∧ pl = .runningCoro then 1 else 0) := by
  cases pl with
  | readyQueue => rcases eq_or_ne q p with rfl | hne <;> simp_all [eq_comm]
  | runningCoro => simp [hrun, eq_comm]
  | _ => simp only [reduceCtorEq, and_false, if_false, Nat.add_zero]; rfl

theorem occurrences_waitEvent (hrun : s.runningCoro = some p) (fd : Fd) (events : UInt32)
    (pl : Place) (q : CoroPtr) :
    (s.waitEvent fd events).occurrences chans pl q
        + (if q = p ∧ pl = .runningCoro then 1 else 0)
        + (if s.waitingMap.lookup fd = some q ∧ pl = .waitingMap fd then 1 else 0)
      = s.occurrences chans pl q + (if q = p ∧ pl = .waitingMap fd then 1 else 0) := by
  cases pl with
  | waitingMap fd' =>
      by_cases hfd : fd' = fd
      · subst hfd
        simp [Scheduler.waitEvent, hrun, eq_comm, Nat.add_comm]
      · simp [Scheduler.waitEvent, hrun, AList.lookup_insert_ne hfd, hfd]
  | _ => by_cases hq : p = q <;> simp [Scheduler.waitEvent, hrun, hq, eq_comm]

theorem occurrences_blockSend (hrun : s.runningCoro = some p) (ch : ChanId) (val : α) (pl : Place)
    (q : CoroPtr) :
    ((s.setState p .waiting).swapOut p (.inSend ch)).occurrences
          (Function.update chans ch { chans ch with sendVal := val, sendWaiter := some p }) pl q
        + (if q = p ∧ pl = .runningCoro then 1 else 0)
        + (if (chans ch).sendWaiter = some q ∧ pl = .sendWaiter ch then 1 else 0)
      = s.occurrences chans pl q + (if q = p ∧ pl = .sendWaiter ch then 1 else 0) := by
  cases pl with
  | sendWaiter ch' =>
      by_cases hch : ch' = ch
      · subst hch
        simp [eq_comm, Nat.add_comm]
      · simp [hch]
  | recvWaiter ch' => by_cases hch : ch' = ch <;> simp [hch]
  | _ => by_cases hq : p = q <;> simp [hrun, hq, eq_comm]

theorem occurrences_blockRecv (hrun : s.runningCoro = some p) (ch : ChanId) (result : α)
    (pl : Place) (q : CoroPtr) :
    ((s.setState p .waiting).swapOut p (.inRecv ch result)).occurrences
          (Function.update chans ch { chans ch with recvWaiter := some p, recvSlot := some p })
          pl q
        + (if q = p ∧ pl = .runningCoro then 1 else 0)
        + (if (chans ch).recvWaiter = some q ∧ pl = .recvWaiter ch then 1 else 0)
      = s.occurrences chans pl q + (if q = p ∧ pl = .recvWaiter ch then 1 else 0) := by
  cases pl with
  | recvWaiter ch' =>
      by_cases hch : ch' = ch
      · subst hch
        simp [eq_comm, Nat.add_comm]
      · simp [hch]
  | sendWaiter ch' => by_cases hch : ch' = ch <;> simp [hch]
  | _ => by_cases hq : p = q <;> simp [hrun, hq, eq_comm]

/-! ### What each operation does -/

/-- `create` adds a coroutine to the ready queue. -/
theorem AtMostOnce.create (hI : AtMostOnce s chans) (f : τ) :
    Shifts s chans (s.create f) chans := by
  -- a pointer `new` has not returned yet is in no place
  have hnone : ∀ pl, s.occurrences chans pl s.allocs = 0 := fun pl =>
    hI.absent fun h => absurd (lt_of_homeOf h) (lt_irrefl _)
  have hhome : (s.create f).homeOf s.allocs = some .readyQueue := by
    apply homeOf_of_ready <;> simp [Scheduler.create]
  refine .moves s.allocs ⟨?_, ?_, ?_, ?_, ?_, ?_, ?_⟩
  · intro q hq
    simp [Scheduler.create, hq]
  · intro q hq
    exact ⟨fun h => Nat.lt_of_le_of_ne (Nat.le_of_lt_succ h) hq, Nat.lt_succ_of_lt⟩
  · intro q _
    rfl
  · intro q hq pl
    cases pl with
    | readyQueue => simp [Scheduler.create, hq.symm]
    | _ => rfl
  · intro hf
    exact absurd hf.1 (lt_irrefl _)
  · intro pl
    have hpl := hnone pl
    rw [hhome]
    cases pl <;> simp_all [Scheduler.create]
  · intro _
    rw [hhome]
    simp

/-- `yield` moves the running coroutine to the end of the ready queue. -/
theorem AtMostOnce.yield (hI : AtMostOnce s chans) (hrun : s.runningCoro = some p)
    (hst : (s.coros p).state = .running) : Shifts s chans s.yield chans := by
  have hlt := lt_of_homeOf (hI.home_of_running hrun)
  refine hI.transfer .runningCoro .readyQueue
    { s.coros p with state := .ready, ctx := .inYield } (by simp [hrun]) (by simp [hst])
    ?_ ?_ ?_ ?_ (occurrences_yield hrun)
  · apply homeOf_of_ready <;> simp [Scheduler.yield, hrun, hlt]
  · simp [Scheduler.yield, hrun]
  · simp [Scheduler.yield, hrun]
  · simp [Scheduler.yield, hrun]

/-- `wait_event` moves it to the entry of its descriptor. -/
theorem AtMostOnce.waitEvent (hI : AtMostOnce s chans) (hrun : s.runningCoro = some p)
    (hst : (s.coros p).state = .running) (fd : Fd) (events : UInt32) :
    Moving (s.waitingMap.lookup fd = none) s chans (s.waitEvent fd events) chans := by
  have hlt := lt_of_homeOf (hI.home_of_running hrun)
  refine .of_imp (hI.overwrite .runningCoro (.waitingMap fd)
    { s.coros p with state := .waiting, ctx := .inWaitEvent fd events }
    (fun pl q => if s.waitingMap.lookup fd = some q ∧ pl = .waitingMap fd then 1 else 0)
    (by simp [hrun]) (by simp [hst]) ?_ ?_ ?_ ?_ (occurrences_waitEvent hrun fd events)) ?_
  · simp [homeOf, Scheduler.waitEvent, hrun, hlt]
  · simp [Scheduler.waitEvent, hrun]
  · simp [Scheduler.waitEvent, hrun]
  · simp [Scheduler.waitEvent, hrun]
  · intro hfree pl q
    simp [hfree]

/-- `sleep` moves it to the timer heap, or yields when there is nothing to wait. -/
theorem AtMostOnce.sleep (H : StdHeap timerAfter) (hI : AtMostOnce s chans)
    (hheap : IsHeap timerAfter s.timerHeap) (hrun : s.runningCoro = some p)
    (hst : (s.coros p).state = .running) (now ms : Int64) :
    Shifts s chans (s.sleep H now ms) chans := by
  have hlt := lt_of_homeOf (hI.home_of_running hrun)
  by_cases hms : 0 < ms
  · rw [sleep_pos H hrun now hms]
    refine hI.transfer .runningCoro .timerHeap
      { s.coros p with state := .waiting, ctx := .inSleep } (by simp [hrun]) (by simp [hst])
      ?_ ?_ ?_ ?_ (occurrences_sleep H hheap hrun ⟨now + ms, p⟩ rfl)
    · simp [homeOf, pushTimer, hlt]
    · simp [pushTimer]
    · simp [pushTimer]
    · simp [pushTimer]
  · rw [sleep_nonpos H s now (Int64.not_lt.mp hms)]
    exact hI.yield hrun hst

/-- A coroutine blocked in `send` becomes the channel's sender. -/
theorem AtMostOnce.blockSend (hI : AtMostOnce s chans) (hrun : s.runningCoro = some p)
    (hst : (s.coros p).state = .running) (ch : ChanId) (val : α) :
    Moving ((chans ch).sendWaiter = none) s chans
      ((s.setState p .waiting).swapOut p (.inSend ch))
      (Function.update chans ch { chans ch with sendVal := val, sendWaiter := some p }) := by
  have hlt := lt_of_homeOf (hI.home_of_running hrun)
  refine .of_imp (hI.overwrite .runningCoro (.sendWaiter ch)
    { s.coros p with state := .waiting, ctx := .inSend ch }
    (fun pl q => if (chans ch).sendWaiter = some q ∧ pl = .sendWaiter ch then 1 else 0)
    (by simp [hrun]) (by simp [hst]) ?_ ?_ rfl rfl (occurrences_blockSend hrun ch val)) ?_
  · simp [homeOf, hlt]
  · simp
  · intro hfree pl q
    simp [hfree]

/-- A coroutine blocked in `recv` becomes the channel's receiver. -/
theorem AtMostOnce.blockRecv (hI : AtMostOnce s chans) (hrun : s.runningCoro = some p)
    (hst : (s.coros p).state = .running) (ch : ChanId) (result : α) :
    Moving ((chans ch).recvWaiter = none) s chans
      ((s.setState p .waiting).swapOut p (.inRecv ch result))
      (Function.update chans ch { chans ch with recvWaiter := some p, recvSlot := some p }) := by
  have hlt := lt_of_homeOf (hI.home_of_running hrun)
  refine .of_imp (hI.overwrite .runningCoro (.recvWaiter ch)
    { s.coros p with state := .waiting, ctx := .inRecv ch result }
    (fun pl q => if (chans ch).recvWaiter = some q ∧ pl = .recvWaiter ch then 1 else 0)
    (by simp [hrun]) (by simp [hst]) ?_ ?_ rfl rfl (occurrences_blockRecv hrun ch result)) ?_
  · simp [homeOf, hlt]
  · simp
  · intro hfree pl q
    simp [hfree]

/-- Waking: a coroutine taken out of a waiting place goes to the ready queue.
    `s'` is the scheduler after the removal. -/
theorem AtMostOnce.wake (hI : AtMostOnce s chans) (src : Place) {s' : Scheduler τ α}
    {chans' : ChanId → Channel α} (hsrc : s.occurrences chans src p ≠ 0)
    (hwait : src ≠ .runningCoro) (hcoros : s'.coros = s.coros) (hallocs : s'.allocs = s.allocs)
    (hdeletes : s'.deletes = s.deletes)
    (hocc : ∀ pl q, s'.occurrences chans' pl q + (if q = p ∧ pl = src then 1 else 0)
      = s.occurrences chans pl q) : Shifts s chans (s'.makeReady p) chans' := by
  have hhome := hI.home_of_count src hsrc
  refine hI.transfer src .readyQueue { s.coros p with state := .ready } hsrc
    (not_done_of_homeOf hhome hwait) ?_ ?_ hallocs hdeletes (occurrences_wake hocc)
  · apply homeOf_of_ready <;> simp [hallocs, lt_of_homeOf hhome]
  · simp [hcoros]

/-- The I/O wake-up moves the waiter of `fd`, if there is one. -/
theorem AtMostOnce.wakeFd (hI : AtMostOnce s chans) (fd : Fd) :
    Shifts s chans (s.wakeFd fd) chans := by
  unfold Scheduler.wakeFd
  split
  · exact .refl s chans
  next co hlook =>
    exact hI.wake (.waitingMap fd) (by simp [hlook]) (by simp) rfl rfl rfl
      (occurrences_eraseFd hlook)

/-- `fire_timers` moves the owners of the due entries. -/
theorem AtMostOnce.fireTimers (H : StdHeap timerAfter) (hI : AtMostOnce s chans)
    (hheap : IsHeap timerAfter s.timerHeap) (now : Int64) :
    Shifts s chans (s.fireTimers H now).1 chans ∧
      IsHeap timerAfter (s.fireTimers H now).1.timerHeap := by
  refine fireTimers_rule H (P := fun s' => Shifts s chans s' chans) ?_ s hheap (.refl s chans)
  -- every entry popped is one more move, from a state that still keeps the invariant
  intro s' front rest rest' hs' hq hperm _ _
  have honce := (hI.shifts hs').once
  exact hs'.trans (honce.wake .timerHeap (by simp [hq]) (by simp) rfl rfl rfl
    (occurrences_popTimer hq hperm))

theorem homeOf_writeSlot (slot : Option CoroPtr) (val : α) (q : CoroPtr) :
    (Channel.writeSlot s slot val).homeOf q = s.homeOf q := by
  unfold Channel.writeSlot
  split
  · rfl
  next r =>
    split
    next ch x hctx =>
      by_cases hq : q = r
      · subst hq
        cases hst : (s.coros q).state <;> simp [homeOf, hctx, hst]
      · simp only [homeOf, saveCtx, Function.update_of_ne hq]
        rfl
    · rfl

theorem writeSlot_allocs (slot : Option CoroPtr) (val : α) :
    (Channel.writeSlot s slot val).allocs = s.allocs := by
  unfold Channel.writeSlot
  split
  · rfl
  · split <;> rfl

theorem writeSlot_running (slot : Option CoroPtr) (val : α) (q : CoroPtr) :
    (Channel.writeSlot s slot val).runningCoro = s.runningCoro ∧
      ((Channel.writeSlot s slot val).coros q).state = (s.coros q).state := by
  unfold Channel.writeSlot
  split
  · exact ⟨rfl, rfl⟩
  next r =>
    split
    · by_cases hq : q = r <;> simp [hq]
    · exact ⟨rfl, rfl⟩

/-- Writing the receiver's `result` moves nothing. -/
theorem alike_writeSlot (slot : Option CoroPtr) (val : α) :
    Alike s chans (Channel.writeSlot s slot val) chans := by
  refine ⟨homeOf_writeSlot slot val, fun pl q => ?_, fun q hlive => ?_, fun q hf => ?_⟩
  · unfold Channel.writeSlot
    split
    · rfl
    · split
      · cases pl <;> rfl
      · rfl
  · have hst := (writeSlot_running (s := s) slot val q).2
    exact ⟨writeSlot_allocs (s := s) slot val ▸ hlive.1, hst ▸ hlive.2⟩
  · have hst := (writeSlot_running (s := s) slot val q).2
    exact ⟨(writeSlot_allocs slot val).symm ▸ hf.1, hst.trans hf.2⟩

/-- `Channel::send`: with a receiver waiting, the receiver becomes ready and then
    the sender yields; else the sender blocks. -/
theorem AtMostOnce.send (hI : AtMostOnce s chans) (hrun : s.runningCoro = some p)
    (hst : (s.coros p).state = .running) (ch : ChanId) (val : α) :
    Moving ((chans ch).recvWaiter = none → (chans ch).sendWaiter = none) s chans
      (Channel.send s (chans ch) ch p val).1
      (Function.update chans ch (Channel.send s (chans ch) ch p val).2) := by
  unfold Channel.send
  split
  next r hr =>
    obtain ⟨hrun', hst'⟩ := writeSlot_running (s := s) (chans ch).recvSlot val p
    -- three moves: `*recv_slot_`, the receiver's wake-up, the sender's `yield`
    have hslot : Shifts s chans (Channel.writeSlot s (chans ch).recvSlot val) chans :=
      .alike (alike_writeSlot _ _)
    have hslotted := (hI.shifts hslot).once
    have hsrc : (Channel.writeSlot s (chans ch).recvSlot val).occurrences chans
        (.recvWaiter ch) r ≠ 0 := by simp [hr]
    have hwoken := hslot.trans (hslotted.wake _ hsrc (by simp) rfl rfl rfl
      (occurrences_clearRecv hr none))
    -- the running sender is not the woken receiver
    have hne : p ≠ r := (hslotted.ne_running (hrun'.trans hrun) hsrc (by simp)).symm
    refine (hwoken.trans ((hI.shifts hwoken).once.yield (p := p) ?_ ?_)).moving hI
    · simpa using hrun'.trans hrun
    · simpa [hne] using hst'.trans hst
  next hr =>
    exact (hI.blockSend hrun hst ch val).of_imp fun hfree => hfree hr

/-- `Channel::recv`: a blocked sender becomes ready; else the receiver blocks. -/
theorem AtMostOnce.recv [Inhabited α] (hI : AtMostOnce s chans)
    (hrun : s.runningCoro = some p) (hst : (s.coros p).state = .running) (ch : ChanId) :
    Moving ((chans ch).sendWaiter = none → (chans ch).recvWaiter = none) s chans
      (Channel.recv s (chans ch) ch p).1
      (Function.update chans ch (Channel.recv s (chans ch) ch p).2.1) := by
  unfold Channel.recv
  split
  next r hr =>
    exact (hI.wake (.sendWaiter ch) (by simp [hr]) (by simp) rfl rfl rfl
      (occurrences_clearSend hr)).moving hI
  next hr =>
    exact (hI.blockRecv hrun hst ch default).of_imp fun hfree => hfree hr

/-- The end of `wait_event` after the switch touches only the epoll table. -/
theorem alike_resumed (s : Scheduler τ α) (chans : ChanId → Channel α) (p : CoroPtr) :
    Alike s chans (s.resumed p) chans := by
  unfold Scheduler.resumed
  split
  · exact .of_same (fun pl _ => by cases pl <;> rfl) rfl rfl rfl
  · exact .of_same (fun _ _ => rfl) rfl rfl rfl

/-- The ready loop moves the front of the queue to `running_coro`. -/
theorem AtMostOnce.switchTo (hI : AtMostOnce s chans) {rest : List CoroPtr}
    (hrun : s.runningCoro = none) (hq : s.readyQueue = p :: rest) :
    Shifts s chans (s.switchTo p rest) chans := by
  have hsrc : s.occurrences chans .readyQueue p ≠ 0 := by simp [hq]
  have hhome := hI.home_of_count _ hsrc
  -- the rest of `wait_event` comes after the move and is quiet
  have hout : Shifts s chans
      ({ s with readyQueue := rest, runningCoro := some p }.setState p .running) chans := by
    refine hI.transfer .readyQueue .runningCoro { s.coros p with state := .running } hsrc
      (not_done_of_homeOf hhome (by simp)) ?_ rfl rfl rfl (occurrences_switch hrun hq)
    simp [homeOf, lt_of_homeOf hhome]
  exact hout.trans (.alike (alike_resumed _ chans p))

/-- A coroutine that returns is `DONE` but still `running_coro`. -/
theorem AtMostOnce.finish (hI : AtMostOnce s chans) (hrun : s.runningCoro = some p)
    (hst : (s.coros p).state = .running) (hdel : p ∉ s.deletes) :
    Shifts s chans (s.setState p .done) chans := by
  have hlt := lt_of_homeOf (hI.home_of_running hrun)
  refine hI.transfer .runningCoro .runningCoro { s.coros p with state := .done }
    (by simp [hrun]) (by simp [hst]) ?_ rfl rfl rfl ?_
  · simp [homeOf, hlt, hdel]
  · intro pl q
    cases pl <;> rfl

/-- After the switch back a finished coroutine is deleted. -/
theorem AtMostOnce.reap (hI : AtMostOnce s chans)
    (hdone : ∀ p, s.runningCoro = some p → (s.coros p).state = .done) :
    Shifts s chans s.reap chans := by
  cases hrun : s.runningCoro with
  | none =>
      have hsame : s.reap = s := by simp [Scheduler.reap, hrun]
      rw [hsame]
      exact .refl s chans
  | some p =>
      have hreap : s.reap = { s with deletes := s.deletes ++ [p], runningCoro := none } := by
        simp only [Scheduler.reap, hrun, hdone p hrun, if_true]
      have hnone : s.reap.homeOf p = none := by
        rw [hreap]
        simp [homeOf, hdone p hrun]
      have hsome : s.occurrences chans .runningCoro p ≠ 0 := by simp [hrun]
      have hcount := hI.count_eq hsome
      rw [hreap] at hnone ⊢
      -- the one move out of all places
      refine .moves p ⟨fun _ _ => rfl, fun _ _ => Iff.rfl, ?_, ?_, fun h => h, ?_, ?_⟩
      · intro q hq
        simp [hq]
      · intro q hq pl
        cases pl <;> simp [hrun, hq.symm]
      · intro pl
        have hpl := hcount pl
        rw [hnone]
        cases pl <;> simp_all
      · intro hlive
        exact absurd (hdone p hrun) hlive.2

/-- A receiver that finds a sender goes on running: the woken sender is another
    coroutine. -/
theorem AtMostOnce.recv_running [Inhabited α] (hI : AtMostOnce s chans)
    (hrun : s.runningCoro = some p) (hst : (s.coros p).state = .running) {ch : ChanId}
    (hval : (Channel.recv s (chans ch) ch p).2.2.isSome) :
    ((Channel.recv s (chans ch) ch p).1.coros p).state = .running := by
  unfold Channel.recv at hval ⊢
  split
  next r hr =>
    have hsrc : s.occurrences chans (.sendWaiter ch) r ≠ 0 := by simp [hr]
    have hne : p ≠ r := (hI.ne_running hrun hsrc (by simp)).symm
    simp [hne, hst]
  next hr => simp [hr] at hval

/-! ### What the operations leave alone -/

theorem resumed_eq (s : Scheduler τ α) (p : CoroPtr) :
    s.resumed p = { s with epoll := (s.resumed p).epoll } := by
  unfold Scheduler.resumed
  split <;> rfl

theorem switchTo_frame (s : Scheduler τ α) (p : CoroPtr) (rest : List CoroPtr) :
    (s.switchTo p rest).deletes = s.deletes ∧
      (s.switchTo p rest).timerHeap = s.timerHeap ∧
      (s.switchTo p rest).runningCoro = some p ∧
      ((s.switchTo p rest).coros p).state = .running := by
  unfold Scheduler.switchTo
  rw [resumed_eq]
  simp

theorem switchTo_shared (s : Scheduler τ α) (p : CoroPtr) (rest : List CoroPtr) :
    (s.switchTo p rest).readyQueue = rest ∧ (s.switchTo p rest).allocs = s.allocs ∧
      (s.switchTo p rest).pipeReadFd = s.pipeReadFd ∧
      (s.switchTo p rest).waitingMap = s.waitingMap := by
  unfold Scheduler.switchTo
  rw [resumed_eq]
  exact ⟨rfl, rfl, rfl, rfl⟩

theorem switchTo_other {q : CoroPtr} (rest : List CoroPtr) (hq : q ≠ p) :
    (s.switchTo p rest).coros q = s.coros q := by
  unfold Scheduler.switchTo
  rw [resumed_eq]
  simp [setState, hq]

theorem wakeFd_frame (s : Scheduler τ α) (fd : Fd) :
    (s.wakeFd fd).deletes = s.deletes ∧ (s.wakeFd fd).timerHeap = s.timerHeap ∧
      (s.wakeFd fd).runningCoro = s.runningCoro := by
  unfold Scheduler.wakeFd
  split <;> exact ⟨rfl, rfl, rfl⟩

theorem recv_frame [Inhabited α] (hrun : s.runningCoro = some p) (ch : ChanId)
    (c : Channel α) :
    (Channel.recv s c ch p).1.deletes = s.deletes ∧
      (Channel.recv s c ch p).1.timerHeap = s.timerHeap ∧
      (Channel.recv s c ch p).1.runningCoro
        = if (Channel.recv s c ch p).2.2.isSome then some p else none := by
  unfold Channel.recv
  split
  · exact ⟨rfl, rfl, hrun⟩
  · exact ⟨rfl, rfl, rfl⟩

theorem reap_frame (s : Scheduler τ α) :
    s.reap.coros = s.coros ∧ s.reap.allocs = s.allocs ∧ s.reap.timerHeap = s.timerHeap ∧
      s.reap.runningCoro = none := by
  unfold Scheduler.reap
  split
  next hrun => exact ⟨rfl, rfl, rfl, hrun⟩
  next => split <;> exact ⟨rfl, rfl, rfl, rfl⟩

theorem reap_queues (s : Scheduler τ α) :
    s.reap.readyQueue = s.readyQueue ∧ s.reap.waitingMap = s.waitingMap ∧
      s.reap.postQueue = s.postQueue := by
  unfold Scheduler.reap
  split
  · exact ⟨rfl, rfl, rfl⟩
  · split <;> exact ⟨rfl, rfl, rfl⟩

theorem reap_deletes_mono (s : Scheduler τ α) : ∀ q ∈ s.deletes, q ∈ s.reap.deletes := by
  intro q hq
  unfold Scheduler.reap
  split
  · exact hq
  · split
    · exact List.mem_append_left _ hq
    · exact hq

/-- What is deleted has finished, and is not deleted again. -/
theorem AtMostOnce.reap_deletes (hI : AtMostOnce s chans)
    (hdel : ∀ q ∈ s.deletes, s.Finished q) :
    (∀ q ∈ s.reap.deletes, s.Finished q) ∧ (s.deletes.Nodup → s.reap.deletes.Nodup) := by
  unfold Scheduler.reap
  split
  · exact ⟨hdel, id⟩
  next p hrun =>
    split
    next hdone =>
      have hhome := hI.home_of_running hrun
      have hundeleted : p ∉ s.deletes := by
        intro hmem
        simp [homeOf, hdone, hmem] at hhome
      refine ⟨fun q hq => ?_, fun hnodup => by simpa using hnodup.concat hundeleted⟩
      rcases List.mem_append.mp hq with hq | hq
      · exact hdel q hq
      · rw [List.mem_singleton.mp hq]
        exact ⟨lt_of_homeOf hhome, hdone⟩
    next => exact ⟨hdel, id⟩

theorem fireTimers_frame (H : StdHeap timerAfter)
    (hheap : IsHeap timerAfter s.timerHeap) (now : Int64) :
    (s.fireTimers H now).1.deletes = s.deletes ∧
      (s.fireTimers H now).1.runningCoro = s.runningCoro := by
  refine (fireTimers_rule H
    (P := fun s' => s'.deletes = s.deletes ∧ s'.runningCoro = s.runningCoro) ?_ s hheap
    ⟨rfl, rfl⟩).1
  intro s' front rest rest' hs' _ _ _ _
  exact hs'

theorem yield_timerHeap (s : Scheduler τ α) : s.yield.timerHeap = s.timerHeap := by
  unfold Scheduler.yield
  split <;> rfl

theorem waitEvent_timerHeap (s : Scheduler τ α) (fd : Fd) (events : UInt32) :
    (s.waitEvent fd events).timerHeap = s.timerHeap := by
  unfold Scheduler.waitEvent
  split <;> rfl

theorem sleep_frame (H : StdHeap timerAfter) (hheap : IsHeap timerAfter s.timerHeap)
    (hrun : s.runningCoro = some p) (now ms : Int64) :
    (s.sleep H now ms).deletes = s.deletes ∧ (s.sleep H now ms).runningCoro = none ∧
      IsHeap timerAfter (s.sleep H now ms).timerHeap := by
  by_cases hms : 0 < ms
  · rw [sleep_pos H hrun now hms]
    exact ⟨rfl, rfl, (H.push_spec _ _ hheap).2⟩
  · rw [sleep_nonpos H s now (Int64.not_lt.mp hms)]
    simp [Scheduler.yield, hrun, hheap]

theorem send_frame (hrun : s.runningCoro = some p) (ch : ChanId) (c : Channel α) (val : α) :
    (Channel.send s c ch p val).1.deletes = s.deletes ∧
      (Channel.send s c ch p val).1.runningCoro = none ∧
      (Channel.send s c ch p val).1.timerHeap = s.timerHeap := by
  have hslot : (Channel.writeSlot s c.recvSlot val).deletes = s.deletes ∧
      (Channel.writeSlot s c.recvSlot val).timerHeap = s.timerHeap := by
    unfold Channel.writeSlot
    split
    · exact ⟨rfl, rfl⟩
    · split <;> exact ⟨rfl, rfl⟩
  have hrun' := (writeSlot_running (s := s) c.recvSlot val p).1
  unfold Channel.send
  split
  · simp [Scheduler.yield, hrun', hrun, hslot]
  · simp

end Operations

end Scheduler

/-! ## The machine -/

namespace Machine

open Scheduler

/-- What `running_coro` may be at each program point of `run`. -/
def RunningOk (pc : RunPc τ) (s : Scheduler τ α) : Prop :=
  match pc with
  | .coroutine => ∃ p, s.runningCoro = some p ∧ (s.coros p).state = .running
  | .switched => ∀ p, s.runningCoro = some p → (s.coros p).state = .done
  | _ => s.runningCoro = none

/-- A blocking call leaves `running_coro` empty, which `run` accepts. -/
theorem runningOk_of_none {s : Scheduler τ α} (h : s.runningCoro = none) :
    RunningOk .switched s := by
  intro p hp
  rw [h] at hp
  cases hp

/-- The invariant of every run. -/
structure Tidy (m : Machine τ α) : Prop where
  once : m.sched.AtMostOnce m.chans
  heap : IsHeap timerAfter m.sched.timerHeap
  running : RunningOk m.pc m.sched
  deleted : ∀ p ∈ m.sched.deletes, m.sched.Finished p

theorem tidy_init [Inhabited α] (pipeReadFd : Fd) (pipeCap : ℕ+) (junk : Coroutine τ α) :
    Tidy (init pipeReadFd pipeCap junk) where
  once := ⟨fun p pl => by cases pl <;> simp [init, occurrences, Channel.init]⟩
  heap := isHeap_nil _
  running := rfl
  deleted p hp := absurd hp List.not_mem_nil

section Invariant

variable {m m' : Machine τ α} {a : Act τ α}

theorem Tidy.state_running (hI : Tidy m) {p : CoroPtr} (hpc : m.pc = .coroutine)
    (hp : m.sched.runningCoro = some p) : (m.sched.coros p).state = .running := by
  have hrunning := hI.running
  rw [hpc] at hrunning
  obtain ⟨q, hq, hst⟩ := hrunning
  obtain rfl : q = p := Option.some.inj (hq.symm.trans hp)
  exact hst

/-- The action overwrites no reference. -/
def Free (m : Machine τ α) : Act τ α → Prop
  | .waitEvent fd _ => m.sched.waitingMap.lookup fd = none
  | .send ch _ => (m.chans ch).recvWaiter = none → (m.chans ch).sendWaiter = none
  | .recv ch => (m.chans ch).sendWaiter = none → (m.chans ch).recvWaiter = none
  | _ => True

/-- What a step does to the places. -/
theorem Tidy.moving [Inhabited α] {H : StdHeap timerAfter} (hI : Tidy m) (hs : Stepped H m a m') :
    Moving (m.Free a) m.sched m.chans m'.sched m'.chans := by
  have honce := hI.once
  have hrunning := hI.running
  cases hs with
  | run _ | readyEmpty _ _ | epollFail _ _ | eventPipe _ _ _ _ | pipeEmpty _ _ _ | pipeRead _ _ _
  | drainDone _ _ | postWrite _ _ => exact (Shifts.refl m.sched m.chans).moving honce
  | epollWait evs hpc | swapQueue evs hpc | closeFd self fd hpc _ | postAppend t f _ =>
      exact Shifts.moving (.alike (.of_same (fun pl _ => by cases pl <;> rfl) rfl rfl rfl)) honce
  | createMain f _ | drainNext f _ _ _ | create _ f _ _ => exact (honce.create f).moving honce
  | readyNext p rest hpc hq =>
      rw [hpc] at hrunning
      exact (honce.switchTo hrunning hq).moving honce
  | yield self hpc hself => exact (honce.yield hself (hI.state_running hpc hself)).moving honce
  | waitEvent self fd events hpc hself =>
      exact honce.waitEvent hself (hI.state_running hpc hself) fd events
  | sleep self now ms hpc hself =>
      have hst := hI.state_running hpc hself
      exact (honce.sleep H hI.heap hself hst now ms).moving honce
  | send self ch val hpc hself => exact honce.send hself (hI.state_running hpc hself) ch val
  | recv self ch hpc hself => exact honce.recv hself (hI.state_running hpc hself) ch
  | finish self hpc hself =>
      have hst := hI.state_running hpc hself
      -- a running coroutine has not been deleted
      refine (honce.finish hself hst fun hmem => ?_).moving honce
      rw [(hI.deleted self hmem).2] at hst
      cases hst
  | reap hpc =>
      rw [hpc] at hrunning
      exact (honce.reap hrunning).moving honce
  | fireTimers now _ | lastTimers now _ => exact (honce.fireTimers H hI.heap now).1.moving honce
  | eventWake fd _ _ _ => exact (honce.wakeFd fd).moving honce

/-- What a step does to `running_coro`, the timers and the deletions. -/
structure Framed (m m' : Machine τ α) : Prop where
  running : RunningOk m'.pc m'.sched
  heap : IsHeap timerAfter m'.sched.timerHeap
  deletes : m'.sched.deletes = m.sched.deletes ∨ m'.sched = m.sched.reap

theorem Tidy.framed [Inhabited α] {H : StdHeap timerAfter} (hI : Tidy m) (hs : Stepped H m a m') :
    Framed m m' := by
  have hrunning := hI.running
  cases hs with
  | run hpc | readyEmpty hpc _ | eventPipe _ _ hpc _ | pipeEmpty _ hpc _ | drainDone _ hpc
  | epollWait _ hpc | swapQueue _ hpc | createMain _ hpc | drainNext _ _ _ hpc
  | closeFd _ _ hpc _ =>
      rw [hpc] at hrunning
      exact ⟨hrunning, hI.heap, .inl rfl⟩
  | epollFail eintr hpc =>
      rw [hpc] at hrunning
      refine ⟨?_, hI.heap, .inl rfl⟩
      cases eintr <;> exact hrunning
  | pipeRead _ _ _ | postAppend _ _ _ | postWrite _ _ => exact ⟨hrunning, hI.heap, .inl rfl⟩
  -- the running coroutine is older than the one it makes
  | create self f hpc hself =>
      have hst := hI.state_running hpc hself
      refine ⟨⟨self, hself, ?_⟩, hI.heap, .inl rfl⟩
      have hlt := lt_of_homeOf (hI.once.home_of_running hself)
      simpa [Machine.goto, Scheduler.create, Nat.ne_of_lt hlt] using hst
  | readyNext p rest _ _ =>
      obtain ⟨hdel, hheap, hrun, hst⟩ := switchTo_frame m.sched p rest
      exact ⟨⟨p, hrun, hst⟩, hheap ▸ hI.heap, .inl hdel⟩
  | yield self _ hself =>
      refine ⟨runningOk_of_none ?_, ?_, .inl ?_⟩
      · simp [Machine.goto, Scheduler.yield, hself, swapOut]
      · simpa [Machine.goto, yield_timerHeap] using hI.heap
      · simp [Machine.goto, Scheduler.yield, hself, makeReady, swapOut, saveCtx, setState]
  | waitEvent self fd events _ hself =>
      refine ⟨runningOk_of_none ?_, ?_, .inl ?_⟩
      · simp [Machine.goto, Scheduler.waitEvent, hself, swapOut]
      · simpa [Machine.goto, waitEvent_timerHeap] using hI.heap
      · simp [Machine.goto, Scheduler.waitEvent, hself, swapOut, saveCtx, setState]
  | sleep self now ms _ hself =>
      obtain ⟨hdel, hrun, hheap⟩ := sleep_frame H hI.heap hself now ms
      exact ⟨runningOk_of_none hrun, hheap, .inl hdel⟩
  | send self ch val _ hself =>
      obtain ⟨hdel, hrun, hheap⟩ := send_frame hself ch (m.chans ch) val
      exact ⟨runningOk_of_none hrun, hheap ▸ hI.heap, .inl hdel⟩
  | recv self ch hpc hself =>
      obtain ⟨hdel, hheap, hrun⟩ := recv_frame hself ch (m.chans ch)
      refine ⟨?_, hheap ▸ hI.heap, .inl hdel⟩
      simp only [Machine.goto]
      split
      -- `recv` found a sender, and `self` goes on
      next hval =>
        rw [if_pos hval] at hrun
        exact ⟨self, hrun, hI.once.recv_running hself (hI.state_running hpc hself) hval⟩
      next hval =>
        rw [if_neg hval] at hrun
        exact runningOk_of_none hrun
  | finish self _ hself =>
      refine ⟨fun p hp => ?_, hI.heap, .inl rfl⟩
      obtain rfl : self = p := Option.some.inj (hself.symm.trans hp)
      simp [Machine.goto, setState]
  | reap _ =>
      obtain ⟨-, -, hheap, hrun⟩ := reap_frame m.sched
      exact ⟨hrun, hheap ▸ hI.heap, .inr rfl⟩
  | fireTimers now hpc =>
      rw [hpc] at hrunning
      obtain ⟨hdel, hrun⟩ := fireTimers_frame H hI.heap now
      refine ⟨?_, (hI.once.fireTimers H hI.heap now).2, .inl hdel⟩
      have hnone := hrun.trans hrunning
      simp only [Machine.goto]
      split <;> exact hnone
  | lastTimers now hpc =>
      rw [hpc] at hrunning
      obtain ⟨hdel, hrun⟩ := fireTimers_frame H hI.heap now
      exact ⟨hrun.trans hrunning, (hI.once.fireTimers H hI.heap now).2, .inl hdel⟩
  | eventWake fd evs hpc _ =>
      rw [hpc] at hrunning
      obtain ⟨hdel, hheap, hrun⟩ := wakeFd_frame m.sched fd
      exact ⟨hrun.trans hrunning, hheap ▸ hI.heap, .inl hdel⟩

/-- **Step lemma**: no condition on the step. -/
theorem Tidy.step [Inhabited α] {H : StdHeap timerAfter} (hI : Tidy m) (hs : Stepped H m a m') :
    Tidy m' := by
  have hkeeps := (hI.moving hs).keeps
  obtain ⟨hrunning, hheap, hdel⟩ := hI.framed hs
  refine ⟨hkeeps.once, hheap, hrunning, fun p hp => hkeeps.finished p ?_⟩
  rcases hdel with hdel | hreap
  · exact hI.deleted p (hdel ▸ hp)
  · exact (hI.once.reap_deletes hI.deleted).1 p (hreap ▸ hp)

/-- **Run lemma.** -/
theorem Tidy.run [Inhabited α] {H : StdHeap timerAfter}
    {ok : Machine τ α → Act τ α → Machine τ α → Prop} (hI : Tidy m)
    (hrun : Run (Machine.step H) ok m m') : Tidy m' :=
  hrun.invariant hI fun _ _ _ hI hs _ => hI.step (step_cases hs)

end Invariant

end Machine

end CoroutineHttp.Core
