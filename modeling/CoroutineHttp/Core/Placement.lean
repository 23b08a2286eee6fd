/-
  CoroutineHttp.Core.Placement

  The placement invariant of one scheduler: whenever a loop of `run` is at its
  head and whenever a coroutine runs, every unfinished coroutine is referenced
  from exactly one of the places that can resume it, once, and its `state` names
  that place; a finished coroutine has been deleted once and is referenced from
  nowhere.

  It holds in the runs in which no reference is overwritten (`Exclusive`): a move from
  a state in which the references are where `homeOf` says (`Exact`) ends in such a
  state.  What each operation moves is in `CoroutineHttp.Core.Occupancy`.
-/

import CoroutineHttp.Core.Occupancy

namespace CoroutineHttp.Core

open CoroutineHttp.Library

universe u v

variable {τ : Type u} {α : Type v}

/-- Keeps one pointer for each descriptor. -/
def Place.ofFd : Place → Bool
  | .waitingMap _ => true
  | _ => false

/-- Has room for one pointer, and belongs to a descriptor or a channel. -/
def Place.single : Place → Bool
  | .waitingMap _ | .sendWaiter _ | .recvWaiter _ => true
  | _ => false

namespace Scheduler

/-- Suspended in `wait_event(fd, ·)` and not yet woken. -/
def ParkedOn (s : Scheduler τ α) (p : CoroPtr) (fd : Fd) : Prop :=
  p < s.allocs ∧ (s.coros p).state = .waiting ∧ ∃ ev, (s.coros p).ctx = .inWaitEvent fd ev

/-- Blocked in `send` on channel `ch`. -/
def BlockedSender (s : Scheduler τ α) (p : CoroPtr) (ch : ChanId) : Prop :=
  p < s.allocs ∧ (s.coros p).state = .waiting ∧ (s.coros p).ctx = .inSend ch

/-- Blocked in `recv` on channel `ch`. -/
def BlockedReceiver (s : Scheduler τ α) (p : CoroPtr) (ch : ChanId) : Prop :=
  p < s.allocs ∧ (s.coros p).state = .waiting ∧ ∃ x, (s.coros p).ctx = .inRecv ch x

/-- No descriptor has two parked coroutines and no channel two blocked senders
    or two blocked receivers. -/
structure Exclusive (s : Scheduler τ α) : Prop where
  fd : ∀ p q fd, s.ParkedOn p fd → s.ParkedOn q fd → p = q
  sender : ∀ p q ch, s.BlockedSender p ch → s.BlockedSender q ch → p = q
  receiver : ∀ p q ch, s.BlockedReceiver p ch → s.BlockedReceiver q ch → p = q

/-- No descriptor has two parked coroutines. -/
def ExclusiveFds (s : Scheduler τ α) : Prop :=
  ∀ p q fd, s.ParkedOn p fd → s.ParkedOn q fd → p = q

/-- **Exactness.** Each pointer is kept where its owner's context says, once,
    and nowhere else; an unfinished coroutine is kept somewhere. -/
structure Exact (s : Scheduler τ α) (chans : ChanId → Channel α) : Prop where
  count : ∀ p pl, s.occurrences chans pl p = if s.homeOf p = some pl then 1 else 0
  homed : ∀ p, s.Live p → s.homeOf p ≠ none

/-- What a stretch of the scheduler owes the invariant: it ends in an exact state
    and takes no coroutine out of `DONE`. -/
structure Evolves (s s' : Scheduler τ α) (chans' : ChanId → Channel α) : Prop where
  exact : Exact s' chans'
  finished : ∀ q, s.Finished q → s'.Finished q

/-- `s'` comes after `s`: what is finished stays finished, what is deleted stays
    deleted. -/
structure Later (s s' : Scheduler τ α) : Prop where
  finished : ∀ q, s.Finished q → s'.Finished q
  deleted : ∀ q ∈ s.deletes, q ∈ s'.deletes

theorem Later.refl (s : Scheduler τ α) : Later s s := ⟨fun _ h => h, fun _ h => h⟩

theorem Later.trans {s s' s'' : Scheduler τ α} (h : Later s s') (h' : Later s' s'') :
    Later s s'' :=
  ⟨fun q hq => h'.finished q (h.finished q hq), fun q hq => h'.deleted q (h.deleted q hq)⟩

section Exact

variable {p : CoroPtr} {s s' : Scheduler τ α} {chans chans' : ChanId → Channel α}

theorem Exact.once (hex : Exact s chans) : AtMostOnce s chans :=
  ⟨fun q pl => (hex.count q pl).le⟩

theorem Exact.home_of_count (hex : Exact s chans) (pl : Place)
    (h : s.occurrences chans pl p ≠ 0) : s.homeOf p = some pl :=
  hex.once.home_of_count pl h

/-- The references to a coroutine whose home is known. -/
theorem Exact.count_eq (hex : Exact s chans) {pl : Place} (h : s.homeOf p = some pl)
    (pl' : Place) : s.occurrences chans pl' p = if pl' = pl then 1 else 0 := by
  rw [hex.count, h]
  simp [eq_comm]

theorem Exact.home_of_running (hex : Exact s chans) (hrun : s.runningCoro = some p) :
    s.homeOf p = some .runningCoro :=
  hex.once.home_of_running hrun

/-- **Move rule.** -/
theorem Exact.moves (hex : Exact s chans) (h : Moves p s chans s' chans') :
    Exact s' chans' where
  count q pl := by
    by_cases hq : q = p
    · exact hq ▸ h.count pl
    · rw [h.others q hq, h.homeOf_eq hq, hex.count]
  homed q hlive := by
    by_cases hq : q = p
    · subst hq
      exact h.homed hlive
    · rw [h.homeOf_eq hq]
      refine hex.homed q ⟨(h.allocs q hq).mp hlive.1, ?_⟩
      rw [← h.coros q hq]
      exact hlive.2

/-- A stretch that only moves coroutines keeps a state exact. -/
theorem Exact.shifts (hex : Exact s chans) (h : Shifts s chans s' chans') :
    Evolves s s' chans' := by
  refine ⟨?_, (hex.once.shifts h).finished⟩
  -- on the moves, as for `AtMostOnce.shifts`
  induction h with
  | alike h =>
      refine ⟨fun q pl => ?_, fun q hlive => ?_⟩
      · rw [h.occurrences, h.homeOf, hex.count]
      · rw [h.homeOf]
        exact hex.homed q (h.live q hlive)
  | moves p h => exact hex.moves h
  | trans _ _ ih ih' => exact ih' (ih hex)

theorem parkedOn_iff_homeOf {fd : Fd} : s.ParkedOn p fd ↔ s.homeOf p = some (.waitingMap fd) := by
  unfold ParkedOn homeOf
  by_cases hlt : p < s.allocs
  · cases hst : (s.coros p).state <;> cases hctx : (s.coros p).ctx <;>
      simp [hlt]
  · simp [hlt]

theorem blockedSender_iff_homeOf {ch : ChanId} :
    s.BlockedSender p ch ↔ s.homeOf p = some (.sendWaiter ch) := by
  unfold BlockedSender homeOf
  by_cases hlt : p < s.allocs
  · cases hst : (s.coros p).state <;> cases hctx : (s.coros p).ctx <;>
      simp [hlt]
  · simp [hlt]

theorem blockedReceiver_iff_homeOf {ch : ChanId} :
    s.BlockedReceiver p ch ↔ s.homeOf p = some (.recvWaiter ch) := by
  unfold BlockedReceiver homeOf
  by_cases hlt : p < s.allocs
  · cases hst : (s.coros p).state <;> cases hctx : (s.coros p).ctx <;>
      simp [hlt]
  · simp [hlt]

/-! ### Deciding exclusiveness -/

/-- No two coroutines have one home of this kind. -/
def Apart (s : Scheduler τ α) (kind : Place → Bool) : Prop :=
  ∀ p < s.allocs, ∀ q < s.allocs, s.homeOf p = s.homeOf q → (s.homeOf p).any kind = true → p = q

instance (kind : Place → Bool) : Decidable (s.Apart kind) :=
  inferInstanceAs (Decidable (∀ p < s.allocs, ∀ q < s.allocs, _))

theorem apart_iff {kind : Place → Bool} : s.Apart kind ↔
    ∀ p q pl, kind pl = true → s.homeOf p = some pl → s.homeOf q = some pl → p = q := by
  constructor
  · intro h p q pl hkind hp hq
    exact h p (lt_of_homeOf hp) q (lt_of_homeOf hq) (hp.trans hq.symm) (by simp [hp, hkind])
  · intro h p _ q _ heq hkind
    obtain ⟨pl, hp, hpl⟩ := (Option.any_eq_true _ _).mp hkind
    exact h p q pl hpl hp (heq ▸ hp)

theorem exclusiveFds_iff_apart : s.ExclusiveFds ↔ s.Apart Place.ofFd := by
  simp only [apart_iff, ExclusiveFds, parkedOn_iff_homeOf]
  constructor
  · intro h p q pl hkind hp hq
    cases pl with
    | waitingMap fd => exact h p q fd hp hq
    | _ => cases hkind
  · intro h p q fd hp hq
    exact h p q _ rfl hp hq

theorem exclusive_iff_apart : s.Exclusive ↔ s.Apart Place.single := by
  rw [apart_iff]
  constructor
  · intro h p q pl hkind hp hq
    cases pl with
    | waitingMap fd => exact h.fd p q fd (parkedOn_iff_homeOf.mpr hp) (parkedOn_iff_homeOf.mpr hq)
    | sendWaiter ch =>
        exact h.sender p q ch (blockedSender_iff_homeOf.mpr hp) (blockedSender_iff_homeOf.mpr hq)
    | recvWaiter ch =>
        exact h.receiver p q ch (blockedReceiver_iff_homeOf.mpr hp)
          (blockedReceiver_iff_homeOf.mpr hq)
    | _ => cases hkind
  · intro h
    refine ⟨fun p q fd hp hq => ?_, fun p q ch hp hq => ?_, fun p q ch hp hq => ?_⟩
    · exact h p q _ rfl (parkedOn_iff_homeOf.mp hp) (parkedOn_iff_homeOf.mp hq)
    · exact h p q _ rfl (blockedSender_iff_homeOf.mp hp) (blockedSender_iff_homeOf.mp hq)
    · exact h p q _ rfl (blockedReceiver_iff_homeOf.mp hp) (blockedReceiver_iff_homeOf.mp hq)

instance : Decidable s.ExclusiveFds := decidable_of_iff _ exclusiveFds_iff_apart.symm

instance : Decidable s.Exclusive := decidable_of_iff _ exclusive_iff_apart.symm

attribute [local simp] occurrences makeReady swapOut saveCtx setState

/-- If nobody else is parked on `fd` after the call, nobody was before. -/
theorem AtMostOnce.waitEvent_free (hI : AtMostOnce s chans) (hrun : s.runningCoro = some p)
    {fd : Fd} {events : UInt32} (hexcl : Exclusive (s.waitEvent fd events)) :
    s.waitingMap.lookup fd = none := by
  by_contra hne
  obtain ⟨q, hq⟩ := Option.ne_none_iff_exists'.mp hne
  have hocc : s.occurrences chans (.waitingMap fd) q ≠ 0 := by simp [hq]
  have hparked : s.ParkedOn q fd := parkedOn_iff_homeOf.mpr (hI.home_of_count _ hocc)
  have hhome := hI.home_of_running hrun
  have hqp := hI.ne_running hrun hocc (by simp)
  refine hqp (hexcl.fd q p fd ?_ ?_)
  · simpa [ParkedOn, Scheduler.waitEvent, hrun, hqp] using hparked
  · simp [ParkedOn, Scheduler.waitEvent, hrun, lt_of_homeOf hhome]

theorem AtMostOnce.blockSend_free (hI : AtMostOnce s chans) (hrun : s.runningCoro = some p)
    {ch : ChanId} (hexcl : Exclusive ((s.setState p .waiting).swapOut p (.inSend ch))) :
    (chans ch).sendWaiter = none := by
  by_contra hne
  obtain ⟨q, hq⟩ := Option.ne_none_iff_exists'.mp hne
  have hocc : s.occurrences chans (.sendWaiter ch) q ≠ 0 := by simp [hq]
  have hblocked : s.BlockedSender q ch := blockedSender_iff_homeOf.mpr (hI.home_of_count _ hocc)
  have hhome := hI.home_of_running hrun
  have hqp := hI.ne_running hrun hocc (by simp)
  refine hqp (hexcl.sender q p ch ?_ ?_)
  · simpa [BlockedSender, hqp] using hblocked
  · simp [BlockedSender, lt_of_homeOf hhome]

theorem AtMostOnce.blockRecv_free (hI : AtMostOnce s chans) (hrun : s.runningCoro = some p)
    {ch : ChanId} {result : α}
    (hexcl : Exclusive ((s.setState p .waiting).swapOut p (.inRecv ch result))) :
    (chans ch).recvWaiter = none := by
  by_contra hne
  obtain ⟨q, hq⟩ := Option.ne_none_iff_exists'.mp hne
  have hocc : s.occurrences chans (.recvWaiter ch) q ≠ 0 := by simp [hq]
  have hblocked : s.BlockedReceiver q ch := blockedReceiver_iff_homeOf.mpr (hI.home_of_count _ hocc)
  have hhome := hI.home_of_running hrun
  have hqp := hI.ne_running hrun hocc (by simp)
  refine hqp (hexcl.receiver q p ch ?_ ?_)
  · simpa [BlockedReceiver, hqp] using hblocked
  · simp [BlockedReceiver, lt_of_homeOf hhome]

end Exact

end Scheduler

/-! ## The machine -/

namespace Machine

open Scheduler

/-- The invariant of a run without shared waiting. -/
structure Placed (m : Machine τ α) : Prop where
  exact : m.sched.Exact m.chans
  heap : IsHeap timerAfter m.sched.timerHeap
  running : RunningOk m.pc m.sched
  nodup : m.sched.deletes.Nodup
  deleted : ∀ p ∈ m.sched.deletes, m.sched.Finished p

/-- A run without shared waiting: in every state reached, no descriptor has two parked
    coroutines and no channel two blocked senders or two blocked receivers. -/
abbrev ExclusiveRun [Inhabited α] (H : StdHeap timerAfter) (m m' : Machine τ α) : Prop :=
  Run (step H) (fun _ _ m' => m'.sched.Exclusive) m m'

theorem placed_init [Inhabited α] (pipeReadFd : Fd) (pipeCap : ℕ+) (junk : Coroutine τ α) :
    Placed (init pipeReadFd pipeCap junk) where
  exact := by
    refine ⟨?_, ?_⟩
    · intro p pl
      cases pl <;> simp [init, homeOf, occurrences, Channel.init]
    · intro p hlive
      exact absurd hlive.1 (Nat.not_lt_zero p)
  heap := isHeap_nil _
  running := rfl
  nodup := List.nodup_nil
  deleted p hp := absurd hp List.not_mem_nil

theorem Placed.tidy {m : Machine τ α} (hI : Placed m) : Tidy m :=
  ⟨hI.exact.once, hI.heap, hI.running, hI.deleted⟩

theorem Placed.state_running {m : Machine τ α} {p : CoroPtr} (hI : Placed m)
    (hpc : m.pc = .coroutine) (hp : m.sched.runningCoro = some p) :
    (m.sched.coros p).state = .running :=
  hI.tidy.state_running hpc hp

/-- Where the waiting is exclusive after a step, the step has overwritten nothing. -/
theorem Tidy.free [Inhabited α] {H : StdHeap timerAfter} {m m' : Machine τ α} {a : Act τ α}
    (hI : Tidy m) (hs : Stepped H m a m') (hexcl : m'.sched.Exclusive) : m.Free a := by
  cases hs with
  -- the one overwritten would share the descriptor after the step
  | waitEvent self fd events _ hself => exact hI.once.waitEvent_free hself hexcl
  | send self ch val _ hself =>
      intro hnone
      simp only [Machine.goto, Channel.send, hnone] at hexcl
      exact hI.once.blockSend_free hself hexcl
  | recv self ch _ hself =>
      intro hnone
      simp only [Machine.goto, Channel.recv, hnone] at hexcl
      exact hI.once.blockRecv_free hself hexcl
  | _ => trivial

/-- **Step lemma.** -/
theorem Placed.step [Inhabited α] {H : StdHeap timerAfter} {m m' : Machine τ α}
    {a : Act τ α} (hI : Placed m) (hs : Stepped H m a m') (hexcl : m'.sched.Exclusive) :
    Placed m' ∧ m.sched.Later m'.sched := by
  have hmoving := hI.tidy.moving hs
  have htidy := hI.tidy.step hs
  have hev := hI.exact.shifts (hmoving.shifts (hI.tidy.free hs hexcl))
  -- only `reap` deletes
  have hdel : m'.sched.deletes.Nodup ∧ ∀ q ∈ m.sched.deletes, q ∈ m'.sched.deletes := by
    rcases (hI.tidy.framed hs).deletes with hdel | hreap
    · rw [hdel]
      exact ⟨hI.nodup, fun _ hq => hq⟩
    · rw [hreap]
      exact ⟨(hI.tidy.once.reap_deletes hI.deleted).2 hI.nodup, reap_deletes_mono m.sched⟩
  exact ⟨⟨hev.exact, htidy.heap, htidy.running, hdel.1, htidy.deleted⟩, hev.finished, hdel.2⟩

/-- **Run lemma.** -/
theorem Placed.run [Inhabited α] {H : StdHeap timerAfter} {m m' : Machine τ α}
    (hI : Placed m) (hrun : ExclusiveRun H m m') : Placed m' ∧ m.sched.Later m'.sched := by
  refine hrun.related (R := fun m m' => Placed m' ∧ m.sched.Later m'.sched)
    ⟨hI, Later.refl _⟩ ?_
  intro t a t' ⟨hIt, hlater⟩ hs hexcl
  obtain ⟨hIt', hlater'⟩ := hIt.step (step_cases hs) hexcl
  exact ⟨hIt', hlater.trans hlater'⟩

/-- Away from the switch back into `run`, `running_coro` has not finished. -/
theorem Placed.running_live {m : Machine τ α} (hI : Placed m) (hpc : m.pc ≠ .switched)
    {p : CoroPtr} (hp : m.sched.runningCoro = some p) : (m.sched.coros p).state = .running := by
  have hrunning := hI.running
  cases hm : m.pc <;> rw [hm] at hrunning
  case coroutine => exact hI.state_running hm hp
  case switched => exact absurd hm hpc
  all_goals
    rw [show m.sched.runningCoro = none from hrunning] at hp
    cases hp

theorem Placed.deleted_of_finished {m : Machine τ α} (hI : Placed m)
    (hpc : m.pc ≠ .switched) {p : CoroPtr} (hp : m.sched.Finished p) :
    p ∈ m.sched.deletes := by
  by_contra hmem
  -- undeleted, it would still be `running_coro`
  have hhome : m.sched.homeOf p = some .runningCoro := by
    simp [homeOf, hp.1, hp.2, hmem]
  have hcount := hI.exact.count_eq hhome .runningCoro
  have hrun : m.sched.runningCoro = some p := by simpa [occurrences] using hcount
  have hdone := hp.2
  rw [hI.running_live hpc hrun] at hdone
  cases hdone

/-- A deleted coroutine is deleted once and referenced from nowhere. -/
theorem Placed.gone {m : Machine τ α} (hI : Placed m) {p : CoroPtr}
    (hp : p ∈ m.sched.deletes) :
    m.sched.Finished p ∧ m.sched.deletes.count p = 1 ∧
      ∀ pl, m.sched.occurrences m.chans pl p = 0 := by
  have hfin := hI.deleted p hp
  refine ⟨hfin, List.count_eq_one_of_mem hI.nodup hp, fun pl => ?_⟩
  rw [hI.exact.count, if_neg]
  simp [homeOf, hfin.2, hp]

/-- **Placement.** In every run without shared waiting, outside the few statements
    after the switch back: an unfinished coroutine is in exactly one place, once,
    and its `state` names it; a finished one has been deleted once, is in no
    place, and this stays so however the run goes on; no other pointer is in any
    place. -/
theorem placement [Inhabited α] (H : StdHeap timerAfter) (pipeReadFd : Fd) (pipeCap : ℕ+)
    (junk : Coroutine τ α) {m : Machine τ α}
    (hrun : ExclusiveRun H (init pipeReadFd pipeCap junk) m) (hpc : m.pc ≠ .switched) :
    (∀ p, m.sched.Live p → p ∉ m.sched.deletes ∧
      ∃ pl : Place, (m.sched.coros p).state = pl.state ∧
        ∀ pl', m.sched.occurrences m.chans pl' p = if pl' = pl then 1 else 0) ∧
    (∀ p, m.sched.Finished p → ∀ m', ExclusiveRun H m m' →
      m'.sched.Finished p ∧ m'.sched.deletes.count p = 1 ∧
        ∀ pl, m'.sched.occurrences m'.chans pl p = 0) ∧
    (∀ p pl, m.sched.occurrences m.chans pl p ≠ 0 → m.sched.Live p) := by
  obtain ⟨hI, -⟩ := (placed_init pipeReadFd pipeCap junk).run hrun
  refine ⟨fun p hlive => ?_, fun p hfin m' hrun' => ?_, fun p pl hocc => ?_⟩
  · obtain ⟨pl, hpl⟩ := Option.ne_none_iff_exists'.mp (hI.exact.homed p hlive)
    exact ⟨fun hmem => hlive.2 (hI.deleted p hmem).2, pl, hlive.state_eq hpl,
      hI.exact.count_eq hpl⟩
  · obtain ⟨hI', hlater⟩ := hI.run hrun'
    exact hI'.gone (hlater.deleted p (hI.deleted_of_finished hpc hfin))
  · have hhome := hI.exact.home_of_count _ hocc
    refine ⟨lt_of_homeOf hhome, fun hdone => ?_⟩
    have hmem := hI.deleted_of_finished hpc ⟨lt_of_homeOf hhome, hdone⟩
    simp [homeOf, hdone, hmem] at hhome

/-- One coroutine parked on a descriptor, one asleep and one on a channel, and a fourth
    that has returned. -/
theorem placement_four :
    ∃ m : Machine Nat Nat, ExclusiveRun sortedTimers (init 3 64 ⟨.entry, 0, .ready, 0⟩) m ∧
      (∀ pl, m.sched.occurrences m.chans pl 0 = if pl = .waitingMap 5 then 1 else 0) ∧
      (∀ pl, m.sched.occurrences m.chans pl 1 = if pl = .timerHeap then 1 else 0) ∧
      (∀ pl, m.sched.occurrences m.chans pl 2 = if pl = .recvWaiter 0 then 1 else 0) ∧
      m.sched.deletes.count 3 = 1 ∧ ∀ pl, m.sched.occurrences m.chans pl 3 = 0 := by
  obtain ⟨m, hrun, hend⟩ := exists_run_of_exec (step sortedTimers)
    (fun _ _ m' => m'.sched.Exclusive)
    (fun m : Machine Nat Nat => decide (m.pc ≠ .switched ∧
      m.sched.occurrences m.chans (.waitingMap 5) 0 = 1 ∧
      m.sched.occurrences m.chans .timerHeap 1 = 1 ∧
      m.sched.occurrences m.chans (.recvWaiter 0) 2 = 1 ∧ m.sched.allocs = 4 ∧
      (m.sched.coros 3).state = .done))
    (init 3 64 ⟨.entry, 0, .ready, 0⟩)
    [.create 7, .create 8, .create 9, .create 10, .run, .readyLoop, .waitEvent 5 EPOLLIN, .reap,
      .readyLoop, .yield, .reap, .readyLoop, .recv 0, .reap, .readyLoop, .finish, .reap,
      .readyLoop, .sleep 0 100, .reap]
    (by decide +kernel)
  obtain ⟨hpc, hparked, hasleep, hblocked, hallocs, hdone⟩ := of_decide_eq_true hend
  obtain ⟨hlive, hfinished, hheld⟩ := placement sortedTimers 3 64 _ hrun hpc
  -- who is in a place is in no other
  have honly : ∀ {p pl}, m.sched.occurrences m.chans pl p = 1 →
      ∀ pl', m.sched.occurrences m.chans pl' p = if pl' = pl then 1 else 0 := by
    intro p pl hocc pl'
    obtain ⟨-, pl₀, -, hcount⟩ := hlive p (hheld p pl (by simp [hocc]))
    have hpl : pl = pl₀ := by
      by_contra hne
      simp [hcount, hne] at hocc
    rw [hcount, hpl]
  obtain ⟨-, hdeleted, hnowhere⟩ := hfinished 3 ⟨by simp [hallocs], hdone⟩ m (.refl _)
  exact ⟨m, hrun, honly hparked, honly hasleep, honly hblocked, hdeleted, hnowhere⟩

end Machine

end CoroutineHttp.Core
