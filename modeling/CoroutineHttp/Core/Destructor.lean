/-
  CoroutineHttp.Core.Destructor

  `Scheduler::~Scheduler`: what it deletes after any run, and what it leaves behind.

  The three containers it goes through hold nobody twice and nobody who has been deleted,
  so no coroutine is deleted twice.  A `Channel` is not the scheduler's, so the coroutines
  blocked on one are never deleted.
-/

import CoroutineHttp.Core.Placement

namespace CoroutineHttp.Core

open CoroutineHttp.Library

universe u v

variable {τ : Type u} {α : Type v}

/-- The places that the destructor goes through. -/
def Place.cleared : Place → Bool
  | .readyQueue | .waitingMap _ | .timerHeap => true
  | .runningCoro | .sendWaiter _ | .recvWaiter _ => false

namespace Scheduler

/-! ## The destructor -/

/-- `delete co`. -/
def deleteCo (s : Scheduler τ α) (co : CoroPtr) : Scheduler τ α :=
  { s with deletes := s.deletes ++ [co] }

/-- `for (auto *co : ready_queue) delete co;`. -/
def clearReady (s : Scheduler τ α) : Scheduler τ α :=
  { s.readyQueue.foldl deleteCo s with readyQueue := [] }

/-- One turn of the loop over `waiting_map`. -/
def dropWaiter (s : Scheduler τ α) (w : Sigma fun _ : Fd => CoroPtr) : Scheduler τ α :=
  { s with epoll := s.epoll.ctlDel w.1 }.deleteCo w.2

/-- The loop over `waiting_map`. -/
def clearWaiting (s : Scheduler τ α) : Scheduler τ α :=
  { s.waitingMap.entries.foldl dropWaiter s with waitingMap := ∅ }

/-- `for (auto &e : timer_heap) delete e.co;`. -/
def clearTimers (s : Scheduler τ α) : Scheduler τ α :=
  { s.timerHeap.foldl (fun s e => s.deleteCo e.co) s with timerHeap := [] }

/-- `if (fd >= 0) close(fd);`: the member afterwards, and what is closed. -/
def closeOwn (fd : Fd) : Fd × List Fd := if 0 ≤ fd then (-1, [fd]) else (fd, [])

/-- A scheduler with the descriptors that only its destructor and `post` look at. -/
structure Owner (τ : Type u) (α : Type v) where
  sched : Scheduler τ α
  pipeWriteFd : Fd
  epollFd : Fd
  /-- The descriptors given to `close`. -/
  closes : List Fd

/-- `~Scheduler`. -/
def Owner.destroy (o : Owner τ α) : Owner τ α :=
  let s := o.sched.clearReady.clearWaiting.clearTimers
  let pipeRead := closeOwn s.pipeReadFd
  let pipeWrite := closeOwn o.pipeWriteFd
  let epoll := closeOwn o.epollFd
  { sched := { s with pipeReadFd := pipeRead.1 }
    pipeWriteFd := pipeWrite.1
    epollFd := epoll.1
    closes := o.closes ++ pipeRead.2 ++ pipeWrite.2 ++ epoll.2 }

/-- The coroutines in the three containers. -/
def held (s : Scheduler τ α) : List CoroPtr :=
  s.readyQueue ++ s.waitingMap.entries.map (·.2) ++ s.timerHeap.map TimerEntry.co

section Destroy

variable {s : Scheduler τ α} {chans : ChanId → Channel α} {p : CoroPtr}

theorem foldl_deleteCo (ps : List CoroPtr) (s : Scheduler τ α) :
    ps.foldl deleteCo s = { s with deletes := s.deletes ++ ps } := by
  induction ps generalizing s with
  | nil => simp
  | cons p ps ih => simp [ih, deleteCo]

/-- The loop over `waiting_map` deletes the waiters and their registrations. -/
theorem foldl_dropWaiter (ws : List (Sigma fun _ : Fd => CoroPtr)) (s : Scheduler τ α) :
    ws.foldl dropWaiter s = { s with
      epoll := ws.foldl (fun e w => e.ctlDel w.1) s.epoll
      deletes := s.deletes ++ ws.map (·.2) } := by
  induction ws generalizing s with
  | nil => simp
  | cons w ws ih =>
      rw [List.foldl_cons, ih]
      simp [dropWaiter, deleteCo]

theorem foldl_ctlDel (es : List (Sigma fun _ : Fd => CoroPtr)) (e : Epoll) {fd : Fd}
    (hfd : fd ∈ es.map (·.1) ∨ e fd = none) :
    es.foldl (fun e w => e.ctlDel w.1) e fd = none := by
  induction es generalizing e with
  | nil => simpa using hfd
  | cons w es ih =>
      apply ih
      rw [List.map_cons, List.mem_cons] at hfd
      by_cases hw : fd = w.1
      · right
        simp [Epoll.ctlDel, hw]
      · refine (hfd.imp_left fun h => h.resolve_left hw).imp_right fun h => ?_
        simpa [Epoll.ctlDel, hw] using h

/-- **What the destructor does**: it deletes what the containers hold and empties them. -/
theorem destroy_sched (o : Owner τ α) :
    o.destroy.sched.deletes = o.sched.deletes ++ o.sched.held ∧
      o.destroy.sched.held = [] ∧
      ∀ fd ∈ o.sched.waitingMap.keys, o.destroy.sched.epoll fd = none := by
  have htimers : ∀ s : Scheduler τ α, s.timerHeap.foldl (fun s e => s.deleteCo e.co) s
      = { s with deletes := s.deletes ++ s.timerHeap.map TimerEntry.co } := fun s => by
    rw [← foldl_deleteCo, List.foldl_map]
  simp only [Owner.destroy, clearReady, clearWaiting, clearTimers, foldl_deleteCo,
    foldl_dropWaiter, htimers, held]
  refine ⟨by simp, by simp, fun fd hfd => ?_⟩
  exact foldl_ctlDel _ _ (.inl (by simpa [AList.keys, List.keys] using hfd))

/-! ### Nobody is held twice -/

theorem mem_waiters_iff :
    p ∈ s.waitingMap.entries.map (·.2) ↔ ∃ fd, s.waitingMap.lookup fd = some p := by
  rw [List.mem_map]
  constructor
  · rintro ⟨w, hw, rfl⟩
    exact ⟨w.1, AList.mem_lookup_iff.mpr hw⟩
  · rintro ⟨fd, hfd⟩
    exact ⟨⟨fd, p⟩, AList.mem_lookup_iff.mp hfd, rfl⟩

theorem mem_held_iff (chans : ChanId → Channel α) :
    p ∈ s.held ↔ ∃ pl : Place, pl.cleared = true ∧ s.occurrences chans pl p ≠ 0 := by
  simp only [held, List.mem_append, mem_waiters_iff]
  constructor
  · rintro ((hp | ⟨fd, hfd⟩) | hp)
    · exact ⟨.readyQueue, rfl, (List.count_pos_iff.mpr hp).ne'⟩
    · exact ⟨.waitingMap fd, rfl, by simp [occurrences, hfd]⟩
    · exact ⟨.timerHeap, rfl, (List.count_pos_iff.mpr hp).ne'⟩
  · rintro ⟨pl, hpl, hp⟩
    cases pl with
    | readyQueue => exact .inl (.inl (List.count_pos_iff.mp (Nat.pos_of_ne_zero hp)))
    | waitingMap fd => exact .inl (.inr ⟨fd, by simpa [occurrences] using hp⟩)
    | timerHeap => exact .inr (List.count_pos_iff.mp (Nat.pos_of_ne_zero hp))
    | _ => cases hpl

/-- Whoever is held belongs to one of the three containers. -/
theorem AtMostOnce.home_of_held (hI : AtMostOnce s chans) (hp : p ∈ s.held) :
    ∃ pl : Place, pl.cleared = true ∧ s.homeOf p = some pl := by
  obtain ⟨pl, hpl, hocc⟩ := (mem_held_iff chans).mp hp
  exact ⟨pl, hpl, hI.home_of_count pl hocc⟩

theorem AtMostOnce.held_nodup (hI : AtMostOnce s chans) : s.held.Nodup := by
  -- a list each of whose members occurs once, since its place holds it once
  have honce : ∀ (l : List CoroPtr) (pl : Place), (∀ q, l.count q = s.occurrences chans pl q) →
      l.Nodup := fun l pl h =>
    List.nodup_iff_count_le_one.mpr fun q => by
      rw [h]
      exact (hI.count q pl).trans (by split <;> omega)
  have hready : s.readyQueue.Nodup := honce _ .readyQueue fun _ => rfl
  have htimers : (s.timerHeap.map TimerEntry.co).Nodup := honce _ .timerHeap fun _ => rfl
  have hwaiters : (s.waitingMap.entries.map (·.2)).Nodup := by
    refine List.Nodup.map_on (fun v hv w hw heq => ?_) s.waitingMap.nodupKeys.nodup
    have hhome : ∀ w ∈ s.waitingMap.entries, s.homeOf w.2 = some (.waitingMap w.1) := by
      intro w hw
      have hlook : s.waitingMap.lookup w.1 = some w.2 := AList.mem_lookup_iff.mpr hw
      exact hI.home_of_count _ (by simp [occurrences, hlook])
    have hv' := hhome v hv
    rw [heq, hhome w hw] at hv'
    exact Sigma.ext (by simpa using hv'.symm) (heq_of_eq heq)
  have hready_home : ∀ q ∈ s.readyQueue, s.homeOf q = some .readyQueue := fun q hq =>
    hI.home_of_count _ (List.count_pos_iff.mpr hq).ne'
  have htimer_home : ∀ q ∈ s.timerHeap.map TimerEntry.co, s.homeOf q = some .timerHeap :=
    fun q hq => hI.home_of_count .timerHeap (List.count_pos_iff.mpr hq).ne'
  have hwaiter_home : ∀ q ∈ s.waitingMap.entries.map (·.2), ∃ fd,
      s.homeOf q = some (.waitingMap fd) := by
    intro q hq
    obtain ⟨fd, hfd⟩ := mem_waiters_iff.mp hq
    exact ⟨fd, hI.home_of_count _ (by simp [occurrences, hfd])⟩
  rw [held, List.nodup_append, List.nodup_append]
  refine ⟨⟨hready, hwaiters, ?_⟩, htimers, ?_⟩
  · rintro q hq r hr rfl
    obtain ⟨fd, hfd⟩ := hwaiter_home q hr
    simp [hready_home q hq] at hfd
  · rintro q hq r hr rfl
    have htimer := htimer_home q hr
    rcases List.mem_append.mp hq with hq | hq
    · simp [hready_home q hq] at htimer
    · obtain ⟨fd, hfd⟩ := hwaiter_home q hq
      simp [hfd] at htimer

/-- Whoever is held has not been deleted. -/
theorem AtMostOnce.held_undeleted (hI : AtMostOnce s chans)
    (hdel : ∀ q ∈ s.deletes, s.Finished q) (hp : p ∈ s.held) : p ∉ s.deletes := by
  obtain ⟨pl, hpl, hhome⟩ := hI.home_of_held hp
  intro hmem
  simp [homeOf, (hdel p hmem).1, (hdel p hmem).2, hmem] at hhome

end Destroy

end Scheduler

/-! ## After a run -/

namespace Machine

open Scheduler

/-- Nobody runs while `run` does. -/
theorem Tidy.running_none {m : Machine τ α} (hI : Tidy m) (hcoroutine : m.pc ≠ .coroutine)
    (hswitched : m.pc ≠ .switched) : m.sched.runningCoro = none := by
  have hrunning := hI.running
  cases hm : m.pc <;> rw [hm] at hrunning
  case coroutine => exact absurd hm hcoroutine
  case switched => exact absurd hm hswitched
  all_goals exact hrunning

section Destroy

variable [Inhabited α] {H : StdHeap timerAfter} {m : Machine τ α} {p : CoroPtr}

/-- `run` deletes nobody twice. -/
theorem deletes_nodup_run {pipeReadFd : Fd} {pipeCap : ℕ+} {junk : Coroutine τ α}
    (hrun : Run (step H) anyStep (init pipeReadFd pipeCap junk) m) : m.sched.deletes.Nodup := by
  refine (hrun.invariant (P := fun m => Tidy m ∧ m.sched.deletes.Nodup)
    ⟨tidy_init pipeReadFd pipeCap junk, List.nodup_nil⟩ ?_).2
  rintro t a t' ⟨hI, hnodup⟩ hs -
  refine ⟨hI.step (step_cases hs), ?_⟩
  rcases (hI.framed (step_cases hs)).deletes with hdel | hreap
  · rw [hdel]
    exact hnodup
  · rw [hreap]
    exact (hI.once.reap_deletes hI.deleted).2 hnodup

/-- **Nobody is deleted twice.** After every run, whatever the coroutines have done, the
    destructor deletes only coroutines that exist and have not been deleted, each once; it
    leaves none of them in a container and no waiter's descriptor registered. -/
theorem destroy_deletes_once (pipeReadFd : Fd) (pipeCap : ℕ+) (junk : Coroutine τ α)
    (hrun : Run (step H) anyStep (init pipeReadFd pipeCap junk) m) (pipeWriteFd epollFd : Fd) :
    let o := Owner.destroy ⟨m.sched, pipeWriteFd, epollFd, []⟩
    (∃ new, o.sched.deletes = m.sched.deletes ++ new ∧ ∀ p ∈ new, p < m.sched.allocs) ∧
      o.sched.deletes.Nodup ∧ o.sched.held = [] ∧
      ∀ fd ∈ m.sched.waitingMap.keys, o.sched.epoll fd = none := by
  have hI := (tidy_init pipeReadFd pipeCap junk).run hrun
  obtain ⟨hdeletes, hheld, hepoll⟩ := destroy_sched ⟨m.sched, pipeWriteFd, epollFd, []⟩
  refine ⟨⟨m.sched.held, hdeletes, fun p hp => ?_⟩, ?_, hheld, hepoll⟩
  · obtain ⟨pl, -, hhome⟩ := hI.once.home_of_held hp
    exact lt_of_homeOf hhome
  · rw [hdeletes, List.nodup_append]
    refine ⟨deletes_nodup_run hrun, hI.once.held_nodup, ?_⟩
    rintro q hq r hr rfl
    exact hI.once.held_undeleted hI.deleted hr hq

/-- **What is never deleted.** After every run without shared waiting that is not inside a
    coroutine, the destructor leaks exactly the coroutines that are blocked on a channel. -/
theorem destroy_leaks_iff (pipeReadFd : Fd) (pipeCap : ℕ+) (junk : Coroutine τ α)
    (hrun : ExclusiveRun H (init pipeReadFd pipeCap junk) m)
    (hpc : m.pc ≠ .coroutine ∧ m.pc ≠ .switched) (pipeWriteFd epollFd : Fd)
    (hp : p < m.sched.allocs) :
    p ∉ (Owner.destroy ⟨m.sched, pipeWriteFd, epollFd, []⟩).sched.deletes ↔
      ∃ ch, m.sched.BlockedSender p ch ∨ m.sched.BlockedReceiver p ch := by
  obtain ⟨hI, -⟩ := (placed_init pipeReadFd pipeCap junk).run hrun
  have hnone := hI.tidy.running_none hpc.1 hpc.2
  rw [(destroy_sched _).1, List.mem_append, not_or, mem_held_iff m.chans]
  constructor
  · rintro ⟨hundeleted, hunheld⟩
    have hlive : m.sched.Live p :=
      ⟨hp, fun hdone => hundeleted (hI.deleted_of_finished hpc.2 ⟨hp, hdone⟩)⟩
    obtain ⟨pl, hpl⟩ := Option.ne_none_iff_exists'.mp (hI.exact.homed p hlive)
    have hcount := hI.exact.count_eq hpl pl
    rw [if_pos rfl] at hcount
    have hleft : pl.cleared ≠ true := fun h => hunheld ⟨pl, h, by simp [hcount]⟩
    cases pl with
    | runningCoro => simp [occurrences, hnone] at hcount
    | sendWaiter ch => exact ⟨ch, .inl (blockedSender_iff_homeOf.mpr hpl)⟩
    | recvWaiter ch => exact ⟨ch, .inr (blockedReceiver_iff_homeOf.mpr hpl)⟩
    | readyQueue | waitingMap _ | timerHeap => exact absurd rfl hleft
  · rintro ⟨ch, hblocked⟩
    -- blocked on a channel, it is held by the channel only
    obtain ⟨pl, hpl, hhome⟩ : ∃ pl : Place, pl.cleared = false ∧ m.sched.homeOf p = some pl := by
      rcases hblocked with hblocked | hblocked
      · exact ⟨.sendWaiter ch, rfl, blockedSender_iff_homeOf.mp hblocked⟩
      · exact ⟨.recvWaiter ch, rfl, blockedReceiver_iff_homeOf.mp hblocked⟩
    refine ⟨fun hmem => ?_, ?_⟩
    · have hwaiting : (m.sched.coros p).state = .waiting := hblocked.elim (·.2.1) (·.2.1)
      rw [(hI.deleted p hmem).2] at hwaiting
      cases hwaiting
    · rintro ⟨pl', hpl', hocc⟩
      rw [hI.exact.count_eq hhome pl'] at hocc
      split at hocc
      next heq => simp [heq, hpl] at hpl'
      next => exact hocc rfl

end Destroy

/-- A coroutine that yields, and one that has finished. -/
theorem destroy_deletes_once_yield :
    ∃ m : Machine Nat Nat,
      Run (step sortedTimers) anyStep (init 3 64 ⟨.entry, 0, .ready, 0⟩) m ∧
      (Owner.destroy ⟨m.sched, 4, 5, []⟩).closes = [3, 4, 5] ∧
      (Owner.destroy ⟨m.sched, 4, 5, []⟩).sched.deletes = [1, 0] ∧
      (Owner.destroy ⟨m.sched, 4, 5, []⟩).sched.deletes.Nodup := by
  have hrun := (Run.refl _ : Run (step sortedTimers) anyStep
    (init 3 64 ⟨.entry, 0, .ready, 0⟩) (init 3 64 ⟨.entry, 0, .ready, 0⟩ : Machine Nat Nat))
    |>.tail (.create 7) rfl trivial |>.tail (.create 8) rfl trivial |>.tail .run rfl trivial
    |>.tail .readyLoop rfl trivial |>.tail .yield rfl trivial |>.tail .reap rfl trivial
    |>.tail .readyLoop rfl trivial |>.tail .finish rfl trivial |>.tail .reap rfl trivial
  exact ⟨_, hrun, rfl, rfl, (destroy_deletes_once 3 64 _ hrun 4 5).2.1⟩

/-- One coroutine waits for a value, another one for its descriptor. -/
theorem destroy_leaks_iff_recv :
    ∃ m : Machine Nat Nat, ExclusiveRun sortedTimers (init 3 64 ⟨.entry, 0, .ready, 0⟩) m ∧
      0 ∉ (Owner.destroy ⟨m.sched, 4, 5, []⟩).sched.deletes ∧
      1 ∈ (Owner.destroy ⟨m.sched, 4, 5, []⟩).sched.deletes := by
  obtain ⟨m, hrun, hend⟩ := exists_run_of_exec (step sortedTimers)
    (fun _ _ m' => m'.sched.Exclusive)
    (fun m : Machine Nat Nat => decide (m.pc = .readyLoop ∧ m.sched.allocs = 2 ∧
      m.sched.homeOf 0 = some (.recvWaiter 0) ∧ m.sched.homeOf 1 = some (.waitingMap 5)))
    (init 3 64 ⟨.entry, 0, .ready, 0⟩)
    [.create 7, .create 8, .run, .readyLoop, .recv 0, .reap, .readyLoop, .waitEvent 5 EPOLLIN,
      .reap]
    (by decide +kernel)
  obtain ⟨hpc, hallocs, hrecv, hwait⟩ := of_decide_eq_true hend
  have hpc' : m.pc ≠ .coroutine ∧ m.pc ≠ .switched := by simp [hpc]
  refine ⟨m, hrun, ?_, ?_⟩
  · apply (destroy_leaks_iff 3 64 _ hrun hpc' 4 5 (by simp [hallocs])).mpr
    exact ⟨0, .inr (blockedReceiver_iff_homeOf.mpr hrecv)⟩
  · by_contra hleaked
    obtain ⟨ch, hblocked⟩ :=
      (destroy_leaks_iff 3 64 _ hrun hpc' 4 5 (by simp [hallocs])).mp hleaked
    simp [blockedSender_iff_homeOf, blockedReceiver_iff_homeOf, hwait] at hblocked

end Machine

end CoroutineHttp.Core
