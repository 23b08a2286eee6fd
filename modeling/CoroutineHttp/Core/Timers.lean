/-
  CoroutineHttp.Core.Timers

  Which timers `fire_timers` fires, and in which order, over every sequence of
  `push_timer` and `fire_timers` calls.  `popDue` is what the loop of `fire_timers`
  takes off the heap; the heap order makes that all the entries that are due, the
  earliest first, and the accounts of the entries pushed, fired and left balance after
  every call.
-/

import CoroutineHttp.Core.Machine

namespace CoroutineHttp.Core

open CoroutineHttp.Library

universe u v

variable {τ : Type u} {α : Type v}

/-! ## The heap of deadlines -/

theorem timerAfter_eq_false_iff {a b : TimerEntry} :
    timerAfter a b = false ↔ a.expireMs ≤ b.expireMs := by
  simp [timerAfter]

/-- The front of the heap has the least deadline. -/
theorem front_le {front : TimerEntry} {rest : List TimerEntry}
    (h : IsHeap timerAfter (front :: rest)) : ∀ e ∈ front :: rest, front.expireMs ≤ e.expireMs := by
  intro e he
  refine timerAfter_eq_false_iff.mp (h.front ?_ ?_ e he)
  · exact timerAfter_eq_false_iff.mpr (Int64.le_refl _)
  · intro x y z hxy hyz
    rw [timerAfter_eq_false_iff] at hxy hyz ⊢
    exact Int64.le_trans hxy hyz

namespace Scheduler

section PopDue

variable (H : StdHeap timerAfter) (now : Int64)

/-- The entries the loop of `fire_timers` pops, in this order, and the heap it leaves. -/
def popDue : List TimerEntry → List TimerEntry × List TimerEntry
  | [] => ([], [])
  | front :: rest =>
      if front.expireMs ≤ now then
        match (popTimer H (front :: rest)).2 with
        | none => ([], front :: rest)
        | some e =>
            (e :: (popDue (popTimer H (front :: rest)).1).1,
              (popDue (popTimer H (front :: rest)).1).2)
      else ([], front :: rest)
termination_by heap => heap.length
decreasing_by all_goals exact popTimer_length H (List.cons_ne_nil _ _)

variable {heap rest : List TimerEntry} {front e : TimerEntry}

/-- One turn of the loop. -/
theorem popDue_popped (hs : heap = front :: rest) (hdue : front.expireMs ≤ now)
    (he : (popTimer H heap).2 = some e) :
    popDue H now heap
      = (e :: (popDue H now (popTimer H heap).1).1, (popDue H now (popTimer H heap).1).2) := by
  subst hs
  rw [popDue, if_pos hdue, he]

theorem popDue_none (hs : heap = front :: rest) (hnone : (popTimer H heap).2 = none) :
    popDue H now heap = ([], heap) := by
  subst hs
  rw [popDue, hnone, ite_self]

theorem popDue_future (hs : heap = front :: rest) (hdue : ¬ front.expireMs ≤ now) :
    popDue H now heap = ([], heap) := by
  subst hs
  rw [popDue, if_neg hdue]

/-- The deadline has passed. -/
def due (e : TimerEntry) : Bool := decide (e.expireMs ≤ now)

/-- **Exactly the due entries are popped**, the earliest first, and a heap of the others
    is left. -/
theorem popDue_spec {heap : List TimerEntry} (h : IsHeap timerAfter heap) :
    (popDue H now heap).1.Perm (heap.filter (due now)) ∧
      (popDue H now heap).1.Pairwise (fun a b => a.expireMs ≤ b.expireMs) ∧
      (popDue H now heap).2.Perm (heap.filter (!due now ·)) ∧
      IsHeap timerAfter (popDue H now heap).2 := by
  fun_induction popDue H now heap with
  | case1 => exact ⟨.refl _, .nil, .refl _, h⟩
  | case2 front rest hdue hnone =>
      obtain ⟨rest', hpop, -⟩ := popTimer_cons H h
      rw [hpop] at hnone
      cases hnone
  -- the front is due; `ih` is about the heap without it
  | case3 front rest hdue e he ih =>
      obtain ⟨rest', hpop, hperm, hheap⟩ := popTimer_cons H h
      rw [hpop] at he ih ⊢
      obtain rfl := Option.some.inj he
      obtain ⟨hfired, hordered, hleft, hheap'⟩ := ih hheap
      have hfront : due now front = true := decide_eq_true hdue
      refine ⟨?_, ?_, ?_, hheap'⟩
      · rw [List.filter_cons_of_pos hfront]
        exact (hfired.trans (hperm.filter _)).cons front
      · refine List.pairwise_cons.mpr ⟨fun e he => ?_, hordered⟩
        have hmem := (List.mem_filter.mp (hfired.mem_iff.mp he)).1
        exact front_le h e (List.mem_cons_of_mem _ (hperm.mem_iff.mp hmem))
      · rw [List.filter_cons_of_neg (by simp [hfront])]
        exact hleft.trans (hperm.filter _)
  -- the front is not due, so nothing is
  | case4 front rest hdue =>
      have hnone : ∀ e ∈ front :: rest, due now e = false := fun e he =>
        decide_eq_false fun hle => hdue (Int64.le_trans (front_le h e he) hle)
      refine ⟨?_, .nil, ?_, h⟩
      · rw [List.filter_eq_nil_iff.mpr fun e he => by simp [hnone e he]]
      · rw [List.filter_eq_self.mpr fun e he => by simp [hnone e he]]

end PopDue

/-! ## One call of `fire_timers` -/

section FireTimers

variable (H : StdHeap timerAfter) (now : Int64)

/-- `fire_timers` pops those entries, queues their owners in the same order, and counts
    them. -/
theorem fireTimers_eq (s : Scheduler τ α) :
    (s.fireTimers H now).1.timerHeap = (popDue H now s.timerHeap).2 ∧
      (s.fireTimers H now).1.readyQueue
        = s.readyQueue ++ (popDue H now s.timerHeap).1.map (·.co) ∧
      (s.fireTimers H now).2 = (popDue H now s.timerHeap).1.length := by
  fun_induction fireTimers H s now with
  | case1 s hs => simp [hs, popDue]
  | case2 s front rest hs hdue popped hnone => simp [popDue_none H now hs hnone]
  -- one entry is popped and queued; `ih` is about the rest of the loop
  | case3 s front rest hs hdue popped e he r ih =>
      obtain ⟨hheap, hqueue, hcount⟩ := ih
      rw [popDue_popped H now hs hdue he]
      refine ⟨hheap, hqueue.trans ?_, congrArg (· + 1) hcount⟩
      simp [popped, makeReady, setState]
  | case4 s front rest hs hdue => simp [popDue_future H now hs hdue]

/-- The owners of the popped entries are READY afterwards. -/
theorem fireTimers_ready (s : Scheduler τ α) :
    ∀ e ∈ (popDue H now s.timerHeap).1,
      ((s.fireTimers H now).1.coros e.co).state = .ready := by
  fun_induction fireTimers H s now with
  | case1 s hs => simp [hs, popDue]
  | case2 s front rest hs hdue popped hnone => simp [popDue_none H now hs hnone]
  | case3 s front rest hs hdue popped e he r ih =>
      rw [popDue_popped H now hs hdue he, List.forall_mem_cons]
      refine ⟨?_, ih⟩
      -- what the loop does after this entry leaves a READY coroutine READY
      refine fireTimers_keeps H (P := fun s => (s.coros e.co).state = .ready) ?_ _ ?_
      · intro s heap p hp
        by_cases hq : e.co = p <;> simp [makeReady, setState, hq, hp]
      · simp [makeReady, setState]
  | case4 s front rest hs hdue => simp [popDue_future H now hs hdue]

/-- One call fires `es` and leaves `s'`. -/
structure Fires (s s' : Scheduler τ α) (es : List TimerEntry) : Prop where
  /-- The owners come after what was queued already. -/
  queued : s'.readyQueue = s.readyQueue ++ es.map (·.co)
  ready : ∀ e ∈ es, (s'.coros e.co).state = .ready
  /-- These are the entries that are due, each once. -/
  exactly : es.Perm (s.timerHeap.filter (due now))
  ordered : es.Pairwise fun a b => a.expireMs ≤ b.expireMs
  /-- The others stay, the least deadline at the front. -/
  left : s'.timerHeap.Perm (s.timerHeap.filter (!due now ·))
  front : ∀ front rest, s'.timerHeap = front :: rest →
    ∀ e ∈ s'.timerHeap, front.expireMs ≤ e.expireMs

theorem fires (s : Scheduler τ α) (hheap : IsHeap timerAfter s.timerHeap) :
    Fires now s (s.fireTimers H now).1 (popDue H now s.timerHeap).1 := by
  obtain ⟨hheap', hqueue, -⟩ := fireTimers_eq H now s
  obtain ⟨hexactly, hordered, hleft, hleftHeap⟩ := popDue_spec H now hheap
  refine ⟨hqueue, fireTimers_ready H now s, hexactly, hordered, hheap' ▸ hleft, ?_⟩
  intro front rest hcons
  rw [← hheap', hcons] at hleftHeap
  rw [hcons]
  exact front_le hleftHeap

end FireTimers

/-! ## Sequences of calls -/

/-- A call of `push_timer` with any deadline, or of `fire_timers` at any clock reading. -/
inductive TimerCall where
  | push (entry : TimerEntry)
  | fire (now : Int64)

/-- The entry a call adds. -/
def TimerCall.pushed : TimerCall → Option TimerEntry
  | .push entry => some entry
  | .fire _ => none

section Calls

variable (H : StdHeap timerAfter)

/-- What a call does. -/
def timerCall (s : Scheduler τ α) : TimerCall → Scheduler τ α
  | .push entry => s.pushTimer H entry
  | .fire now => (s.fireTimers H now).1

/-- The entries a call fires. -/
def firedBy (s : Scheduler τ α) : TimerCall → List TimerEntry
  | .push _ => []
  | .fire now => (popDue H now s.timerHeap).1

/-- The entries a sequence of calls fires, one after another. -/
def fired (s : Scheduler τ α) : List TimerCall → List TimerEntry
  | [] => []
  | c :: calls => s.firedBy H c ++ (s.timerCall H c).fired calls

/-- The accounts of a stretch of calls: what was there and what was pushed is fired
    or still there, and what was fired is in the queue. -/
structure Balanced (s s' : Scheduler τ α) (pushed es : List TimerEntry) : Prop where
  heap : IsHeap timerAfter s'.timerHeap
  entries : (s.timerHeap ++ pushed).Perm (es ++ s'.timerHeap)
  queued : s'.readyQueue = s.readyQueue ++ es.map (·.co)

theorem balanced_call {s : Scheduler τ α} (hheap : IsHeap timerAfter s.timerHeap)
    (c : TimerCall) :
    Balanced s (s.timerCall H c) c.pushed.toList (s.firedBy H c) := by
  cases c with
  | push entry =>
      obtain ⟨hperm, hheap'⟩ := H.push_spec s.timerHeap entry hheap
      exact ⟨hheap', hperm.symm, (List.append_nil _).symm⟩
  | fire now =>
      obtain ⟨heq, hqueue, -⟩ := fireTimers_eq H now s
      obtain ⟨hexactly, -, hleft, hheap'⟩ := popDue_spec H now hheap
      refine ⟨?_, ?_, hqueue⟩
      · rw [timerCall, heq]
        exact hheap'
      · rw [timerCall, heq, TimerCall.pushed, Option.toList_none, List.append_nil]
        exact ((hexactly.append hleft).trans (List.filter_append_perm _ _)).symm

theorem balanced_calls (calls : List TimerCall) {s : Scheduler τ α}
    (hheap : IsHeap timerAfter s.timerHeap) :
    Balanced s (calls.foldl (timerCall H) s) (calls.filterMap TimerCall.pushed)
      (s.fired H calls) := by
  induction calls generalizing s with
  | nil => exact ⟨hheap, by simp [fired], by simp [fired]⟩
  | cons c calls ih =>
      have hcall := balanced_call H hheap c
      have hrest := ih hcall.heap
      have hpushed : (c :: calls).filterMap TimerCall.pushed
          = c.pushed.toList ++ calls.filterMap TimerCall.pushed := by cases c <;> rfl
      refine ⟨hrest.heap, ?_, ?_⟩
      · -- the accounts of the first call, then those of the others
        rw [hpushed, fired]
        have hfirst := hcall.entries.append_right (calls.filterMap TimerCall.pushed)
        have hothers := hrest.entries.append_left (s.firedBy H c)
        rw [List.append_assoc, List.append_assoc] at hfirst
        rw [List.append_assoc]
        exact hfirst.trans hothers
      · rw [List.foldl_cons, hrest.queued, hcall.queued, fired, List.map_append,
          List.append_assoc]

/-- **Timers fire completely, in order, and once.** After any calls on a scheduler without
    timers the next `fire_timers` fires the entries that are due; every entry pushed was
    fired before, is fired now or is still in the heap. -/
theorem timers_fire {s : Scheduler τ α} (h : s.timerHeap = []) (calls : List TimerCall)
    (now : Int64) :
    let s' := calls.foldl (timerCall H) s
    let es := s'.firedBy H (.fire now)
    s'.readyQueue = s.readyQueue ++ (s.fired H calls).map (·.co) ∧
      Fires now s' (s'.timerCall H (.fire now)) es ∧
      (calls.filterMap TimerCall.pushed).Perm
        (s.fired H calls ++ (es ++ (s'.timerCall H (.fire now)).timerHeap)) := by
  have hbefore := balanced_calls H calls (s := s) (h ▸ isHeap_nil _)
  have hcall := balanced_call H hbefore.heap (.fire now)
  refine ⟨hbefore.queued, fires H now _ hbefore.heap, ?_⟩
  have hentries := hbefore.entries
  rw [h, List.nil_append] at hentries
  have hfire := hcall.entries
  rw [TimerCall.pushed, Option.toList_none, List.append_nil] at hfire
  exact hentries.trans (hfire.append_left _)

/-- Deadlines out of order and one that is equal to the clock reading. -/
theorem timers_fire_three :
    let s : Scheduler Unit Unit := (Machine.init 3 1 ⟨.entry, (), .ready, 0⟩).sched
    let calls : List TimerCall := [.push ⟨30, 0⟩, .push ⟨10, 1⟩, .fire 5, .push ⟨20, 2⟩]
    let s' := calls.foldl (timerCall sortedTimers) s
    let es := s'.firedBy sortedTimers (.fire 20)
    s'.readyQueue = s.readyQueue ++ (s.fired sortedTimers calls).map (·.co) ∧
      Fires 20 s' (s'.timerCall sortedTimers (.fire 20)) es ∧
      (calls.filterMap TimerCall.pushed).Perm
        (s.fired sortedTimers calls ++ (es ++ (s'.timerCall sortedTimers (.fire 20)).timerHeap)) :=
  timers_fire sortedTimers rfl _ 20

end Calls

end Scheduler

end CoroutineHttp.Core
