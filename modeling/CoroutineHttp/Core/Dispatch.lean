/-
  CoroutineHttp.Core.Dispatch

  `MultiScheduler` while its threads run: a `Machine` for each scheduler, the counter, and
  the threads that call `MultiScheduler::post`.

  A call reads the counter in one step, appends its task to the scheduler it has found in
  another and writes the byte in a third; other calls and the schedulers come between.
  A calling thread may be that of a scheduler (the accept loop): that this scheduler does
  not step meanwhile is left out, so there are more runs here than there are.
  The calls are numbered in the order in which they read the counter.  `dealt_once` says
  that the tasks a scheduler has are, while the counter has not wrapped, those of every
  `n`-th call, each of them in one place.
-/

import Mathlib.Data.Int.CardIntervalMod
import CoroutineHttp.Core.Post
import CoroutineHttp.Core.RoundRobin

namespace CoroutineHttp.Core

open CoroutineHttp.Library

open scoped List

universe u v

variable {τ : Type u} {α : Type v}

/-! ## The system -/

/-- Program points of a thread that calls `MultiScheduler::post`. -/
inductive CallPc (τ : Type u) where
  | idle
  /-- The counter is read: `f` is for `schedulers_[i]`. -/
  | fetched (i : Nat) (f : τ)
  /-- In `Scheduler::post` of `schedulers_[i]`, before the byte is written. -/
  | appended (i : Nat)
deriving DecidableEq, Repr

/-- The task that a thread holds for scheduler `i`. -/
def CallPc.task (i : Nat) : CallPc τ → List τ
  | .fetched j f => if j = i then [f] else []
  | _ => []

/-- The scheduler that a call has found. -/
def CallPc.found : CallPc τ → Option Nat
  | .idle => none
  | .fetched i _ | .appended i => some i

/-- The schedulers with their threads, the counter and the calling threads; `calls` is
    history, the tasks in the order in which their calls read the counter. -/
structure MultiMachine (τ : Type u) (α : Type v) where
  machines : List (Machine τ α)
  rrIndex : Int32
  callers : List (CallPc τ)
  calls : List τ

/-- One step of a scheduler or of a call. -/
inductive MultiAct (τ : Type u) (α : Type v) where
  | thread (i : Nat) (a : Act τ α)
  /-- Thread `t` calls `post(f)` and reads the counter. -/
  | fetchAdd (t : Nat) (f : τ)
  | append (t : Nat)
  | write (t : Nat)

/-- The next step of a thread that calls `post`, or would call `post(f)`. -/
def CallPc.next (t : Nat) (f : τ) : CallPc τ → MultiAct τ α
  | .idle => .fetchAdd t f
  | .fetched _ _ => .append t
  | .appended _ => .write t

/-! ## Shares -/

/-- The tasks of every `n`-th call, from number `i` on. -/
def share (n i : Nat) (calls : List τ) : List τ :=
  (calls.zipIdx.filter fun c => c.2 % n = i).map Prod.fst

section Share

variable {n i : Nat}

theorem share_concat (n i : Nat) (calls : List τ) (f : τ) :
    share n i (calls ++ [f]) = share n i calls ++ if calls.length % n = i then [f] else [] := by
  rw [share, share, List.zipIdx_append, List.filter_append, List.map_append]
  congr 1
  by_cases h : calls.length % n = i <;> simp [h]

/-- The shares differ by one task at most, and the first ones are the larger ones. -/
theorem length_share (hi : i < n) (calls : List τ) :
    (share n i calls).length = calls.length / n + if i < calls.length % n then 1 else 0 := by
  have hcount : (share n i calls).length = Nat.count (· ≡ i [MOD n]) calls.length := by
    induction calls using List.reverseRecOn with
    | nil => rfl
    | append_singleton calls f ih =>
        have hmod : calls.length ≡ i [MOD n] ↔ calls.length % n = i := by
          rw [Nat.ModEq, Nat.mod_eq_of_lt hi]
        rw [share_concat, List.length_append, ih, List.length_append, List.length_singleton,
          Nat.count_succ]
        by_cases h : calls.length % n = i <;> simp [h, hmod]
  rw [hcount, Nat.count_modEq_card calls.length (Nat.zero_lt_of_lt hi), Nat.mod_eq_of_lt hi]

end Share

/-! ## Steps -/

/-- A step of `Scheduler::post`. -/
def Act.isPost : Act τ α → Bool
  | .postAppend _ _ | .postWrite _ => true
  | _ => false

namespace MultiMachine

/-- The object, without what is the threads'. -/
def multi (w : MultiMachine τ α) : MultiScheduler τ α := ⟨w.machines.map Machine.sched, w.rrIndex⟩

/-- `numThreads` schedulers, of which number `i` has the pipe `pipe i`, and `callers`
    threads that will call `post`. -/
def init [Inhabited α] (numThreads : Int32) (pipe : Nat → Fd × ℕ+) (junk : Coroutine τ α)
    (callers : Nat) : MultiMachine τ α where
  machines := (List.range numThreads.toNatClampNeg).map fun i =>
    Machine.init (pipe i).1 (pipe i).2 junk
  rrIndex := 0
  callers := List.replicate callers .idle
  calls := []

/-- The tasks for scheduler `i` that are between the counter and its queue. -/
def inHand (w : MultiMachine τ α) (i : Nat) : List τ := w.callers.flatMap (CallPc.task i)

/-- Machine `i` takes step `a`. -/
def stepAt [Inhabited α] (H : StdHeap timerAfter) (w : MultiMachine τ α) (i : Nat) (a : Act τ α) :
    Option (MultiMachine τ α) :=
  w.machines[i]?.bind fun m => (m.step H a).map fun m' =>
    { w with machines := w.machines.set i m' }

/-- Caller `t` goes to `pc`. -/
def goto (w : MultiMachine τ α) (t : Nat) (pc : CallPc τ) : MultiMachine τ α :=
  { w with callers := w.callers.set t pc }

/-- The step function. -/
def step [Inhabited α] (H : StdHeap timerAfter) (w : MultiMachine τ α) :
    MultiAct τ α → Option (MultiMachine τ α)
  -- only `MultiScheduler::post` calls `Scheduler::post`
  | .thread i a => if a.isPost then none else w.stepAt H i a
  | .fetchAdd t f =>
      match w.callers[t]? with
      | some .idle =>
          if w.multi.InRange then
            some { w.goto t (.fetched w.multi.idx.toInt.toNat f) with
              rrIndex := w.multi.fetchAdd.rrIndex
              calls := w.calls ++ [f] }
          else none
      | _ => none
  | .append t =>
      match w.callers[t]? with
      | some (.fetched i f) => (w.stepAt H i (.postAppend t f)).map (·.goto t (.appended i))
      | _ => none
  | .write t =>
      match w.callers[t]? with
      | some (.appended i) => (w.stepAt H i (.postWrite t)).map (·.goto t .idle)
      | _ => none

/-! ## Inversion of a step -/

/-- The steps once more, one rule for each. -/
inductive Stepped [Inhabited α] (H : StdHeap timerAfter) (w : MultiMachine τ α) :
    MultiAct τ α → MultiMachine τ α → Prop where
  | thread (i : Nat) (a : Act τ α) (m m' : Machine τ α) (ha : a.isPost = false)
      (hm : w.machines[i]? = some m) (hs : m.step H a = some m') :
      Stepped H w (.thread i a) { w with machines := w.machines.set i m' }
  | fetchAdd (t : Nat) (f : τ) (ht : w.callers[t]? = some .idle) (hin : w.multi.InRange) :
      Stepped H w (.fetchAdd t f)
        { w.goto t (.fetched w.multi.idx.toInt.toNat f) with
          rrIndex := w.multi.fetchAdd.rrIndex
          calls := w.calls ++ [f] }
  | append (t i : Nat) (f : τ) (m m' : Machine τ α) (ht : w.callers[t]? = some (.fetched i f))
      (hm : w.machines[i]? = some m) (hs : m.step H (.postAppend t f) = some m') :
      Stepped H w (.append t)
        (({ w with machines := w.machines.set i m' } : MultiMachine τ α).goto t (.appended i))
  | write (t i : Nat) (m m' : Machine τ α) (ht : w.callers[t]? = some (.appended i))
      (hm : w.machines[i]? = some m) (hs : m.step H (.postWrite t) = some m') :
      Stepped H w (.write t)
        (({ w with machines := w.machines.set i m' } : MultiMachine τ α).goto t .idle)

section Inversion

variable [Inhabited α] {H : StdHeap timerAfter} {w w' : MultiMachine τ α}

theorem stepAt_eq_some {i : Nat} {a : Act τ α} (h : w.stepAt H i a = some w') :
    ∃ m m', w.machines[i]? = some m ∧ m.step H a = some m' ∧
      w' = { w with machines := w.machines.set i m' } := by
  obtain ⟨m, hm, hmap⟩ := Option.bind_eq_some_iff.mp h
  obtain ⟨m', hs, rfl⟩ := Option.map_eq_some_iff.mp hmap
  exact ⟨m, m', hm, hs, rfl⟩

theorem step_cases {a : MultiAct τ α} (h : w.step H a = some w') : Stepped H w a w' := by
  cases a with
  | thread i a =>
      cases ha : a.isPost with
      | true => simp [step, ha] at h
      | false =>
          simp only [step, ha, Bool.false_eq_true, if_false] at h
          obtain ⟨m, m', hm, hs, rfl⟩ := stepAt_eq_some h
          exact .thread i a m m' ha hm hs
  | fetchAdd t f =>
      simp only [step] at h
      split at h
      next ht =>
        split at h
        next hin =>
          cases h
          exact .fetchAdd t f ht hin
        next => cases h
      next => cases h
  | append t =>
      simp only [step] at h
      split at h
      next i f ht =>
        obtain ⟨w₁, hat, rfl⟩ := Option.map_eq_some_iff.mp h
        obtain ⟨m, m', hm, hs, rfl⟩ := stepAt_eq_some hat
        exact .append t i f m m' ht hm hs
      next => cases h
  | write t =>
      simp only [step] at h
      split at h
      next i ht =>
        obtain ⟨w₁, hat, rfl⟩ := Option.map_eq_some_iff.mp h
        obtain ⟨m, m', hm, hs, rfl⟩ := stepAt_eq_some hat
        exact .write t i m m' ht hm hs
      next => cases h

end Inversion

/-! ## What one step does -/

section Lists

variable {β : Type u} {γ : Type v} {l : List β} {i : Nat} {a b : β}

theorem forall_getElem?_set {P : Nat → β → Prop} (hi : P i b)
    (hrest : ∀ j c, l[j]? = some c → j ≠ i → P j c) :
    ∀ j c, (l.set i b)[j]? = some c → P j c := by
  intro j c h
  rw [List.getElem?_set] at h
  split at h
  next hij =>
    split at h
    next =>
      cases h
      exact hij ▸ hi
    next => cases h
  next hij => exact hrest j c h (Ne.symm hij)

/-- What one element gives is in one stretch; with one element at most it is all. -/
theorem flatMap_set (g : β → List γ) (h : l[i]? = some a) (b : β) :
    ∃ before after, l.flatMap g = before ++ g a ++ after ∧
      (l.set i b).flatMap g = before ++ g b ++ after ∧
      (l.length ≤ 1 → before = [] ∧ after = []) := by
  obtain ⟨hlt, rfl⟩ := List.getElem?_eq_some_iff.mp h
  refine ⟨(l.take i).flatMap g, (l.drop (i + 1)).flatMap g, ?_, ?_, fun hone => ?_⟩
  · have hsplit : l.take i ++ l[i] :: l.drop (i + 1) = l := by
      rw [← List.drop_eq_getElem_cons hlt, List.take_append_drop]
    conv_lhs => rw [← hsplit, List.flatMap_append, List.flatMap_cons]
    rw [List.append_assoc]
  · rw [List.set_eq_take_append_cons_drop, if_pos hlt]
    simp
  · have hzero : i = 0 := by omega
    subst hzero
    rw [List.drop_eq_nil_of_le hone]
    exact ⟨rfl, rfl⟩

theorem map_set (f : β → γ) {g : γ → γ} (h : l[i]? = some a) (hb : f b = g (f a)) :
    (l.set i b).map f = (l.map f).modify i g := by
  obtain ⟨hlt, rfl⟩ := List.getElem?_eq_some_iff.mp h
  apply List.ext_getElem?
  intro j
  rw [List.getElem?_map, List.getElem?_set, List.getElem?_modify, List.getElem?_map]
  by_cases hj : i = j
  · subst hj
    simp [hlt, hb]
  · simp [hj]

end Lists

section Machines

variable [Inhabited α] {H : StdHeap timerAfter} {m m' : Machine τ α} {a : Act τ α}

/-- A step that is none of `Scheduler::post` has no part in posting. -/
theorem step_not_post (hs : m.step H a = some m') (ha : a.isPost = false) :
    m'.posted = m.posted ∧ m'.posters = m.posters := by
  cases Machine.step_cases hs with
  | postAppend t f ht => cases ha
  | postWrite t ht => cases ha
  | _ => exact ⟨rfl, rfl⟩

theorem step_postAppend {t : Nat} {f : τ} (hs : m.step H (.postAppend t f) = some m') :
    m'.posted = m.posted ++ [f] ∧ m'.posters = Function.update m.posters t .appended ∧
      m'.sched = { m.sched with postQueue := m.sched.postQueue ++ [f] } := by
  cases Machine.step_cases hs with
  | postAppend _ _ ht => exact ⟨rfl, rfl, rfl⟩

theorem step_postWrite {t : Nat} (hs : m.step H (.postWrite t) = some m') :
    m'.posted = m.posted ∧ m'.posters = Function.update m.posters t .idle := by
  cases Machine.step_cases hs with
  | postWrite _ ht => exact ⟨rfl, rfl⟩

end Machines

/-! ## The invariant -/

/-- The same tasks, and in the same order if one thread makes all calls. -/
def Same (w : MultiMachine τ α) (l l' : List τ) : Prop :=
  l.Perm l' ∧ (w.callers.length ≤ 1 → l = l')

/-- The invariant; the shares are those of the counter as long as it does not wrap. -/
structure Dealt (n : Nat) (w : MultiMachine τ α) : Prop where
  size : w.machines.length = n
  counter : w.rrIndex = .ofNat w.calls.length
  post : ∀ (i : Nat) (m : Machine τ α), w.machines[i]? = some m → m.PostInv
  posters : ∀ (i : Nat) (m : Machine τ α), w.machines[i]? = some m → ∀ t,
    m.posters t = .appended ↔ w.callers[t]? = some (.appended i)
  target : ∀ (t : Nat) (pc : CallPc τ), w.callers[t]? = some pc → ∀ i, pc.found = some i → i < n
  tasks : w.calls.length ≤ 2 ^ 31 → ∀ (i : Nat) (m : Machine τ α), w.machines[i]? = some m →
    w.Same (m.posted ++ w.inHand i) (share n i w.calls)

section Invariant

variable {n : Nat} {w : MultiMachine τ α} {t : Nat} {pc : CallPc τ}

/-- A caller goes on: what it holds is exchanged. -/
theorem inHand_goto (ht : w.callers[t]? = some pc) (pc' : CallPc τ) (i : Nat) :
    ∃ before after, w.inHand i = before ++ pc.task i ++ after ∧
      (w.goto t pc').inHand i = before ++ pc'.task i ++ after ∧
      (w.callers.length ≤ 1 → before = [] ∧ after = []) :=
  flatMap_set (CallPc.task i) ht pc'

theorem callers_goto (ht : w.callers[t]? = some pc) (pc' : CallPc τ) (q : Nat) :
    (w.goto t pc').callers[q]? = if q = t then some pc' else w.callers[q]? := by
  obtain ⟨hlt, -⟩ := List.getElem?_eq_some_iff.mp ht
  rw [goto, List.getElem?_set]
  by_cases hq : q = t
  · simp [hq, hlt]
  · simp [hq, Ne.symm hq]

/-- A task is taken in hand. -/
theorem Same.take {w' : MultiMachine τ α} (hlen : w'.callers.length = w.callers.length)
    {posted before after x dealt : List τ}
    (hone : w.callers.length ≤ 1 → before = [] ∧ after = [])
    (h : w.Same (posted ++ (before ++ [] ++ after)) dealt) :
    w'.Same (posted ++ (before ++ x ++ after)) (dealt ++ x) := by
  refine ⟨?_, fun hle => ?_⟩
  · calc posted ++ (before ++ x ++ after)
        = (posted ++ before) ++ (x ++ after) := by simp
      _ ~ (posted ++ before) ++ (after ++ x) := List.perm_append_comm.append_left _
      _ = (posted ++ (before ++ [] ++ after)) ++ x := by simp
      _ ~ dealt ++ x := h.1.append_right x
  · rw [hlen] at hle
    obtain ⟨rfl, rfl⟩ := hone hle
    rw [← h.2 hle]
    simp

/-- A task in hand is appended to the queue. -/
theorem Same.give {w' : MultiMachine τ α} (hlen : w'.callers.length = w.callers.length)
    {posted before after x dealt : List τ}
    (hone : w.callers.length ≤ 1 → before = [] ∧ after = [])
    (h : w.Same (posted ++ (before ++ x ++ after)) dealt) :
    w'.Same (posted ++ x ++ (before ++ [] ++ after)) dealt := by
  refine ⟨?_, fun hle => ?_⟩
  · calc posted ++ x ++ (before ++ [] ++ after)
        = posted ++ ((x ++ before) ++ after) := by simp
      _ ~ posted ++ ((before ++ x) ++ after) :=
          (List.perm_append_comm.append_right after).append_left posted
      _ ~ dealt := h.1
  · rw [hlen] at hle
    obtain ⟨rfl, rfl⟩ := hone hle
    rw [← h.2 hle]
    simp

theorem Dealt.multi_size (hI : Dealt n w) : w.multi.schedulers.length = n := by
  rw [multi, List.length_map, hI.size]

/-- Before the counter wraps, the index is the remainder of the number of the call. -/
theorem Dealt.idx {numThreads : Int32} (hI : Dealt numThreads.toNatClampNeg w)
    (hlt : w.calls.length < 2 ^ 31) :
    w.multi.idx.toInt = (w.calls.length % numThreads.toNatClampNeg : Nat) := by
  have hcount : w.multi.rrIndex.toInt = w.calls.length := by
    rw [multi, hI.counter]
    exact Int32.toInt_ofNat_of_lt hlt
  rw [MultiScheduler.idx, MultiScheduler.size, hI.multi_size, Int32.toInt_mod,
    Int32.toInt_ofNat_of_lt numThreads.toNatClampNeg_lt, hcount, Int.ofNat_tmod]

/-- A call reads the counter. -/
theorem Dealt.fetchAdd {numThreads : Int32} (hI : Dealt numThreads.toNatClampNeg w) (f : τ)
    (ht : w.callers[t]? = some .idle) (hin : w.multi.InRange) :
    Dealt numThreads.toNatClampNeg
      { w.goto t (.fetched w.multi.idx.toInt.toNat f) with
        rrIndex := w.multi.fetchAdd.rrIndex
        calls := w.calls ++ [f] } := by
  refine ⟨hI.size, ?_, hI.post, fun i m hm q => ?_, fun q pc h i hi => ?_,
    fun hle i m hm => ?_⟩
  · show w.rrIndex + 1 = .ofNat (w.calls ++ [f]).length
    rw [hI.counter, List.length_append, Int32.ofNat_add]
    rfl
  · show m.posters q = .appended ↔ (w.goto t _).callers[q]? = _
    rw [callers_goto ht, hI.posters i m hm]
    split
    next hq => simp [hq, ht]
    next => exact Iff.rfl
  · have hq : (w.goto t (.fetched w.multi.idx.toInt.toNat f)).callers[q]? = _ := h
    rw [callers_goto ht] at hq
    split at hq
    next =>
      cases hq
      cases hi
      have hlt := hin.2
      rw [hI.multi_size] at hlt
      have hnonneg := hin.1
      omega
    next => exact hI.target q pc hq i hi
  · rw [List.length_append, List.length_singleton] at hle
    have hold := hI.tasks (by omega) i m hm
    obtain ⟨before, after, hhand, hhand', hone⟩ :=
      inHand_goto ht (.fetched w.multi.idx.toInt.toNat f) i
    have hidx : w.multi.idx.toInt.toNat = w.calls.length % numThreads.toNatClampNeg := by
      rw [hI.idx (by omega)]
      rfl
    rw [hhand] at hold
    show MultiMachine.Same _ (m.posted ++ (w.goto t _).inHand i) _
    rw [hhand', share_concat, ← hidx]
    exact hold.take (List.length_set ..) hone

variable [Inhabited α] {H : StdHeap timerAfter} {m m' : Machine τ α} {i : Nat}

/-- A scheduler steps for itself. -/
theorem Dealt.thread (hI : Dealt n w) {a : Act τ α} (ha : a.isPost = false)
    (hm : w.machines[i]? = some m) (hs : m.step H a = some m') :
    Dealt n { w with machines := w.machines.set i m' } := by
  obtain ⟨hposted, hposters⟩ := step_not_post hs ha
  refine ⟨by rw [List.length_set, hI.size], hI.counter, ?_, ?_, hI.target, fun hle => ?_⟩
  · apply forall_getElem?_set
    · exact (hI.post i m hm).run (.single a hs trivial)
    · exact fun j mj hj _ => hI.post j mj hj
  · apply forall_getElem?_set
    · rw [hposters]
      exact hI.posters i m hm
    · exact fun j mj hj _ => hI.posters j mj hj
  · apply forall_getElem?_set
    · rw [hposted]
      exact hI.tasks hle i m hm
    · exact fun j mj hj _ => hI.tasks hle j mj hj

/-- A call goes on in `Scheduler::post` of scheduler `i`: what `t` has held for it, and
    nothing else, is appended. -/
theorem Dealt.called (hI : Dealt n w) {a : Act τ α} {pc' : CallPc τ} {post : PostPc}
    (ht : w.callers[t]? = some pc) (hm : w.machines[i]? = some m) (hs : m.step H a = some m')
    (hposted : m'.posted = m.posted ++ pc.task i)
    (hposters : m'.posters = Function.update m.posters t post)
    (hpost : post = .appended ↔ pc' = .appended i)
    (hother : ∀ j, j ≠ i → pc.task j = [] ∧ pc ≠ .appended j ∧ pc' ≠ .appended j)
    (hfree : ∀ j, pc'.task j = []) (hfound : ∀ j, pc'.found = some j → j = i) :
    Dealt n (({ w with machines := w.machines.set i m' } : MultiMachine τ α).goto t pc') := by
  have hcallers := callers_goto ht pc'
  refine ⟨by rw [goto, List.length_set, hI.size], hI.counter, ?_, ?_, fun q pc₁ h j hj => ?_,
    fun hle => ?_⟩
  · apply forall_getElem?_set
    · exact (hI.post i m hm).run (.single a hs trivial)
    · exact fun j mj hj _ => hI.post j mj hj
  · apply forall_getElem?_set
    · intro q
      show _ ↔ (w.goto t pc').callers[q]? = _
      rw [hcallers, hposters]
      by_cases hq : q = t
      · rw [hq, Function.update_self, if_pos rfl, hpost, Option.some.injEq]
      · rw [Function.update_of_ne hq, if_neg hq]
        exact hI.posters i m hm q
    · intro j mj hj hne q
      show _ ↔ (w.goto t pc').callers[q]? = _
      obtain ⟨-, hpc, hpc'⟩ := hother j hne
      rw [hcallers, hI.posters j mj hj]
      by_cases hq : q = t
      · rw [hq, ht, if_pos rfl, Option.some.injEq, Option.some.injEq]
        exact iff_of_false hpc hpc'
      · rw [if_neg hq]
  · have hq : (w.goto t pc').callers[q]? = _ := h
    rw [hcallers] at hq
    split at hq
    next =>
      cases hq
      rw [hfound j hj, ← hI.size]
      exact (List.getElem?_eq_some_iff.mp hm).1
    next => exact hI.target q pc₁ hq j hj
  · apply forall_getElem?_set
    · obtain ⟨before, after, hhand, hhand', hone⟩ := inHand_goto ht pc' i
      have hold := hI.tasks hle i m hm
      rw [hhand] at hold
      show MultiMachine.Same _ (m'.posted ++ (w.goto t pc').inHand i) _
      rw [hhand', hposted, hfree i]
      exact hold.give (List.length_set ..) hone
    · intro j mj hj hne
      obtain ⟨before, after, hhand, hhand', -⟩ := inHand_goto ht pc' j
      have hold := hI.tasks hle j mj hj
      rw [hhand, (hother j hne).1, ← hfree j] at hold
      show MultiMachine.Same _ (mj.posted ++ (w.goto t pc').inHand j) _
      rw [hhand']
      exact ⟨hold.1, fun hone => hold.2 ((List.length_set ..).ge.trans hone)⟩

/-- **Step lemma.** -/
theorem Dealt.step {numThreads : Int32} {w' : MultiMachine τ α}
    (hI : Dealt numThreads.toNatClampNeg w) {a : MultiAct τ α} (h : w.step H a = some w') :
    Dealt numThreads.toNatClampNeg w' := by
  cases step_cases h with
  | thread i a m m' ha hm hs => exact hI.thread ha hm hs
  | fetchAdd t f ht hin => exact hI.fetchAdd f ht hin
  | append t i f m m' ht hm hs =>
      obtain ⟨hposted, hposters, -⟩ := step_postAppend hs
      apply hI.called ht hm hs _ hposters
      · exact iff_of_true rfl rfl
      · exact fun j hne => ⟨if_neg (Ne.symm hne), by simp, by simpa using Ne.symm hne⟩
      · exact fun _ => rfl
      · exact fun j hj => (Option.some.inj hj).symm
      · rw [hposted, show (CallPc.fetched i f).task i = [f] from if_pos rfl]
  | write t i m m' ht hm hs =>
      obtain ⟨hposted, hposters⟩ := step_postWrite hs
      apply hI.called ht hm hs _ hposters
      · exact iff_of_false (by simp) (by simp)
      · exact fun j hne => ⟨rfl, by simpa using Ne.symm hne, by simp⟩
      · exact fun _ => rfl
      · exact fun j hj => by cases hj
      · exact hposted.trans (List.append_nil _).symm

theorem callers_step {w' : MultiMachine τ α} {a : MultiAct τ α} (h : w.step H a = some w') :
    w'.callers.length = w.callers.length := by
  cases step_cases h with
  | thread i a m m' ha hm hs => rfl
  | fetchAdd t f ht hin => exact List.length_set ..
  | append t i f m m' ht hm hs => exact List.length_set ..
  | write t i m m' ht hm hs => exact List.length_set ..

theorem dealt_init (numThreads : Int32) (pipe : Nat → Fd × ℕ+) (junk : Coroutine τ α)
    (callers : Nat) : Dealt numThreads.toNatClampNeg (init numThreads pipe junk callers) := by
  have hidle : ∀ (q : Nat) (pc : CallPc τ),
      (init numThreads pipe junk callers).callers[q]? = some pc → pc = .idle :=
    fun q pc h => List.eq_of_mem_replicate (List.mem_of_getElem? h)
  have hnew : ∀ (i : Nat) (m : Machine τ α),
      (init numThreads pipe junk callers).machines[i]? = some m →
        m = Machine.init (pipe i).1 (pipe i).2 junk := by
    intro i m h
    obtain ⟨hlt, rfl⟩ := List.getElem?_eq_some_iff.mp h
    simp [init]
  refine ⟨by simp [init], rfl, fun i m hm => ?_, fun i m hm q => ?_, fun q pc h i hi => ?_,
    fun _ i m hm => ?_⟩
  · rw [hnew i m hm]
    exact Machine.postInv_init _ _ junk
  · rw [hnew i m hm]
    exact iff_of_false (by simp [Machine.init]) fun h => by cases hidle q _ h
  · rw [hidle q pc h] at hi
    cases hi
  · have hhand : (init numThreads pipe junk callers).inHand i = [] := by
      simp [inHand, init, CallPc.task]
    rw [hnew i m hm, hhand]
    exact ⟨.refl _, fun _ => rfl⟩

/-- No call waits for another. -/
theorem Dealt.goesOn {numThreads : Int32} (hI : Dealt numThreads.toNatClampNeg w)
    (hpos : 0 < numThreads) (hlt : w.calls.length < 2 ^ 31) (ht : w.callers[t]? = some pc)
    (f : τ) : (w.step H (pc.next t f)).isSome := by
  have hn := MultiScheduler.toNatClampNeg_pos hpos
  have hlen : ∀ i, pc.found = some i → i < w.machines.length := by
    intro i hi
    rw [hI.size]
    exact hI.target t pc ht i hi
  cases pc with
  | idle =>
      have hin : w.multi.InRange := by
        have hmod := Nat.mod_lt w.calls.length hn
        rw [MultiScheduler.InRange, hI.idx hlt, hI.multi_size]
        omega
      simp [CallPc.next, MultiMachine.step, ht, hin]
  | fetched i g =>
      have hi := hlen i rfl
      have hidle : w.machines[i].posters t = .idle := by
        cases hpost : w.machines[i].posters t with
        | idle => rfl
        | appended =>
            have h := (hI.posters i _ (List.getElem?_eq_getElem hi) t).mp hpost
            rw [ht] at h
            cases h
      simp [CallPc.next, MultiMachine.step, stepAt, ht, hi, Machine.step, hidle]
  | appended i =>
      have hi := hlen i rfl
      have hpost := (hI.posters i _ (List.getElem?_eq_getElem hi) t).mpr ht
      simp [CallPc.next, MultiMachine.step, stepAt, ht, hi, Machine.step, hpost]

/-- A call that nothing comes between is `MultiScheduler.post`. -/
theorem multi_post {w₁ w₂ : MultiMachine τ α} {f : τ} (h₁ : w.step H (.fetchAdd t f) = some w₁)
    (h₂ : w₁.step H (.append t) = some w₂) : w.multi.post f = some w₂.multi := by
  cases step_cases h₁ with
  | fetchAdd _ _ ht hin =>
      cases step_cases h₂ with
      | append _ i g m m' ht' hm hs =>
          have hat := (callers_goto ht (.fetched w.multi.idx.toInt.toNat f) t).symm.trans ht'
          rw [if_pos rfl] at hat
          cases hat
          rw [MultiScheduler.post, if_pos hin]
          exact congrArg (fun l => some (⟨l, w.rrIndex + 1⟩ : MultiScheduler τ α))
            (map_set Machine.sched hm (step_postAppend hs).2.2).symm

end Invariant

/-- **Dispatch.** In every run of the schedulers and of the threads that call
    `MultiScheduler::post`, of no more than 2^31 calls: the tasks that became coroutines of
    scheduler `i`, those swapped out there, those in its queue and those on the way to it
    are the tasks of the calls `i`, `i + n`, `i + 2n`, …, in this order if one thread makes
    all calls; these shares differ by at most one task; and every call can go on. -/
theorem dealt_once [Inhabited α] (H : StdHeap timerAfter) (numThreads : Int32)
    (pipe : Nat → Fd × ℕ+) (junk : Coroutine τ α) (callers : Nat) {w : MultiMachine τ α}
    (hrun : Run (step H) anyStep (init numThreads pipe junk callers) w)
    (hcalls : w.calls.length ≤ 2 ^ 31) :
    (∀ i m, w.machines[i]? = some m →
      (m.created ++ m.swapped ++ m.sched.postQueue ++ w.inHand i
        ~ share numThreads.toNatClampNeg i w.calls) ∧
      (callers ≤ 1 → m.created ++ m.swapped ++ m.sched.postQueue ++ w.inHand i
        = share numThreads.toNatClampNeg i w.calls) ∧
      (share numThreads.toNatClampNeg i w.calls).length
        = w.calls.length / numThreads.toNatClampNeg +
          if i < w.calls.length % numThreads.toNatClampNeg then 1 else 0) ∧
    (0 < numThreads → w.calls.length < 2 ^ 31 →
      ∀ (t : Nat) (pc : CallPc τ) (f : τ), w.callers[t]? = some pc →
        (w.step H (pc.next t f)).isSome) := by
  have hI : Dealt numThreads.toNatClampNeg w ∧ w.callers.length = callers := by
    refine hrun.invariant (P := fun w => Dealt numThreads.toNatClampNeg w ∧
      w.callers.length = callers) ⟨dealt_init .., List.length_replicate⟩ ?_
    rintro w a w' ⟨hI, hlen⟩ hs -
    exact ⟨hI.step hs, (callers_step hs).trans hlen⟩
  obtain ⟨hI, hlen⟩ := hI
  refine ⟨fun i m hm => ?_, fun hpos hlt t pc f ht => hI.goesOn hpos hlt ht f⟩
  obtain ⟨hperm, hone⟩ := hI.tasks hcalls i m hm
  have hi : i < numThreads.toNatClampNeg := by
    rw [← hI.size]
    exact (List.getElem?_eq_some_iff.mp hm).1
  rw [(hI.post i m hm).accounted.tasks]
  exact ⟨hperm, fun hle => hone (hlen.trans_le hle), length_share hi w.calls⟩

/-- Two schedulers and three calls of one thread; the second task has become a coroutine
    before the third is posted, and the first is still queued. -/
theorem dealt_once_two :
    ∃ w : MultiMachine Nat Nat,
      Run (step sortedTimers) anyStep (init 2 (fun i => (i, 64)) ⟨.entry, 0, .ready, 0⟩ 1) w ∧
      w.calls = [7, 8, 9] ∧ ∀ i m, w.machines[i]? = some m →
        m.created ++ m.swapped ++ m.sched.postQueue ++ w.inHand i = share 2 i [7, 8, 9] := by
  obtain ⟨w, hrun, h⟩ := exists_run_of_exec (step sortedTimers) anyStep
    (fun w => decide (w.calls = [7, 8, 9]))
    (init 2 (fun i => (i, 64)) ⟨.entry, 0, .ready, 0⟩ 1 : MultiMachine Nat Nat)
    [.fetchAdd 0 7, .append 0, .write 0, .fetchAdd 0 8, .append 0, .thread 1 .run,
      .thread 1 .readyLoop, .thread 1 (.fireTimers 0), .thread 1 (.epollWait [1]),
      .thread 1 .event, .write 0, .thread 1 .readPipe, .thread 1 .readPipe, .thread 1 .swapQueue,
      .thread 1 .drain, .fetchAdd 0 9]
    (by decide +kernel)
  have hcalls := of_decide_eq_true h
  exact ⟨w, hrun, hcalls, fun i m hm => hcalls ▸ ((dealt_once sortedTimers 2 _ _ 1 hrun
    (by rw [hcalls]; decide)).1 i m hm).2.1 (Nat.le_refl 1)⟩

end MultiMachine

end CoroutineHttp.Core
