/-
  CoroutineHttp.Core.RoundRobin

  `MultiScheduler::post`: a counter of type `int`, its remainder by the number of
  schedulers as an index, and the task appended to the scheduler found there.  The
  counter wraps after 2^31 calls, and the remainder of a negative number is not
  positive: from there on the index leaves the vector.  `fair_iff` says for every
  number of calls whether the next ones are dealt out evenly.
-/

import Mathlib.Data.Fintype.EquivFin
import Mathlib.Data.Int.ModEq
import CoroutineHttp.Core.Machine

namespace CoroutineHttp.Core

universe u v

variable {τ : Type u} {α : Type v}

/-- `class MultiScheduler`, without its threads. -/
structure MultiScheduler (τ : Type u) (α : Type v) where
  schedulers : List (Scheduler τ α)
  rrIndex : Int32

namespace MultiScheduler

/-- The constructor; `new` is what `std::make_unique<Scheduler>(i)` makes. -/
def init (numThreads : Int32) (new : Nat → Scheduler τ α) : MultiScheduler τ α :=
  ⟨(List.range numThreads.toNatClampNeg).map new, 0⟩

/-- `size`. -/
def size (ms : MultiScheduler τ α) : Int32 := .ofNat ms.schedulers.length

/-- `rr_index_.fetch_add(1)`, which does not stop at the largest `int`. -/
def fetchAdd (ms : MultiScheduler τ α) : MultiScheduler τ α :=
  { ms with rrIndex := ms.rrIndex + 1 }

/-- `rr_index_.fetch_add(1) % size`: the index of the next call. -/
def idx (ms : MultiScheduler τ α) : Int32 := ms.rrIndex % ms.size

/-- `schedulers_[idx]` is an element of the vector. -/
def InRange (ms : MultiScheduler τ α) : Prop :=
  0 ≤ ms.idx.toInt ∧ ms.idx.toInt < ms.schedulers.length

instance (ms : MultiScheduler τ α) : Decidable ms.InRange :=
  inferInstanceAs (Decidable (_ ∧ _))

/-- `post`; `none` where the vector is accessed out of bounds.  The wake-up byte that
    goes with the task is part of `Machine`. -/
def post (ms : MultiScheduler τ α) (f : τ) : Option (MultiScheduler τ α) :=
  if ms.InRange then
    some { ms.fetchAdd with
      schedulers := ms.schedulers.modify ms.idx.toInt.toNat fun s =>
        { s with postQueue := s.postQueue ++ [f] } }
  else none

/-- A run of calls. -/
def posts (ms : MultiScheduler τ α) (fs : List τ) : Option (MultiScheduler τ α) :=
  fs.foldlM post ms

/-- The index that call number `k` computes, the first being number 0. -/
def selected (ms : MultiScheduler τ α) (k : Nat) : Int := (fetchAdd^[k] ms).idx.toInt

/-- Call number `k` finds a scheduler, and the calls from there on deal out one task to
    each. -/
def Fair (ms : MultiScheduler τ α) (k : Nat) : Prop :=
  (0 ≤ ms.selected k ∧ ms.selected k < ms.schedulers.length) ∧
    ∀ i < ms.schedulers.length, ∃! j, j < ms.schedulers.length ∧ ms.selected (k + j) = i

/-! ## The counter -/

section Counter

theorem fetchAdd_iterate (ms : MultiScheduler τ α) (k : Nat) :
    (fetchAdd^[k] ms).schedulers = ms.schedulers ∧
      (fetchAdd^[k] ms).rrIndex = ms.rrIndex + .ofNat k := by
  induction k with
  | zero => exact ⟨rfl, by simp⟩
  | succ k ih =>
      rw [Function.iterate_succ_apply']
      refine ⟨ih.1, ?_⟩
      rw [fetchAdd, ih.2, Int32.add_assoc, Int32.ofNat_add]
      rfl

variable {numThreads : Int32} (new : Nat → Scheduler τ α)

theorem toNatClampNeg_pos (h : 0 < numThreads) : 0 < numThreads.toNatClampNeg := by
  have htoInt := Int32.lt_iff_toInt_lt.mp h
  rw [Int32.toInt_zero] at htoInt
  rw [← Int32.toNat_toInt]
  omega

theorem length_init : (init numThreads new).schedulers.length = numThreads.toNatClampNeg := by
  simp [init]

/-- Call number `k` computes the signed remainder of `k`, taken for an `int`. -/
theorem selected_init (k : Nat) :
    (init numThreads new).selected k
      = Int.tmod ((k : Int).bmod Int32.size) numThreads.toNatClampNeg := by
  obtain ⟨hscheds, hcount⟩ := fetchAdd_iterate (init numThreads new) k
  have hlt := numThreads.toNatClampNeg_lt
  have hzero : (init numThreads new).rrIndex = 0 := rfl
  rw [selected, idx, size, hscheds, length_init, hcount, Int32.toInt_mod,
    Int32.toInt_ofNat_of_lt hlt, hzero, Int32.zero_add, Int32.toInt_ofNat']

end Counter

/-! ## Windows of calls -/

section Window

/-- Consecutive numbers have every remainder once. -/
theorem existsUnique_add_mod (c : Nat) {n i : Nat} (hi : i < n) :
    ∃! j, j < n ∧ (c + j) % n = i := by
  have hn : 0 < n := Nat.zero_lt_of_lt hi
  have hlt := Nat.mod_lt c hn
  have hsum : c % n + (i + (n - c % n)) = i + n := by omega
  have hat : (c + (i + (n - c % n)) % n) % n = i := by
    calc (c + (i + (n - c % n)) % n) % n
        = (c % n + (i + (n - c % n))) % n := by simp [Nat.add_mod]
      _ = i := by rw [hsum, Nat.add_mod_right, Nat.mod_eq_of_lt hi]
  refine ⟨(i + (n - c % n)) % n, ⟨Nat.mod_lt _ hn, hat⟩, ?_⟩
  rintro j ⟨hj, hmod⟩
  -- two places with one remainder are a multiple of `n` apart
  have hcong : (c + j) ≡ c + (i + (n - c % n)) % n [MOD n] := hmod.trans hat.symm
  exact Nat.ModEq.eq_of_lt_of_lt (Nat.ModEq.add_left_cancel' c hcong) hj (Nat.mod_lt _ hn)

/-- As many calls as there are schedulers, each found once: no call misses. -/
theorem nonneg_of_each {n : Nat} {g : Nat → Int} (h : ∀ i < n, ∃! j, j < n ∧ g j = i) {j : Nat}
    (hj : j < n) : 0 ≤ g j := by
  -- the calls that find the schedulers are all the calls
  choose at_ hat _ using fun i : Fin n => h i i.isLt
  have hinj : Function.Injective fun i : Fin n => (⟨at_ i, (hat i).1⟩ : Fin n) := by
    intro i i' heq
    have hval : at_ i = at_ i' := congrArg Fin.val heq
    have hi := (hat i).2
    rw [hval, (hat i').2] at hi
    exact Fin.ext (by exact_mod_cast hi.symm)
  obtain ⟨i, hi⟩ := (Finite.injective_iff_surjective.mp hinj) ⟨j, hj⟩
  have hval : at_ i = j := congrArg Fin.val hi
  rw [← hval, (hat i).2]
  exact Int.natCast_nonneg _

/-- The remainder of a negative number is an index only if it is 0. -/
theorem neg_tmod_nonneg_iff {m n : Nat} : 0 ≤ (-(m : Int)).tmod n ↔ n ∣ m := by
  have hnonneg := Int.tmod_nonneg (n : Int) (Int.natCast_nonneg m)
  have hzero : (m : Int).tmod n = 0 ↔ n ∣ m := by
    rw [← Int.ofNat_tmod, Nat.dvd_iff_mod_eq_zero]
    exact_mod_cast Iff.rfl
  rw [Int.neg_tmod, ← hzero]
  omega

/-- The counter after `k` calls. -/
theorem bmod_size (k : Nat) :
    (k : Int).bmod Int32.size
      = if k % 2 ^ 32 < 2 ^ 31 then ((k % 2 ^ 32 : Nat) : Int)
        else -((2 ^ 32 - k % 2 ^ 32 : Nat) : Int) := by
  have hsize : Int32.size = 4294967296 := rfl
  rw [hsize, Int.bmod_def]
  split <;> split <;> push_cast at * <;> omega

/-- Of two numbers in a row only 1 divides both. -/
theorem eq_one_of_dvd_of_dvd_succ {n m : Nat} (h : n ∣ m) (hsucc : n ∣ m + 1) : n = 1 :=
  Nat.dvd_one.mp ((Nat.dvd_add_right h).mp hsucc)

end Window

/-! ## Which calls are dealt out evenly -/

/-- The next `n` values of the counter are no negative numbers, but perhaps for the last
    one, whose remainder is 0. -/
def BeforeWrap (n k : Nat) : Prop :=
  n = 1 ∨ k % 2 ^ 32 + n ≤ 2 ^ 31 ∨ (k % 2 ^ 32 + n = 2 ^ 31 + 1 ∧ n ∣ 2 ^ 31)

instance (n k : Nat) : Decidable (BeforeWrap n k) := inferInstanceAs (Decidable (_ ∨ _))

section Fair

variable {numThreads : Int32} {new : Nat → Scheduler τ α} {k : Nat}

/-- Before the counter wraps the index is the remainder. -/
theorem selected_of_beforeWrap (h : BeforeWrap numThreads.toNatClampNeg k) {j : Nat}
    (hj : j < numThreads.toNatClampNeg) :
    (init numThreads new).selected (k + j)
      = ((k % 2 ^ 32 + j) % numThreads.toNatClampNeg : Nat) := by
  rw [selected_init, bmod_size]
  generalize numThreads.toNatClampNeg = n at h hj
  rcases h with rfl | hle | ⟨hlast, hdvd⟩
  · rw [Nat.mod_one]
    exact Int.tmod_one _
  · have hmod : (k + j) % 2 ^ 32 = k % 2 ^ 32 + j := by omega
    rw [hmod, if_pos (by omega), Int.ofNat_tmod]
  · have hmod : (k + j) % 2 ^ 32 = k % 2 ^ 32 + j := by omega
    rw [hmod]
    split
    next => rw [Int.ofNat_tmod]
    next hneg =>
      -- the last of them, at -2^31
      have hj' : k % 2 ^ 32 + j = 2 ^ 31 := by omega
      have hvalue : 2 ^ 32 - 2 ^ 31 = 2 ^ 31 := by decide
      rw [hj', hvalue, Int.neg_tmod, ← Int.ofNat_tmod, Nat.mod_eq_zero_of_dvd hdvd]
      rfl

/-- After it the index is negative, or 0 when the number of schedulers divides it. -/
theorem selected_nonneg_iff (new : Nat → Scheduler τ α) (k : Nat) :
    0 ≤ (init numThreads new).selected k ↔
      k % 2 ^ 32 < 2 ^ 31 ∨ numThreads.toNatClampNeg ∣ 2 ^ 32 - k % 2 ^ 32 := by
  rw [selected_init, bmod_size]
  split
  next hsmall => exact iff_of_true (Int.tmod_nonneg _ (Int.natCast_nonneg _)) (.inl hsmall)
  next hlarge => rw [or_iff_right hlarge, neg_tmod_nonneg_iff]

/-- Calls that all find a scheduler end with the wrap, unless there is only one: of two
    negative values of the counter in a row one has another remainder than 0. -/
theorem wrap_of_nonneg {m : Nat} (hm : 2 ≤ m ∨ k % 2 ^ 32 < 2 ^ 31)
    (h : ∀ j < m, 0 ≤ (init numThreads new).selected (k + j)) :
    numThreads.toNatClampNeg = 1 ∨ k % 2 ^ 32 + m ≤ 2 ^ 31 ∨
      (k % 2 ^ 32 + m = 2 ^ 31 + 1 ∧ numThreads.toNatClampNeg ∣ 2 ^ 31) := by
  by_contra hnot
  obtain ⟨hone, hover, hlast⟩ : numThreads.toNatClampNeg ≠ 1 ∧ ¬ k % 2 ^ 32 + m ≤ 2 ^ 31 ∧
      ¬ (k % 2 ^ 32 + m = 2 ^ 31 + 1 ∧ numThreads.toNatClampNeg ∣ 2 ^ 31) := by
    simpa only [not_or] using hnot
  have hdvd : ∀ j < m, 2 ^ 31 ≤ k % 2 ^ 32 + j → k % 2 ^ 32 + j ≤ 2 ^ 32 →
      numThreads.toNatClampNeg ∣ 2 ^ 32 - (k % 2 ^ 32 + j) := by
    intro j hj hneg hle
    rcases hle.eq_or_lt with hzero | hlt
    · rw [hzero, Nat.sub_self]
      exact dvd_zero _
    · have hmod : (k + j) % 2 ^ 32 = k % 2 ^ 32 + j := by omega
      have hfound := h j hj
      rw [selected_nonneg_iff, hmod] at hfound
      exact hfound.resolve_left (Nat.not_lt.mpr hneg)
  -- the first negative value of the counter among the calls
  obtain ⟨j, hj, hneg, hle, hend⟩ : ∃ j < m, 2 ^ 31 ≤ k % 2 ^ 32 + j ∧
      k % 2 ^ 32 + j < 2 ^ 32 ∧ (j + 1 = m → k % 2 ^ 32 + j = 2 ^ 31) :=
    ⟨2 ^ 31 - k % 2 ^ 32, by omega, by omega, by omega, by omega⟩
  have hfirst := hdvd j hj hneg hle.le
  by_cases hnext : j + 1 = m
  · have hat := hend hnext
    rw [hat] at hfirst
    exact hlast ⟨by omega, hfirst⟩
  · have hsecond := hdvd (j + 1) (by omega) (by omega) (by omega)
    have hstep : 2 ^ 32 - (k % 2 ^ 32 + j) = 2 ^ 32 - (k % 2 ^ 32 + (j + 1)) + 1 := by omega
    rw [hstep] at hfirst
    exact hone (eq_one_of_dvd_of_dvd_succ hsecond hfirst)

/-- **Round robin.** The calls from number `k` on are dealt out one to each scheduler if
    and only if the counter does not wrap among them. -/
theorem fair_iff (h : 0 < numThreads) (new : Nat → Scheduler τ α) (k : Nat) :
    (init numThreads new).Fair k ↔ BeforeWrap numThreads.toNatClampNeg k := by
  have hpos := toNatClampNeg_pos h
  constructor
  · rintro ⟨-, heach⟩
    rw [length_init] at heach
    have hfound : ∀ j < numThreads.toNatClampNeg, 0 ≤ (init numThreads new).selected (k + j) :=
      fun j hj => nonneg_of_each (g := fun j => (init numThreads new).selected (k + j)) heach hj
    by_cases hone : numThreads.toNatClampNeg = 1
    · exact .inl hone
    · exact wrap_of_nonneg (.inl (by omega)) hfound
  · intro hwrap
    have hselected : ∀ j < numThreads.toNatClampNeg, (init numThreads new).selected (k + j)
        = ((k % 2 ^ 32 + j) % numThreads.toNatClampNeg : Nat) :=
      fun j hj => selected_of_beforeWrap hwrap hj
    have hmod := Nat.mod_lt (k % 2 ^ 32) hpos
    rw [Fair, length_init]
    refine ⟨?_, fun i hi => ?_⟩
    · have hfirst := hselected 0 hpos
      rw [Nat.add_zero, Nat.add_zero] at hfirst
      rw [hfirst]
      exact ⟨Int.natCast_nonneg _, by exact_mod_cast hmod⟩
    · refine (existsUnique_congr fun j => ?_).mp (existsUnique_add_mod (k % 2 ^ 32) hi)
      refine and_congr_right fun hj => ?_
      rw [hselected j hj]
      exact_mod_cast Iff.rfl

end Fair

/-- Four schedulers: the last calls that are dealt out to them, and the first that are
    not. -/
theorem fair_iff_four :
    let ms := init 4 fun _ => (Machine.init 3 1 ⟨.entry, (), .ready, 0⟩ : Machine Unit Unit).sched
    ms.Fair (2 ^ 31 - 3) ∧ ¬ ms.Fair (2 ^ 31 - 2) :=
  ⟨(fair_iff (by decide) _ _).mpr (by decide),
    fun hfair => absurd ((fair_iff (by decide) _ _).mp hfair) (by decide)⟩

/-- With three schedulers, call number 2^31 computes the index -2. -/
theorem third_scheduler_unfair :
    ¬ ∀ (numThreads : Int32) (new : Nat → Scheduler Unit Unit) (k : Nat), 0 < numThreads →
      (init numThreads new).Fair k := by
  intro hall
  have hfair := hall 3
    (fun _ => (Machine.init 3 1 ⟨.entry, (), .ready, 0⟩ : Machine Unit Unit).sched) (2 ^ 31)
    (by decide)
  have hfound := hfair.1.1
  rw [selected_init] at hfound
  exact absurd hfound (by decide +kernel)

/-! ## Runs of calls -/

section Runs

/-- Where the next call goes depends on the counter and on the number of schedulers. -/
theorem inRange_congr {ms ms' : MultiScheduler τ α} (hcount : ms.rrIndex = ms'.rrIndex)
    (hlen : ms.schedulers.length = ms'.schedulers.length) : ms.InRange ↔ ms'.InRange := by
  rw [InRange, InRange, idx, idx, size, size, hcount, hlen]

/-- A run of calls stays within the vector if and only if each call does. -/
theorem posts_isSome_iff_inRange (ms : MultiScheduler τ α) (fs : List τ) :
    (ms.posts fs).isSome ↔ ∀ k < fs.length, (fetchAdd^[k] ms).InRange := by
  induction fs generalizing ms with
  | nil => simp [posts]
  | cons f fs ih =>
      have hsplit : (∀ k < (f :: fs).length, (fetchAdd^[k] ms).InRange) ↔
          ms.InRange ∧ ∀ k < fs.length, (fetchAdd^[k] ms.fetchAdd).InRange := by
        rw [List.length_cons, Nat.forall_lt_succ_left]
        rfl
      rw [hsplit, posts, List.foldlM_cons, post]
      by_cases hin : ms.InRange
      · rw [if_pos hin, Option.bind_eq_bind, Option.bind_some, ← posts, ih]
        refine Iff.trans (forall₂_congr fun k _ => ?_) (and_iff_right hin).symm
        -- the queues have no part in it
        obtain ⟨hscheds, hcount⟩ := fetchAdd_iterate ms.fetchAdd k
        obtain ⟨hscheds', hcount'⟩ := fetchAdd_iterate { ms.fetchAdd with
          schedulers := ms.schedulers.modify ms.idx.toInt.toNat fun s =>
            { s with postQueue := s.postQueue ++ [f] } } k
        refine inRange_congr (hcount'.trans hcount.symm) ?_
        rw [hscheds, hscheds', List.length_modify]
        rfl
      · simp [hin]

variable {numThreads : Int32}

/-- Call number `k` finds a scheduler while the counter is not negative, and where the
    remainder is 0. -/
theorem inRange_iff (h : 0 < numThreads) (new : Nat → Scheduler τ α) (k : Nat) :
    (fetchAdd^[k] (init numThreads new)).InRange ↔
      k % 2 ^ 32 < 2 ^ 31 ∨ numThreads.toNatClampNeg ∣ 2 ^ 32 - k % 2 ^ 32 := by
  have hpos := toNatClampNeg_pos h
  have hlen : (fetchAdd^[k] (init numThreads new)).schedulers.length
      = numThreads.toNatClampNeg := by
    rw [(fetchAdd_iterate _ k).1, length_init]
  have hlt : (init numThreads new).selected k < numThreads.toNatClampNeg := by
    rw [selected_init]
    exact Int.tmod_lt_of_pos _ (by exact_mod_cast hpos)
  rw [InRange, hlen, ← selected, and_iff_left hlt, selected_nonneg_iff]

/-- **How long it lasts.** On two schedulers or more, 2^31 calls find one, and one more
    if their number divides 2^31; the next call accesses the vector out of bounds. -/
theorem posts_isSome_iff (h : 0 < numThreads) (new : Nat → Scheduler τ α) (fs : List τ) :
    ((init numThreads new).posts fs).isSome ↔
      numThreads.toNatClampNeg = 1 ∨ fs.length ≤ 2 ^ 31 ∨
        (fs.length = 2 ^ 31 + 1 ∧ numThreads.toNatClampNeg ∣ 2 ^ 31) := by
  rw [posts_isSome_iff_inRange]
  constructor
  · intro hall
    have hfound : ∀ j < fs.length, 0 ≤ (init numThreads new).selected (0 + j) := by
      intro j hj
      rw [Nat.zero_add]
      exact (hall j hj).1
    simpa only [Nat.zero_mod, Nat.zero_add] using wrap_of_nonneg (.inr (by decide)) hfound
  · intro hlen k hk
    rw [inRange_iff h new]
    rcases hlen with hone | hshort | ⟨hlast, hdvd⟩
    · exact .inr (hone ▸ one_dvd _)
    · exact .inl (by omega)
    · by_cases hwrapped : k = 2 ^ 31
      · exact .inr (hwrapped ▸ hdvd)
      · exact .inl (by omega)

end Runs

end MultiScheduler

end CoroutineHttp.Core
