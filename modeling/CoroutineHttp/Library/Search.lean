/-
  CoroutineHttp.Library.Search

  Searching and splitting lists as the string class of C++ does: `find` is
  `basic_string::find`, `getlines` is the loop `while (getline(ss, part, sep))`
  over a string stream.
-/

import Mathlib.Data.List.Infix

namespace CoroutineHttp.Library

universe u

variable {α : Type u} [DecidableEq α]

/-! ## First occurrence -/

/-- The position of the first occurrence of `pat`; `none` is `npos`. -/
def find (pat : List α) : List α → Option Nat
  | [] => if pat = [] then some 0 else none
  | a :: l => if pat <+: a :: l then some 0 else (find pat l).map (· + 1)

theorem find_prefix {pat l : List α} (h : pat <+: l) : find pat l = some 0 := by
  cases l with
  | nil => simp [find, List.prefix_nil.mp h]
  | cons a l => simp [find, h]

/-- What `find` returns is an occurrence. -/
theorem find_spec {pat l : List α} {n : Nat} (h : find pat l = some n) :
    l = l.take n ++ pat ++ l.drop (n + pat.length) := by
  -- on the list: the pattern is in front, or found in the tail
  induction l generalizing n with
  | nil =>
      simp only [find] at h
      split at h <;> simp_all
  | cons a l ih =>
      simp only [find] at h
      split at h
      next hp =>
        obtain ⟨t, ht⟩ := hp
        cases h
        rw [← ht]
        simp
      next =>
        obtain ⟨k, hk, rfl⟩ := Option.map_eq_some_iff.mp h
        have hspec := ih hk
        have hlen : k + 1 + pat.length = k + pat.length + 1 := by omega
        simp only [List.take_succ_cons, hlen, List.drop_succ_cons, List.cons_append]
        rw [← hspec]

theorem find_le {pat l : List α} {n : Nat} (h : find pat l = some n) :
    n + pat.length ≤ l.length := by
  induction l generalizing n with
  | nil =>
      simp only [find] at h
      split at h
      next hp =>
        cases h
        simp [hp]
      next => cases h
  | cons a l ih =>
      simp only [find] at h
      split at h
      next hp =>
        cases h
        simpa using hp.length_le
      next =>
        obtain ⟨k, hk, rfl⟩ := Option.map_eq_some_iff.mp h
        have hle := ih hk
        simp only [List.length_cons]
        omega

/-- The first occurrence stays the first when the list grows. -/
theorem find_append {pat l : List α} {n : Nat} (h : find pat l = some n) (m : List α) :
    find pat (l ++ m) = some n := by
  induction l generalizing n with
  | nil =>
      simp only [find] at h
      split at h
      next hp =>
        cases h
        exact find_prefix (by simp [hp])
      next => cases h
  | cons a l ih =>
      simp only [find] at h
      split at h
      next hp =>
        cases h
        exact find_prefix (hp.trans (List.prefix_append _ m))
      next hp =>
        obtain ⟨k, hk, rfl⟩ := Option.map_eq_some_iff.mp h
        have hle := find_le hk
        -- the longer list starts with `pat` only if the shorter one does
        have hp' : ¬ pat <+: (a :: l) ++ m := by
          intro hpre
          exact hp (List.prefix_of_prefix_length_le hpre (List.prefix_append _ m)
            (by simp only [List.length_cons]; omega))
        rw [List.cons_append] at hp' ⊢
        simp [find, hp', ih hk]

/-- A stretch without the first element of `pat` is skipped. -/
theorem find_skip {p : α} {pat l : List α} (h : p ∉ l) (m : List α) :
    find (p :: pat) (l ++ m) = (find (p :: pat) m).map (· + l.length) := by
  induction l with
  | nil => simp
  | cons a l ih =>
      -- an occurrence here would start with the element that is missing
      have hne : ¬ (p :: pat) <+: a :: (l ++ m) := by
        intro hpre
        exact h ((List.cons_prefix_cons.mp hpre).1 ▸ List.mem_cons_self)
      rw [List.cons_append, find, if_neg hne, ih (fun hm => h (List.mem_cons_of_mem _ hm))]
      cases find (p :: pat) m <;> simp [Nat.add_assoc]

theorem find_cons_of_not_prefix {pat l : List α} {a : α} (h : ¬ pat <+: a :: l) :
    find pat (a :: l) = (find pat l).map (· + 1) := by
  simp [find, h]

/-! ## The shortest prefix that ends in a pattern -/

/-- The length of the shortest prefix of `l` that ends in `pat`. -/
def shortestEndingIn (pat l : List α) : Option Nat :=
  (List.range (l.length + 1)).find? fun n => decide (pat <:+ l.take n)

theorem find_eq_none {pat l : List α} (h : find pat l = none) (n : Nat) :
    ¬ pat <+: l.drop n := by
  induction l generalizing n with
  | nil =>
      intro hp
      rw [List.drop_nil, List.prefix_nil] at hp
      simp [find, hp] at h
  | cons a l ih =>
      simp only [find] at h
      split at h
      next => cases h
      next hne =>
        cases n with
        | zero => exact hne
        | succ n => exact ih (Option.map_eq_none_iff.mp h) n

/-- Nothing is found in a list without an occurrence. -/
theorem find_eq_none_of_not_infix {pat l : List α} (h : ¬ pat <:+: l) : find pat l = none := by
  cases hfind : find pat l with
  | none => rfl
  | some n => exact absurd ⟨l.take n, l.drop (n + pat.length), (find_spec hfind).symm⟩ h

theorem not_infix_of_find_eq_none {pat l : List α} (h : find pat l = none) : ¬ pat <:+: l := by
  rintro ⟨s, t, rfl⟩
  apply find_eq_none h s.length
  rw [List.append_assoc, List.drop_left]
  exact List.prefix_append _ _

/-- Before the first occurrence of an element it does not occur. -/
theorem not_mem_take_of_find {a : α} {l : List α} {n : Nat} (h : find [a] l = some n) :
    a ∉ l.take n := by
  induction l generalizing n with
  | nil => simp
  | cons b l ih =>
      simp only [find] at h
      split at h
      next =>
        cases h
        simp
      next hne =>
        obtain ⟨k, hk, rfl⟩ := Option.map_eq_some_iff.mp h
        have hb : a ≠ b := by
          rintro rfl
          exact hne (by simp)
        rw [List.take_succ_cons, List.mem_cons, not_or]
        exact ⟨hb, ih hk⟩

/-- Before what `find` returns there is no occurrence. -/
theorem find_first {pat l : List α} {n k : Nat} (h : find pat l = some n) (hk : k < n) :
    ¬ pat <+: l.drop k := by
  induction l generalizing n k with
  | nil =>
      simp only [find] at h
      split at h <;> cases h
      exact absurd hk (Nat.not_lt_zero k)
  | cons a l ih =>
      simp only [find] at h
      split at h
      next =>
        cases h
        exact absurd hk (Nat.not_lt_zero k)
      next hne =>
        obtain ⟨m, hm, rfl⟩ := Option.map_eq_some_iff.mp h
        cases k with
        | zero => exact hne
        | succ k => exact ih hm (Nat.lt_of_succ_lt_succ hk)

omit [DecidableEq α] in
/-- A prefix that ends in `pat` ends where an occurrence of `pat` does. -/
theorem suffix_take_iff {pat l : List α} {n : Nat} (hn : n ≤ l.length) :
    pat <:+ l.take n ↔ pat.length ≤ n ∧ pat <+: l.drop (n - pat.length) := by
  constructor
  · rintro ⟨t, ht⟩
    have hlen : t.length + pat.length = n := by
      rw [← List.length_append, ht, List.length_take]
      omega
    refine ⟨by omega, l.drop n, ?_⟩
    have hl : l = t ++ (pat ++ l.drop n) := by
      rw [← List.append_assoc, ht, List.take_append_drop]
    have hdrop : n - pat.length = t.length := by omega
    rw [hdrop]
    nth_rewrite 2 [hl]
    rw [List.drop_left]
  · rintro ⟨hle, t, ht⟩
    refine ⟨l.take (n - pat.length), ?_⟩
    have hl : l.take n = l.take (n - pat.length) ++ (l.drop (n - pat.length)).take pat.length := by
      rw [← List.take_add]
      congr 1
      omega
    rw [hl, ← ht, List.take_left]

/-- It ends with the first occurrence. -/
theorem shortestEndingIn_eq_find (pat l : List α) :
    shortestEndingIn pat l = (find pat l).map (· + pat.length) := by
  unfold shortestEndingIn
  cases h : find pat l with
  | none =>
      rw [Option.map_none, List.find?_range_eq_none]
      intro n hn
      have hno : ¬ pat <:+ l.take n := by
        rw [suffix_take_iff (Nat.le_of_lt_succ hn)]
        exact fun hp => find_eq_none h _ hp.2
      simpa using hno
  | some n =>
      have hle := find_le h
      rw [Option.map_some, List.find?_range_eq_some]
      refine ⟨?_, List.mem_range.mpr (by omega), fun k hk => ?_⟩
      · rw [decide_eq_true_iff, suffix_take_iff hle]
        refine ⟨Nat.le_add_left _ _, l.drop (n + pat.length), ?_⟩
        have hspec := find_spec h
        rw [Nat.add_sub_cancel]
        nth_rewrite 2 [hspec]
        rw [List.append_assoc, List.drop_left' (by rw [List.length_take]; omega)]
      · have hno : ¬ pat <:+ l.take k := by
          rw [suffix_take_iff (by omega)]
          rintro ⟨hpk, hp⟩
          exact find_first h (by omega) hp
        simpa using hno

/-! ## Lines -/

/-- The strings a `getline` loop with delimiter `sep` yields: a last empty one is
    not produced. -/
def getlines (sep : α) : List α → List (List α)
  | [] => []
  | a :: l =>
      if a = sep then [] :: getlines sep l
      else
        match getlines sep l with
        | [] => [[a]]
        | line :: lines => (a :: line) :: lines

theorem getlines_append {sep : α} {line : List α} (h : sep ∉ line) (rest : List α) :
    getlines sep (line ++ sep :: rest) = line :: getlines sep rest := by
  induction line with
  | nil => simp [getlines]
  | cons a line ih =>
      have ha : a ≠ sep := fun he => h (he ▸ List.mem_cons_self)
      simp [getlines, ha, ih fun hm => h (List.mem_cons_of_mem _ hm)]

/-- No line contains the delimiter. -/
theorem not_mem_of_mem_getlines {sep : α} {l line : List α} (h : line ∈ getlines sep l) :
    sep ∉ line := by
  induction l generalizing line with
  | nil => cases h
  | cons a l ih =>
      rw [getlines] at h
      split at h
      next =>
        rcases List.mem_cons.mp h with rfl | h
        · simp
        · exact ih h
      next hne =>
        split at h
        next => simp [List.mem_singleton.mp h, Ne.symm hne]
        next first lines hlines =>
          rw [hlines] at ih
          rcases List.mem_cons.mp h with rfl | h
          · simp [Ne.symm hne, ih List.mem_cons_self]
          · exact ih (List.mem_cons_of_mem _ h)

theorem getlines_last {sep : α} {line : List α} (h : sep ∉ line) (hne : line ≠ []) :
    getlines sep line = [line] := by
  induction line with
  | nil => exact absurd rfl hne
  | cons a line ih =>
      have ha : a ≠ sep := fun he => h (he ▸ List.mem_cons_self)
      cases line with
      | nil => simp [getlines, ha]
      | cons b line =>
          have hrest := ih (fun hm => h (List.mem_cons_of_mem _ hm)) (by simp)
          rw [getlines, if_neg ha, hrest]

end CoroutineHttp.Library
