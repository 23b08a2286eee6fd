/-
  CoroutineHttp.Library.Heap

  Implicit binary heaps on a list, and the contract of the two standard
  algorithms that maintain them.

  The arrangement the algorithms choose is not fixed by the standard, only that
  the result is a heap on the same elements and that `pop_heap` moves the front
  to the back.  `StdHeap` is that contract as a structure: a development that
  takes one as a parameter holds of every conforming implementation.
  `StdHeap.ofSort` is one such implementation, which keeps the range sorted.
-/

import Mathlib.Data.List.Sort

namespace CoroutineHttp.Library

universe u

variable {α : Type u}

/-- No element comes, in the order of `comp`, after its parent at
    `(i - 1) / 2`: with `comp a b` read as "`a` is less than `b`", the front is
    a greatest element. -/
def IsHeap (comp : α → α → Bool) (l : List α) : Prop :=
  ∀ (i : Nat) (p c : α), 0 < i → l[(i - 1) / 2]? = some p → l[i]? = some c →
    comp p c = false

theorem isHeap_nil (comp : α → α → Bool) : IsHeap comp [] := by
  intro i p c _ hp
  simp at hp

/-- A sorted range is a heap: the parent stands before the child. -/
theorem isHeap_of_pairwise {comp : α → α → Bool} {l : List α}
    (h : l.Pairwise fun a b => comp a b = false) : IsHeap comp l := by
  intro i p c hi hp hc
  obtain ⟨hip, rfl⟩ := List.getElem?_eq_some_iff.mp hp
  obtain ⟨hic, rfl⟩ := List.getElem?_eq_some_iff.mp hc
  exact List.pairwise_iff_getElem.mp h _ _ hip hic (by omega)

/-- The front of a heap is not below any other element, provided "not below" is
    a preorder. -/
theorem IsHeap.front {comp : α → α → Bool} {l : List α} {a : α}
    (hrefl : comp a a = false)
    (htrans : ∀ x y z, comp x y = false → comp y z = false → comp x z = false)
    (h : IsHeap comp (a :: l)) : ∀ c ∈ a :: l, comp a c = false := by
  have hidx : ∀ (i : Nat) (c : α), (a :: l)[i]? = some c → comp a c = false := by
    -- induction on the index: the parent's index is smaller
    intro i
    induction i using Nat.strong_induction_on with
    | _ i ih =>
        intro c hc
        by_cases hi : i = 0
        · subst hi
          simp only [List.getElem?_cons_zero, Option.some.injEq] at hc
          exact hc ▸ hrefl
        · have hlt : i < (a :: l).length := (List.getElem?_eq_some_iff.mp hc).1
          have hbound : (i - 1) / 2 < (a :: l).length := by omega
          have hparent : (a :: l)[(i - 1) / 2]? = some (a :: l)[(i - 1) / 2] :=
            List.getElem?_eq_getElem hbound
          exact htrans _ _ _ (ih _ (by omega) _ hparent)
            (h i _ c (by omega) hparent hc)
  intro c hc
  obtain ⟨i, hi⟩ := List.mem_iff_getElem?.mp hc
  exact hidx i c hi

/-- What `std::push_heap` and `std::pop_heap` promise for the comparator `comp`. -/
structure StdHeap (comp : α → α → Bool) where
  pushHeap : List α → List α
  popHeap : List α → List α
  /-- The algorithm works in place on the range it is given. -/
  pop_length : ∀ l : List α, (popHeap l).length = l.length
  /-- The range `l ++ [a]`, whose part before the last element is a heap,
      becomes a heap on the same elements. -/
  push_spec : ∀ (l : List α) (a : α), IsHeap comp l →
    (pushHeap (l ++ [a])).Perm (l ++ [a]) ∧ IsHeap comp (pushHeap (l ++ [a]))
  /-- The front moves to the back; the rest becomes a heap. -/
  pop_spec : ∀ (a : α) (l : List α), IsHeap comp (a :: l) →
    ∃ l', popHeap (a :: l) = l' ++ [a] ∧ l'.Perm l ∧ IsHeap comp l'

/-- A conforming implementation for a comparator whose negation is a total
    preorder: keep the range sorted. -/
def StdHeap.ofSort (comp : α → α → Bool)
    (htotal : ∀ a b, comp a b = false ∨ comp b a = false)
    (htrans : ∀ a b c, comp a b = false → comp b c = false → comp a c = false) :
    StdHeap comp where
  pushHeap l := l.insertionSort fun a b => comp a b = false
  popHeap
    | [] => []
    | a :: l => l.insertionSort (fun a b => comp a b = false) ++ [a]
  pop_length l := by cases l <;> simp
  push_spec l a _ := by
    have : Std.Total fun a b : α => comp a b = false := ⟨htotal⟩
    have : IsTrans α fun a b : α => comp a b = false := ⟨htrans⟩
    exact ⟨List.perm_insertionSort _ _, isHeap_of_pairwise (List.pairwise_insertionSort _ _)⟩
  pop_spec a l _ := by
    have : Std.Total fun a b : α => comp a b = false := ⟨htotal⟩
    have : IsTrans α fun a b : α => comp a b = false := ⟨htrans⟩
    exact ⟨_, rfl, List.perm_insertionSort _ _,
      isHeap_of_pairwise (List.pairwise_insertionSort _ _)⟩

end CoroutineHttp.Library
