/-
  CoroutineHttp.Library.Fifo

  A first-in first-out queue over a stretch of time: what is taken comes off the front,
  what is added goes behind.  Nobody is overtaken, so whoever has `before` in front of
  him is taken right after `before`.
-/

import Mathlib.Data.List.Nodup

namespace CoroutineHttp.Library

universe u

variable {α : Type u}

/-- From the queue `q` the entries `served` were taken, in this order, and others were put
    behind it; `q'` is left. -/
def Fifo (q served q' : List α) : Prop := ∃ new, q ++ new = served ++ q'

namespace Fifo

variable {q q' q'' served served' : List α}

theorem refl (q : List α) : Fifo q [] q := ⟨[], List.append_nil q⟩

/-- Nothing is taken. -/
theorem of_append {new : List α} (h : q' = q ++ new) : Fifo q [] q' := ⟨new, h.symm⟩

/-- The front is taken. -/
theorem front (p : α) (rest : List α) : Fifo (p :: rest) [p] rest := ⟨[], List.append_nil _⟩

theorem trans (h : Fifo q served q') (h' : Fifo q' served' q'') :
    Fifo q (served ++ served') q'' := by
  obtain ⟨new, hnew⟩ := h
  obtain ⟨new', hnew'⟩ := h'
  refine ⟨new ++ new', ?_⟩
  rw [← List.append_assoc, hnew, List.append_assoc, hnew', List.append_assoc]

/-- **Nobody is overtaken.** An entry with `before` in front of it has been taken right
    after `before`, or only entries of `before` have been taken and it is still queued. -/
theorem turn {before after : List α} {p : α} (h : Fifo (before ++ p :: after) served q') :
    before ++ [p] <+: served ∨ served <+: before ∧ p ∈ q' := by
  obtain ⟨new, hnew⟩ := h
  rw [List.append_assoc, List.cons_append] at hnew
  rcases List.append_eq_append_iff.mp hnew with ⟨part, hserved, hq⟩ | ⟨part, hbefore, hq⟩
  · cases part with
    | nil =>
        refine .inr ⟨by simp [hserved], ?_⟩
        rw [← show p :: (after ++ new) = q' from hq]
        exact List.mem_cons_self
    | cons b part =>
        obtain ⟨rfl, -⟩ := List.cons.inj hq
        exact .inl ⟨part, by simp [hserved]⟩
  · exact .inr ⟨⟨part, hbefore.symm⟩, by simp [hq]⟩

end Fifo

/-! ## Who comes first -/

/-- `x` stands in the list before the first `y`, and there is one. -/
def Before (x y : α) (l : List α) : Prop :=
  ∃ front back, l = front ++ y :: back ∧ y ∉ front ∧ x ∈ front

namespace Before

variable {x y : α} {l m : List α}

theorem append (h : Before x y l) (m : List α) : Before x y (l ++ m) := by
  obtain ⟨front, back, rfl, hy, hx⟩ := h
  exact ⟨front, back ++ m, by simp, hy, hx⟩

theorem append_left (h : Before x y m) (hy : y ∉ l) : Before x y (l ++ m) := by
  obtain ⟨front, back, rfl, hfront, hx⟩ := h
  refine ⟨l ++ front, back, (List.append_assoc _ _ _).symm, ?_, List.mem_append_right _ hx⟩
  rw [List.mem_append, not_or]
  exact ⟨hy, hfront⟩

/-- `x` is there already when the first `y` comes. -/
theorem of_mem (hx : x ∈ l) (hy : y ∉ l) (hm : y ∈ m) : Before x y (l ++ m) := by
  obtain ⟨front, back, rfl, hfront⟩ := List.eq_append_cons_of_mem hm
  refine ⟨l ++ front, back, (List.append_assoc _ _ _).symm, ?_, List.mem_append_left _ hx⟩
  rw [List.mem_append, not_or]
  exact ⟨hy, hfront⟩

/-- A first part of the list that has `y` is enough to see it. -/
theorem of_append (h : Before x y (l ++ m)) (hy : y ∈ l) : Before x y l := by
  obtain ⟨front, back, heq, hfront, hx⟩ := h
  rcases List.append_eq_append_iff.mp heq with ⟨part, hpart, -⟩ | ⟨part, hpart, hback⟩
  · exact absurd (hpart ▸ List.mem_append_left part hy) hfront
  · cases part with
    | nil =>
        rw [List.append_nil] at hpart
        exact absurd (hpart ▸ hy) hfront
    | cons b part =>
        obtain ⟨rfl, -⟩ := List.cons.inj hback
        exact ⟨front, part, hpart, hfront, hx⟩

end Before

end CoroutineHttp.Library
