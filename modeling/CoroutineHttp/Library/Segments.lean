/-
  CoroutineHttp.Library.Segments

  The non-empty parts of a list between separators, as a path is taken apart into its
  segments: what joining and splitting them, and more separators than needed, do.
-/

import Mathlib.Logic.Relation
import CoroutineHttp.Library.Search

namespace CoroutineHttp.Library

universe u

variable {α : Type u} [DecidableEq α]

/-- The non-empty parts of `l` between the occurrences of `sep`. -/
def segments (sep : α) (l : List α) : List (List α) := (l.splitOn sep).filter (· ≠ [])

/-- A part that can be a segment. -/
def IsSegment (sep : α) (s : List α) : Prop := s ≠ [] ∧ sep ∉ s

instance (sep : α) (s : List α) : Decidable (IsSegment sep s) :=
  inferInstanceAs (Decidable (_ ∧ _))

@[simp] theorem segments_nil (sep : α) : segments sep [] = [] := by simp [segments]

theorem segments_append (sep : α) (l m : List α) :
    segments sep (l ++ sep :: m) = segments sep l ++ segments sep m := by
  rw [segments, List.splitOn_append_cons_self, List.filter_append, ← segments, ← segments]

/-- What is between separators has none. -/
theorem not_mem_of_mem_splitOn {sep : α} {l s : List α} (h : s ∈ l.splitOn sep) : sep ∉ s := by
  induction l generalizing s with
  | nil =>
      rw [List.splitOn_nil, List.mem_singleton] at h
      simp [h]
  | cons a l ih =>
      rw [List.splitOn_cons_eq_if_modifyHead] at h
      split at h
      next =>
        rcases List.mem_cons.mp h with rfl | h
        · simp
        · exact ih h
      next hne =>
        obtain ⟨t, ts, hsplit⟩ := List.exists_cons_of_ne_nil (List.splitOn_ne_nil sep l)
        rw [hsplit, List.modifyHead_cons] at h
        rw [hsplit] at ih
        rcases List.mem_cons.mp h with rfl | h
        · have ht := ih List.mem_cons_self
          rw [beq_iff_eq] at hne
          simp [ht, Ne.symm hne]
        · exact ih (List.mem_cons_of_mem _ h)

theorem isSegment_of_mem {sep : α} {l s : List α} (h : s ∈ segments sep l) : IsSegment sep s := by
  obtain ⟨hsplit, hne⟩ := List.mem_filter.mp h
  exact ⟨by simpa using hne, not_mem_of_mem_splitOn hsplit⟩

/-- A part between separators stands in the list as it is. -/
theorem infix_of_mem_splitOn {sep : α} {l s : List α} (h : s ∈ l.splitOn sep) : s <:+: l := by
  have hjoin : [sep].intercalate (l.splitOn sep) = l := List.intercalate_splitOn sep
  rw [← hjoin]
  generalize l.splitOn sep = ss at h
  induction ss with
  | nil => cases h
  | cons t ss ih =>
      cases ss with
      | nil =>
          rw [List.mem_singleton.mp h]
          simp
      | cons t' ss =>
          rw [List.intercalate_cons_cons]
          rcases List.mem_cons.mp h with rfl | h
          · exact ⟨[], [sep] ++ [sep].intercalate (t' :: ss), by simp⟩
          · exact (ih h).trans (List.suffix_append _ _).isInfix

/-- **Joined segments** split into themselves. -/
theorem segments_intercalate {sep : α} {ss : List (List α)} (h : ∀ s ∈ ss, IsSegment sep s) :
    segments sep ([sep].intercalate ss) = ss := by
  by_cases hnil : ss = []
  · subst hnil
    simp [segments]
  · rw [segments, List.splitOn_intercalate sep (fun s hs => (h s hs).2) hnil,
      List.filter_eq_self]
    intro s hs
    simpa using (h s hs).1

/-- A `getline` loop that drops the empty parts. -/
theorem filter_getlines (sep : α) (l : List α) :
    (getlines sep l).filter (· ≠ []) = segments sep l := by
  -- the two split alike up to a last empty part
  have hsplit : l.splitOn sep = getlines sep l ∨ l.splitOn sep = getlines sep l ++ [[]] := by
    induction l with
    | nil => exact .inr (List.splitOn_nil sep)
    | cons a l ih =>
        rw [List.splitOn_cons_eq_if_modifyHead, getlines]
        by_cases ha : a = sep
        · simp only [ha, beq_self_eq_true, if_true]
          exact ih.imp (congrArg _) (congrArg _)
        · simp only [beq_iff_eq, ha, if_false]
          cases hlines : getlines sep l with
          | nil =>
              rw [hlines] at ih
              rcases ih with ih | ih
              · exact absurd ih (List.splitOn_ne_nil sep l)
              · exact .inl (by simp [ih])
          | cons line lines =>
              rw [hlines] at ih
              exact ih.imp (fun h => by simp [h]) (fun h => by simp [h])
  rcases hsplit with h | h <;> simp [segments, h]

/-! ## Separators that do not count -/

/-- One separator more: beside another one, or at the end. -/
inductive Respaced (sep : α) : List α → List α → Prop where
  | repeated (l m : List α) : Respaced sep (l ++ sep :: m) (l ++ sep :: sep :: m)
  | trailing (l : List α) : Respaced sep l (l ++ [sep])

/-- The lists differ in repeated or trailing separators only. -/
abbrev SameButSpacing (sep : α) : List α → List α → Prop := Relation.EqvGen (Respaced sep)

theorem SameButSpacing.segments_eq {sep : α} {l m : List α} (h : SameButSpacing sep l m) :
    segments sep l = segments sep m := by
  induction h with
  | rel l m h =>
      cases h with
      | repeated l m =>
          have hsep : segments sep (sep :: m) = segments sep m := segments_append sep [] m
          rw [segments_append, segments_append, hsep]
      | trailing l => simp [segments_append]
  | refl l => rfl
  | symm l m h ih => exact ih.symm
  | trans l m k h h' ih ih' => exact ih.trans ih'

end CoroutineHttp.Library
