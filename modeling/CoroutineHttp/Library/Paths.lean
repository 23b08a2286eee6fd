/-
  CoroutineHttp.Library.Paths

  File names as the system takes them apart: the directory a name leads to when nothing
  is known of the file system (symbolic links aside), and what cutting a name short does
  to its components.
-/

import Mathlib.Data.List.Forall2
import CoroutineHttp.Library.Ascii
import CoroutineHttp.Library.Segments

namespace CoroutineHttp.Library

/-- The component that leads to the parent directory. -/
def parentDir : Bytes := bytes ".."

/-- One component of a name, from the directory `dir`. -/
def enter (dir : List Bytes) (component : Bytes) : List Bytes :=
  if component = [] ∨ component = bytes "." then dir
  else if component = parentDir then dir.dropLast
  else dir ++ [component]

/-- Where the name leads, from the working directory `cwd`. -/
def resolve (cwd : List Bytes) (name : Bytes) : List Bytes :=
  (name.splitOn 47).foldl enter (if name.head? = some 47 then [] else cwd)

/-- Without a parent component there is no way up. -/
theorem prefix_foldl_enter {components : List Bytes} (h : parentDir ∉ components)
    (dir : List Bytes) : dir <+: components.foldl enter dir := by
  induction components generalizing dir with
  | nil => exact List.prefix_refl dir
  | cons c components ih =>
      have hc : c ≠ parentDir := fun heq => h (heq ▸ List.mem_cons_self)
      refine List.IsPrefix.trans ?_ (ih (fun hm => h (List.mem_cons_of_mem _ hm)) (enter dir c))
      unfold enter
      rw [if_neg hc]
      split
      · exact List.prefix_refl dir
      · exact List.prefix_append dir [c]

/-- A name cut short has the same components, the last one cut short. -/
theorem splitOn_append_forall₂ (sep : UInt8) (t u : Bytes) :
    ∃ cs rest, (t ++ u).splitOn sep = cs ++ rest ∧
      List.Forall₂ (fun c c' => c <+: c') (t.splitOn sep) cs := by
  -- on what is left of the name; its first component grows at the front
  induction t with
  | nil =>
      obtain ⟨c, rest, hsplit⟩ := List.exists_cons_of_ne_nil (List.splitOn_ne_nil sep u)
      refine ⟨[c], rest, by simp [hsplit], ?_⟩
      rw [List.splitOn_nil]
      exact .cons List.nil_prefix .nil
  | cons a t ih =>
      obtain ⟨cs, rest, hsplit, hpre⟩ := ih
      rw [List.cons_append, List.splitOn_cons_eq_if_modifyHead,
        List.splitOn_cons_eq_if_modifyHead]
      split
      next => exact ⟨[] :: cs, rest, by rw [hsplit, List.cons_append], .cons List.nil_prefix hpre⟩
      next =>
        obtain ⟨d, ds, ht⟩ := List.exists_cons_of_ne_nil (List.splitOn_ne_nil sep t)
        rw [ht] at hpre ⊢
        cases hpre with
        | cons hd hds =>
            rw [hsplit, List.cons_append, List.modifyHead_cons, List.modifyHead_cons]
            exact ⟨_, rest, rfl, .cons ((List.cons_prefix_cons).mpr ⟨rfl, hd⟩) hds⟩

/-- What a name cut short has for components are beginnings of those it had. -/
theorem prefix_of_mem_splitOn {sep : UInt8} {t c : Bytes} (h : c ∈ t.splitOn sep) (u : Bytes) :
    ∃ c' ∈ (t ++ u).splitOn sep, c <+: c' := by
  obtain ⟨cs, rest, hsplit, hpre⟩ := splitOn_append_forall₂ sep t u
  obtain ⟨i, hi, rfl⟩ := List.getElem_of_mem h
  have hi' : i < cs.length := hpre.length_eq ▸ hi
  refine ⟨cs[i], ?_, hpre.get hi hi'⟩
  rw [hsplit]
  exact List.mem_append_left _ (List.getElem_mem hi')

end CoroutineHttp.Library
