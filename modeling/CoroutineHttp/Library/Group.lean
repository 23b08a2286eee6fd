/-
  CoroutineHttp.Library.Group

  A group whose members are broadcast to: who is in it, and what each is due to hear.

  The events of the group are one sequence (`log`, the last event at its end).  A member
  is due what is said from its joining on and until it leaves, a stretch of all that is
  said (`due_infix`): the members hear one conversation, each from another point on.
-/

import Mathlib.Data.List.Infix

namespace CoroutineHttp.Library

universe u v

/-- The events of a group. -/
inductive GroupEvent (ι : Type u) (μ : Type v) where
  | join (p : ι)
  | leave (p : ι)
  | say (msg : μ)
deriving DecidableEq, Repr

namespace GroupEvent

variable {ι : Type u} {μ : Type v}

/-- What is said, in its order. -/
def said (log : List (GroupEvent ι μ)) : List μ :=
  log.filterMap fun
    | .say msg => some msg
    | .join _ | .leave _ => none

variable [DecidableEq ι]

/-- An event, for the list of the members. -/
def enter : List ι → GroupEvent ι μ → List ι
  | ps, .join p => ps ++ [p]
  | ps, .leave p => ps.filter (· ≠ p)
  | ps, .say _ => ps

/-- The members, in the order they have joined. -/
def members (log : List (GroupEvent ι μ)) : List ι := log.foldl enter []

/-- An event, for `p`: whether it is in the group, and what it is due. -/
def listen (p : ι) : Bool × List μ → GroupEvent ι μ → Bool × List μ
  | s, .join q => if q = p then (true, []) else s
  | s, .leave q => if q = p then (false, s.2) else s
  | s, .say msg => if s.1 then (true, s.2 ++ [msg]) else s

/-- `p` after the events. -/
def listener (p : ι) (log : List (GroupEvent ι μ)) : Bool × List μ :=
  log.foldl (listen p) (false, [])

/-- What `p` is due: what is said since it has last joined, until it leaves. -/
def due (p : ι) (log : List (GroupEvent ι μ)) : List μ := (listener p log).2

/-! ## One more event -/

section Snoc

variable (p q : ι) (log : List (GroupEvent ι μ))

theorem members_concat (e : GroupEvent ι μ) : members (log ++ [e]) = enter (members log) e := by
  simp [members]

theorem listener_concat (e : GroupEvent ι μ) :
    listener p (log ++ [e]) = listen p (listener p log) e := by
  simp [listener]

theorem due_join_self : due p (log ++ [.join p]) = [] := by
  rw [due, listener_concat, listen, if_pos rfl]

theorem due_join {p q : ι} (h : q ≠ p) : due p (log ++ [.join q]) = due p log := by
  rw [due, listener_concat, listen, if_neg h, due]

theorem due_leave : due p (log ++ [.leave q]) = due p log := by
  rw [due, listener_concat, listen, due]
  split <;> rfl

/-- **Membership** is the same for the list and for the member. -/
theorem mem_members : p ∈ members log ↔ (listener p log).1 = true := by
  induction log using List.reverseRecOn with
  | nil => simp [members, listener]
  | append_singleton log e ih =>
      rw [members_concat, listener_concat]
      cases e with
      | join q =>
          rw [enter, listen, List.mem_append, List.mem_singleton, ih]
          by_cases h : q = p
          · simp [h]
          · simp [h, Ne.symm h]
      | leave q =>
          rw [enter, listen, List.mem_filter, ih]
          by_cases h : q = p
          · simp [h]
          · simp [h, Ne.symm h]
      | say msg =>
          rw [enter, listen, ih]
          by_cases h : (listener p log).1 = true <;> simp [h]

theorem due_say (msg : μ) :
    due p (log ++ [.say msg]) = due p log ++ if p ∈ members log then [msg] else [] := by
  rw [due, listener_concat, listen, due]
  by_cases h : p ∈ members log
  · rw [if_pos h, if_pos ((mem_members p log).mp h)]
  · rw [if_neg h, if_neg fun hin => h ((mem_members p log).mpr hin), List.append_nil]

end Snoc

/-! ## One conversation -/

/-- What a member is due ends with what was said last. -/
theorem due_stretch (p : ι) (log : List (GroupEvent ι μ)) :
    due p log <:+: said log ∧ ((listener p log).1 = true → due p log <:+ said log) := by
  induction log using List.reverseRecOn with
  | nil => exact ⟨List.nil_infix, fun _ => List.nil_suffix⟩
  | append_singleton log e ih =>
      obtain ⟨hstretch, hsuffix⟩ := ih
      have hsaid : said (log ++ [e]) = said log ++ said [e] := List.filterMap_append ..
      rw [hsaid, listener_concat]
      cases e with
      | join q =>
          by_cases h : q = p
          · rw [h, due_join_self]
            exact ⟨List.nil_infix, fun _ => List.nil_suffix⟩
          · rw [due_join log h, listen, if_neg h]
            simpa [said] using ⟨hstretch, hsuffix⟩
      | leave q =>
          rw [due_leave]
          refine ⟨by simpa [said] using hstretch, fun hin => ?_⟩
          by_cases h : q = p
          · rw [listen, if_pos h] at hin
            cases hin
          · rw [listen, if_neg h] at hin
            simpa [said] using hsuffix hin
      | say msg =>
          have hmsg : said [GroupEvent.say (ι := ι) msg] = [msg] := rfl
          rw [due_say, hmsg]
          by_cases h : (listener p log).1 = true
          · have hend : due p log ++ [msg] <:+ said log ++ [msg] := by
              obtain ⟨front, hfront⟩ := hsuffix h
              exact ⟨front, by rw [← hfront, List.append_assoc]⟩
            rw [if_pos ((mem_members p log).mpr h)]
            exact ⟨hend.isInfix, fun _ => hend⟩
          · rw [if_neg fun hmem => h ((mem_members p log).mp hmem), List.append_nil]
            refine ⟨List.infix_append_of_infix_left hstretch, fun hin => ?_⟩
            rw [listen, if_neg h] at hin
            exact absurd hin h

theorem due_infix (p : ι) (log : List (GroupEvent ι μ)) : due p log <:+: said log :=
  (due_stretch p log).1

end GroupEvent

end CoroutineHttp.Library
