/-
  CoroutineHttp.Library.Runs

  Finite runs of a partial step function, and the rules the system-level
  results are derived with: an invariant that one step keeps holds after every
  run, runs compose, and a list of actions can be executed to show one.

  A run carries a side condition `ok s a s'` on each of its steps.  A condition
  on actions, on the state before a step or on every state reached is a choice
  of `ok`; `fun _ _ _ => True` gives all runs.
-/

namespace CoroutineHttp.Library

universe u v

variable {σ : Type u} {α : Type v}

/-- `Run step ok s t`: some finite sequence of steps leads from `s` to `t`, and
    each of them satisfies `ok`. -/
inductive Run (step : σ → α → Option σ) (ok : σ → α → σ → Prop) : σ → σ → Prop where
  | refl (s : σ) : Run step ok s s
  | tail {s t t' : σ} (a : α) :
      Run step ok s t → step t a = some t' → ok t a t' → Run step ok s t'

/-- The side condition that admits every step. -/
def anyStep : σ → α → σ → Prop := fun _ _ _ => True

namespace Run

variable {step : σ → α → Option σ} {ok ok' : σ → α → σ → Prop}

/-- **Invariant rule.** What holds at the start and is kept by every admitted
    step holds at the end of the run. -/
theorem invariant {P : σ → Prop} {s t : σ} (hrun : Run step ok s t) (h0 : P s)
    (hstep : ∀ s a s', P s → step s a = some s' → ok s a s' → P s') : P t := by
  induction hrun with
  | refl => exact h0
  | tail a _ hs hok ih => exact hstep _ a _ ih hs hok

/-- A relation between the ends that is reflexive and that every admitted step
    extends relates the ends of every run. -/
theorem related {R : σ → σ → Prop} {s t : σ} (hrun : Run step ok s t) (h0 : R s s)
    (hstep : ∀ t a t', R s t → step t a = some t' → ok t a t' → R s t') : R s t :=
  hrun.invariant (P := R s) h0 hstep

theorem single {s s' : σ} (a : α) (hs : step s a = some s') (hok : ok s a s') :
    Run step ok s s' :=
  .tail a (.refl s) hs hok

theorem trans {s t r : σ} (h1 : Run step ok s t) (h2 : Run step ok t r) :
    Run step ok s r := by
  induction h2 with
  | refl => exact h1
  | tail a _ hs hok ih => exact .tail a ih hs hok

/-- A run of a stronger discipline is a run of a weaker one. -/
theorem mono {s t : σ} (hrun : Run step ok s t)
    (h : ∀ s a s', ok s a s' → ok' s a s') : Run step ok' s t := by
  induction hrun with
  | refl => exact .refl _
  | tail a _ hs hok ih => exact .tail a ih hs (h _ _ _ hok)

theorem any {s t : σ} (hrun : Run step ok s t) : Run step anyStep s t :=
  hrun.mono fun _ _ _ _ => trivial

end Run

/-- Execute a list of actions. -/
def exec (step : σ → α → Option σ) : σ → List α → Option σ
  | s, [] => some s
  | s, a :: as => (step s a).bind fun s' => exec step s' as

/-- Steps that check their side condition. -/
def checked (step : σ → α → Option σ) (ok : σ → α → σ → Prop)
    [∀ s a s', Decidable (ok s a s')] (s : σ) (a : α) : Option σ :=
  (step s a).bind fun s' => if ok s a s' then some s' else none

instance (s : σ) (a : α) (s' : σ) : Decidable (anyStep s a s') := isTrue trivial

/-- A list of actions that passes the checks is a run. -/
theorem run_of_exec {step : σ → α → Option σ} {ok : σ → α → σ → Prop}
    [∀ s a s', Decidable (ok s a s')] {s t : σ} {as : List α}
    (h : exec (checked step ok) s as = some t) : Run step ok s t := by
  -- on the actions; each check that passes admits its step
  induction as generalizing s with
  | nil =>
      cases h
      exact .refl _
  | cons a as ih =>
      simp only [exec, Option.bind_eq_some_iff] at h
      obtain ⟨s', hs, hrest⟩ := h
      obtain ⟨s₁, hstep, hcheck⟩ := Option.bind_eq_some_iff.mp hs
      split at hcheck
      next hok =>
        cases hcheck
        exact (Run.single a hstep hok).trans (ih hrest)
      next => cases hcheck

/-- The same, for the state that was computed. -/
theorem run_getD_of_exec {step : σ → α → Option σ} {ok : σ → α → σ → Prop}
    [∀ s a s', Decidable (ok s a s')] {s : σ} {as : List α}
    (h : (exec (checked step ok) s as).isSome) :
    Run step ok s ((exec (checked step ok) s as).getD s) := by
  obtain ⟨t, ht⟩ := Option.isSome_iff_exists.mp h
  rw [ht]
  exact run_of_exec ht

/-- A list of actions that passes the checks, and ends in a state with property `p`,
    shows a run to such a state. -/
theorem exists_run_of_exec (step : σ → α → Option σ) (ok : σ → α → σ → Prop)
    [∀ s a s', Decidable (ok s a s')] (p : σ → Bool) (s : σ) (as : List α)
    (h : (exec (checked step ok) s as).map p = some true) : ∃ t, Run step ok s t ∧ p t = true := by
  obtain ⟨t, hexec, hp⟩ := Option.map_eq_some_iff.mp h
  exact ⟨t, run_of_exec hexec, hp⟩

/-! ## Histories -/

section History

universe w

variable {β : Type w} {step : σ → α → Option σ} {ok : σ → α → σ → Prop}

/-- A step that also writes down what it has to say (`emit`). -/
def logged (step : σ → α → Option σ) (emit : σ → α → List β) (s : σ × List β) (a : α) :
    Option (σ × List β) :=
  (step s.1 a).map fun s' => (s', s.2 ++ emit s.1 a)

/-- The side condition on the steps, whatever is written down. -/
def unlogged (ok : σ → α → σ → Prop) : σ × List β → α → σ × List β → Prop :=
  fun s a s' => ok s.1 a s'.1

instance [∀ s a s', Decidable (ok s a s')] (s : σ × List β) (a : α) (s' : σ × List β) :
    Decidable (unlogged ok s a s') :=
  inferInstanceAs (Decidable (ok s.1 a s'.1))

theorem logged_eq_some_iff {emit : σ → α → List β} {s s' : σ × List β} {a : α} :
    logged step emit s a = some s' ↔ step s.1 a = some s'.1 ∧ s'.2 = s.2 ++ emit s.1 a := by
  simp only [logged, Option.map_eq_some_iff]
  constructor
  · rintro ⟨t, ht, rfl⟩
    exact ⟨ht, rfl⟩
  · rintro ⟨ht, hlog⟩
    exact ⟨s'.1, ht, Prod.ext rfl hlog.symm⟩

/-- The history does not change what can happen. -/
theorem Run.forget {emit : σ → α → List β} {s t : σ × List β}
    (hrun : Run (logged step emit) (unlogged ok) s t) : Run step ok s.1 t.1 := by
  induction hrun with
  | refl => exact .refl _
  | tail a _ hs hok ih => exact .tail a ih (logged_eq_some_iff.mp hs).1 hok

/-- Every run has a history. -/
theorem Run.logged {s t : σ} (hrun : Run step ok s t) (emit : σ → α → List β) (log : List β) :
    ∃ new, Run (logged step emit) (unlogged ok) (s, log) (t, log ++ new) := by
  induction hrun with
  | refl => exact ⟨[], by rw [List.append_nil]; exact .refl _⟩
  | @tail t t' a _ hs hok ih =>
      obtain ⟨new, hrun⟩ := ih
      refine ⟨new ++ emit t a, hrun.tail a ?_ hok⟩
      exact logged_eq_some_iff.mpr ⟨hs, (List.append_assoc _ _ _).symm⟩

end History

end CoroutineHttp.Library
