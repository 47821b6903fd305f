import Mathlib.Data.Option.Basic

namespace VeloxMatch

variable {σ ι : Type} (step : σ → ι → Option σ)

/-- The states a system reaches when every action it takes meets `ok` where it is taken. -/
inductive Runs (ok : σ → ι → Prop) (start : σ) : σ → Prop where
  | start : Runs ok start start
  | step {s s' : σ} (a : ι) : Runs ok start s → ok s a → step s a = some s' → Runs ok start s'

def anyAction : σ → ι → Prop := fun _ _ => True

instance (s : σ) (a : ι) : Decidable (anyAction s a) := inferInstanceAs (Decidable True)

/-- The state after a list of actions, if each of them is enabled in its turn. -/
def runActions : σ → List ι → Option σ
  | s, [] => some s
  | s, a :: as => (step s a).bind fun s' => runActions s' as

def ActionsOk (ok : σ → ι → Prop) : σ → List ι → Prop
  | _, [] => True
  | s, a :: as => ok s a ∧ ∀ s' ∈ step s a, ActionsOk ok s' as

instance decidableActionsOk (ok : σ → ι → Prop) [∀ s a, Decidable (ok s a)] :
    (s : σ) → (as : List ι) → Decidable (ActionsOk step ok s as)
  | _, [] => inferInstanceAs (Decidable True)
  | s, a :: as =>
    have := fun s' => decidableActionsOk ok s' as
    inferInstanceAs (Decidable (ok s a ∧ ∀ s' ∈ step s a, ActionsOk step ok s' as))

variable {step} {ok : σ → ι → Prop} {s s' start : σ}

/-- What holds at the start and is kept by every allowed action holds in every state. -/
theorem Runs.invariant {P : σ → Prop} (h : Runs step ok start s) (hstart : P start)
    (hstep : ∀ s a s', P s → ok s a → step s a = some s' → P s') : P s := by
  induction h with
  | start => exact hstart
  | step a _ hok hs ih => exact hstep _ a _ ih hok hs

theorem Runs.trans {mid : σ} (h : Runs step ok start mid) (h' : Runs step ok mid s) :
    Runs step ok start s := by
  induction h' with
  | start => exact h
  | step a _ hok hs ih => exact ih.step a hok hs

theorem runActions_append (as bs : List ι) :
    runActions step s (as ++ bs) = (runActions step s as).bind fun t => runActions step t bs := by
  induction as generalizing s with
  | nil => rfl
  | cons a as ih => simp only [List.cons_append, runActions, ih, Option.bind_assoc]

theorem runActions_cons {a : ι} (h : step s a = some s') (as : List ι) :
    runActions step s (a :: as) = runActions step s' as := by
  rw [runActions, h, Option.bind_some]

theorem runs_of_runActions {as : List ι} (hok : ActionsOk step ok s as)
    (h : runActions step s as = some s') : Runs step ok s s' := by
  induction as generalizing s with
  | nil =>
    cases h
    exact .start
  | cons a as ih =>
    obtain ⟨mid, hmid, hrest⟩ := Option.bind_eq_some_iff.mp h
    exact (Runs.start.step a hok.1 hmid).trans (ih (hok.2 mid hmid) hrest)

theorem exists_runs (step : σ → ι → Option σ) (ok : σ → ι → Prop) (s : σ) (as : List ι)
    (Q : σ → Prop) [DecidablePred Q] (hok : ActionsOk step ok s as)
    (h : (runActions step s as).any (fun t => decide (Q t)) = true) :
    ∃ t, Runs step ok s t ∧ Q t := by
  cases hrun : runActions step s as with
  | none => simp [hrun] at h
  | some t => exact ⟨t, runs_of_runActions hok hrun, by simpa [hrun] using h⟩

end VeloxMatch
