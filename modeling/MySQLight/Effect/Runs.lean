import Mathlib.Tactic.Common

/-!
Runs of a machine.

A machine is a function `step : σ → α → σ` from a state and an input to the
next state, and a run is a fold of it over the inputs. What a caller has to
respect is a condition on each input in the state it meets (`Along`), and
what a machine keeps is shown one step at a time (`Along.invariant`).
-/

namespace MySQLight.Effect

variable {σ α : Type} {step : σ → α → σ} {ok ok' : σ → α → Prop}

/-- Every input meets the condition in the state it comes to. -/
def Along (step : σ → α → σ) (ok : σ → α → Prop) : List α → σ → Prop
  | [], _ => True
  | a :: as, s => ok s a ∧ Along step ok as (step s a)

instance decidableAlong [∀ s a, Decidable (ok s a)] :
    (as : List α) → (s : σ) → Decidable (Along step ok as s)
  | [], _ => .isTrue trivial
  | a :: as, s =>
    have := decidableAlong as (step s a)
    inferInstanceAs (Decidable (ok s a ∧ Along step ok as (step s a)))

/-- What every step keeps, every run keeps. -/
theorem foldl_invariant (inv : σ → Prop) (hstep : ∀ s a, inv s → inv (step s a)) {s : σ}
    (hs : inv s) (as : List α) : inv (as.foldl step s) := by
  induction as generalizing s with
  | nil => exact hs
  | cons a as ih => exact ih (hstep s a hs)

namespace Along

theorem of_forall {as : List α} (h : ∀ a ∈ as, ∀ s, ok s a) (s : σ) : Along step ok as s := by
  induction as generalizing s with
  | nil => trivial
  | cons a as ih =>
    obtain ⟨ha, has⟩ := List.forall_mem_cons.mp h
    exact ⟨ha s, ih has (step s a)⟩

/-- What every step that meets the condition keeps, every such run keeps. -/
theorem invariant {J : σ → Prop} (hstep : ∀ s a, J s → ok s a → J (step s a))
    {as : List α} {s : σ} (hs : J s) (has : Along step ok as s) : J (as.foldl step s) := by
  induction as generalizing s with
  | nil => exact hs
  | cons a as ih => exact ih (hstep s a hs has.1) has.2

/-- What follows from the condition and an invariant holds along the run, too. -/
theorem imp {J : σ → Prop} (hstep : ∀ s a, J s → ok s a → J (step s a))
    (h : ∀ s a, J s → ok s a → ok' s a) {as : List α} {s : σ} (hs : J s)
    (has : Along step ok as s) : Along step ok' as s := by
  induction as generalizing s with
  | nil => trivial
  | cons a as ih => exact ⟨h s a hs has.1, ih (hstep s a hs has.1) has.2⟩

theorem and {as : List α} {s : σ} (h : Along step ok as s) (h' : Along step ok' as s) :
    Along step (fun s a => ok s a ∧ ok' s a) as s := by
  induction as generalizing s with
  | nil => trivial
  | cons a as ih => exact ⟨⟨h.1, h'.1⟩, ih h.2 h'.2⟩

end Along

end MySQLight.Effect
