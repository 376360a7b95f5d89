import Mathlib.Logic.Basic
import Mathlib.Tactic.Common

/-!
Computations on a mutable state that may fail.

A function of an imperative program that returns an error leaves behind
whatever it had changed by then. `Fallible σ ε α` keeps that: the new
state is part of the outcome whether the computation succeeds or not. The
`do` notation and early `throw` then follow the program text, and the
lemmas here run a computation step by step.
-/

namespace MySQLight.Effect

/-- A computation over the state `σ` that returns an `α` or an `ε`, and
the state it reached in both cases. -/
def Fallible (σ ε α : Type) : Type := σ → Except ε α × σ

namespace Fallible

variable {σ τ ε α β : Type}

/-- The outcome from a given state. -/
def run (x : Fallible σ ε α) (s : σ) : Except ε α × σ := x s

instance : Monad (Fallible σ ε) where
  pure a := fun s => (.ok a, s)
  bind x f := fun s =>
    match x s with
    | (.ok a, s') => f a s'
    | (.error e, s') => (.error e, s')

instance : MonadExceptOf ε (Fallible σ ε) where
  throw e := fun s => (.error e, s)
  tryCatch x f := fun s =>
    match x s with
    | (.ok a, s') => (.ok a, s')
    | (.error e, s') => f e s'

instance : MonadStateOf σ (Fallible σ ε) where
  get := fun s => (.ok s, s)
  set s' := fun _ => (.ok (), s')
  modifyGet f := fun s => (.ok (f s).1, (f s).2)

/-- Run a computation on a part of the state. -/
def zoom (part : σ → τ) (put : σ → τ → σ) (x : Fallible τ ε α) : Fallible σ ε α :=
  fun s => ((x (part s)).1, put s (x (part s)).2)

/-- A result that needs no state. -/
def ofExcept (r : Except ε α) : Fallible σ ε α := fun s => (r, s)

/-- Run the body for every element, stopping at the first error. -/
def forEach (f : α → Fallible σ ε Unit) : List α → Fallible σ ε Unit
  | [] => pure ()
  | a :: as => do
      f a
      forEach f as

@[simp] theorem run_pure (a : α) (s : σ) : (pure a : Fallible σ ε α).run s = (.ok a, s) := rfl

@[simp] theorem run_throw (e : ε) (s : σ) :
    (throw e : Fallible σ ε α).run s = (.error e, s) := rfl

@[simp] theorem run_get (s : σ) : (get : Fallible σ ε σ).run s = (.ok s, s) := rfl

@[simp] theorem run_set (s s' : σ) : (set s' : Fallible σ ε PUnit).run s = (.ok (), s') := rfl

@[simp] theorem run_modify (f : σ → σ) (s : σ) :
    (modify f : Fallible σ ε PUnit).run s = (.ok (), f s) := rfl

@[simp] theorem run_zoom (part : σ → τ) (put : σ → τ → σ) (x : Fallible τ ε α) (s : σ) :
    (zoom part put x).run s = ((x.run (part s)).1, put s (x.run (part s)).2) := rfl

@[simp] theorem run_ofExcept (r : Except ε α) (s : σ) :
    (ofExcept r : Fallible σ ε α).run s = (r, s) := rfl

theorem run_bind (x : Fallible σ ε α) (f : α → Fallible σ ε β) (s : σ) :
    (x >>= f).run s =
      match x.run s with
      | (.ok a, s') => (f a).run s'
      | (.error e, s') => (.error e, s') := rfl

theorem bind_assoc {γ : Type} (x : Fallible σ ε α) (f : α → Fallible σ ε β)
    (g : β → Fallible σ ε γ) : x >>= f >>= g = x >>= fun a => f a >>= g := by
  funext s
  show (x >>= f >>= g).run s = (x >>= fun a => f a >>= g).run s
  rw [run_bind, run_bind, run_bind]
  rcases x.run s with ⟨_ | a, s'⟩
  · rfl
  · exact (run_bind (f a) g s').symm

theorem run_tryCatch (x : Fallible σ ε α) (f : ε → Fallible σ ε α) (s : σ) :
    (tryCatch x f).run s =
      match x.run s with
      | (.ok a, s') => (.ok a, s')
      | (.error e, s') => (f e).run s' := rfl

variable {x : Fallible σ ε α}

theorem run_bind_of_ok {s s' : σ} {a : α} (h : x.run s = (.ok a, s')) (f : α → Fallible σ ε β) :
    (x >>= f).run s = (f a).run s' := by
  rw [run_bind, h]

theorem run_bind_of_error {s s' : σ} {e : ε} (h : x.run s = (.error e, s'))
    (f : α → Fallible σ ε β) : (x >>= f).run s = (.error e, s') := by
  rw [run_bind, h]

/-- A successful sequence is a successful first part and a successful
second one from where the first ended. -/
theorem run_bind_eq_ok {f : α → Fallible σ ε β} {s s' : σ} {b : β} :
    (x >>= f).run s = (.ok b, s') ↔
      ∃ a t, x.run s = (.ok a, t) ∧ (f a).run t = (.ok b, s') := by
  rw [run_bind]
  rcases x.run s with ⟨r, t⟩
  cases r with
  | ok a => simp
  | error e => simp

/-- The loop rule: an invariant that relates the elements still to come to
the state, and that every round re-establishes, holds when none is left. -/
theorem forEach_invariant (inv : List α → σ → Prop) (f : α → Fallible σ ε Unit) {as : List α}
    {s : σ} (hs : inv as s)
    (hstep : ∀ a as s, inv (a :: as) s → ∃ s', (f a).run s = (.ok (), s') ∧ inv as s') :
    ∃ s', (forEach f as).run s = (.ok (), s') ∧ inv [] s' := by
  induction as generalizing s with
  | nil => exact ⟨s, rfl, hs⟩
  | cons a as ih =>
    obtain ⟨s₁, hrun, hs₁⟩ := hstep a as s hs
    obtain ⟨s', hrest, hs'⟩ := ih hs₁
    refine ⟨s', ?_, hs'⟩
    rw [forEach, run_bind_of_ok hrun, hrest]

/-- A loop whose rounds each write a place of their own, for a state that is
a function of places. -/
theorem forEach_slots {κ T : Type} [DecidableEq κ] {slot : α → κ}
    {f : α → Fallible (κ → T) ε Unit} {P : α → T → Prop} {as : List α} {s : κ → T}
    (hslots : (as.map slot).Nodup)
    (hstep : ∀ a ∈ as, ∀ s' : κ → T, s' (slot a) = s (slot a) →
      ∃ t, (f a).run s' = (.ok (), Function.update s' (slot a) t) ∧ P a t) :
    ∃ s', (forEach f as).run s = (.ok (), s') ∧ (∀ a ∈ as, P a (s' (slot a))) ∧
      ∀ k, (∀ a ∈ as, slot a ≠ k) → s' k = s k := by
  induction as generalizing s with
  | nil => exact ⟨s, rfl, nofun, fun _ _ => rfl⟩
  | cons a as ih =>
    obtain ⟨hfirst, hnodup⟩ := List.nodup_cons.mp hslots
    obtain ⟨ha, has⟩ := List.forall_mem_cons.mp hstep
    have hne : ∀ b ∈ as, slot a ≠ slot b :=
      fun b hb heq => hfirst (List.mem_map.mpr ⟨b, hb, heq.symm⟩)
    obtain ⟨t, hrun, ht⟩ := ha s rfl
    obtain ⟨s', hrest, hP, hsame⟩ := ih (s := Function.update s (slot a) t) hnodup
      fun b hb s' hs' => has b hb s' (hs'.trans (Function.update_of_ne (hne b hb).symm ..))
    refine ⟨s', ?_, List.forall_mem_cons.mpr ⟨?_, hP⟩, fun k hk => ?_⟩
    · rw [forEach, run_bind_of_ok hrun, hrest]
    · rw [hsame (slot a) fun b hb => (hne b hb).symm, Function.update_self]
      exact ht
    · obtain ⟨hka, hkas⟩ := List.forall_mem_cons.mp hk
      rw [hsame k hkas, Function.update_of_ne hka.symm]

end Fallible

end MySQLight.Effect
