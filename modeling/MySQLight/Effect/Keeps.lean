import Mathlib.Order.Defs.Unbundled
import MySQLight.Effect.Fallible

/-!
What a computation does to its state whether or not it fails.

`Keeps R x` says that the state after `x` is related to the state before it
by `R`, on success and on every error alike. For a preorder `R` this is
read off the program text: one rule for each way computations are put
together, and an argument only where the state is written.
-/

namespace MySQLight.Effect

namespace Fallible

variable {σ τ ε α β : Type} {R : σ → σ → Prop}

/-- Every outcome of `x` is related to the state before. -/
def Keeps (R : σ → σ → Prop) (x : Fallible σ ε α) : Prop := ∀ s, R s (x.run s).2

/-- The relation of states to those in which a property has not been lost. -/
def Preserving (P : σ → Prop) (s s' : σ) : Prop := P s → P s'

instance (P : σ → Prop) : Std.Refl (Preserving P) := ⟨fun _ h => h⟩

instance (P : σ → Prop) : IsTrans σ (Preserving P) := ⟨fun _ _ _ h h' hs => h' (h hs)⟩

namespace Keeps

theorem modify {f : σ → σ} (h : ∀ s, R s (f s)) :
    Keeps R (modify f : Fallible σ ε PUnit) := h

/-- A computation that starts by looking at the state. -/
theorem get_bind {f : σ → Fallible σ ε α} (h : ∀ s, R s ((f s).run s).2) :
    Keeps R (get >>= f) := h

/-- A computation on a part of the state. -/
theorem zoom {Q : τ → τ → Prop} {part : σ → τ} {put : σ → τ → σ} {x : Fallible τ ε α}
    (hx : Keeps Q x) (h : ∀ s t, Q (part s) t → R s (put s t)) :
    Keeps R (Fallible.zoom part put x) :=
  fun s => h s _ (hx (part s))

section Refl

variable [Std.Refl R]

theorem pure (a : α) : Keeps R (pure a : Fallible σ ε α) := fun s => refl_of R s

theorem throw (e : ε) : Keeps R (throw e : Fallible σ ε α) := fun s => refl_of R s

theorem ofExcept (r : Except ε α) : Keeps R (ofExcept r : Fallible σ ε α) := fun s => refl_of R s

theorem get : Keeps R (get : Fallible σ ε σ) := fun s => refl_of R s

end Refl

section Trans

variable [IsTrans σ R]

theorem bind {x : Fallible σ ε α} {f : α → Fallible σ ε β} (hx : Keeps R x)
    (hf : ∀ a, Keeps R (f a)) : Keeps R (x >>= f) := by
  intro s
  have hs := hx s
  rw [run_bind]
  rcases hrun : x.run s with ⟨r, s'⟩
  rw [hrun] at hs
  cases r with
  | ok a => exact trans_of R hs (hf a s')
  | error e => exact hs

theorem tryCatch {x : Fallible σ ε α} {f : ε → Fallible σ ε α} (hx : Keeps R x)
    (hf : ∀ e, Keeps R (f e)) : Keeps R (tryCatch x f) := by
  intro s
  have hs := hx s
  rw [run_tryCatch]
  rcases hrun : x.run s with ⟨r, s'⟩
  rw [hrun] at hs
  cases r with
  | ok a => exact hs
  | error e => exact trans_of R hs (hf e s')

theorem forEach_mem [Std.Refl R] {f : α → Fallible σ ε Unit} {as : List α}
    (hf : ∀ a ∈ as, Keeps R (f a)) : Keeps R (forEach f as) := by
  induction as with
  | nil => exact pure ()
  | cons a as ih =>
    obtain ⟨ha, has⟩ := List.forall_mem_cons.mp hf
    exact bind ha fun _ => ih has

theorem forEach [Std.Refl R] {f : α → Fallible σ ε Unit} (hf : ∀ a, Keeps R (f a))
    (as : List α) : Keeps R (forEach f as) :=
  forEach_mem fun a _ => hf a

end Trans

end Keeps

/-! ### Errors -/

/-- Every error of `x` has the property. -/
def Throws (P : ε → Prop) (x : Fallible σ ε α) : Prop := ∀ s e, (x.run s).1 = .error e → P e

namespace Throws

variable {P : ε → Prop}

theorem pure (a : α) : Throws P (pure a : Fallible σ ε α) := nofun

theorem throw {e : ε} (h : P e) : Throws P (throw e : Fallible σ ε α) := by
  rintro s _ ⟨⟩
  exact h

theorem get_bind {f : σ → Fallible σ ε α} (h : ∀ s, Throws P (f s)) : Throws P (get >>= f) :=
  fun s => h s s

theorem bind {x : Fallible σ ε α} {f : α → Fallible σ ε β} (hx : Throws P x)
    (hf : ∀ a, Throws P (f a)) : Throws P (x >>= f) := by
  intro s e he
  rw [run_bind] at he
  rcases hrun : x.run s with ⟨r, s'⟩
  rw [hrun] at he
  cases r with
  | ok a => exact hf a s' e he
  | error e' =>
    cases he
    exact hx s _ (by rw [hrun])

theorem forEach {f : α → Fallible σ ε Unit} (hf : ∀ a, Throws P (f a)) (as : List α) :
    Throws P (forEach f as) := by
  induction as with
  | nil => exact pure ()
  | cons a as ih => exact bind (hf a) fun _ => ih

end Throws

end Fallible

end MySQLight.Effect
