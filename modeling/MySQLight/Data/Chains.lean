import Mathlib.Data.Fintype.Order
import Mathlib.Logic.Relation
import Mathlib.Order.WellFounded

/-!
How far the chains of a relation go.

A relation with finitely many targets has no infinite chain from an element
that leads to no cycle, and then the chains from it are bounded.
-/

namespace MySQLight.Data

open Relation

variable {α : Type} {r : α → α → Prop}

/-- Every chain from the element has fewer elements than that. -/
def Shallow (r : α → α → Prop) : Nat → α → Prop
  | 0, _ => False
  | n + 1, a => ∀ b, r a b → Shallow r n b

theorem Shallow.pos {n : Nat} {a : α} (h : Shallow r n a) : 0 < n := by
  cases n with
  | zero => exact h.elim
  | succ n => exact Nat.succ_pos n

theorem Shallow.mono {m n : Nat} {a : α} (h : Shallow r m a) (hle : m ≤ n) : Shallow r n a := by
  induction n generalizing m a with
  | zero =>
    cases Nat.le_zero.mp hle
    exact h
  | succ n ih =>
    cases m with
    | zero => exact h.elim
    | succ m => exact fun b hb => ih (h b hb) (Nat.succ_le_succ_iff.mp hle)

/-- A way from the element leads to one that lies on a cycle. -/
def ReachesCycle (r : α → α → Prop) (a : α) : Prop := ∃ b, ReflTransGen r a b ∧ TransGen r b b

/-- Without a cycle the chains are bounded. -/
theorem exists_shallow (hfinite : {b | ∃ a, r a b}.Finite) {a : α} (ha : ¬ ReachesCycle r a) :
    ∃ n, Shallow r n a := by
  let S : Set α := insert a {b | ∃ a, r a b}
  have hS : Finite S := hfinite.insert a
  -- On the elements that lead to no cycle, the transitive closure is a finite strict order.
  let below : S → S → Prop := fun x y => TransGen r y x ∧ ¬ ReachesCycle r y
  have htrans : IsTrans S below :=
    ⟨fun x y z hxy hyz => ⟨hyz.1.trans hxy.1, hyz.2⟩⟩
  have hirrefl : Std.Irrefl below := ⟨fun x h => h.2 ⟨x, .refl, h.1⟩⟩
  have hwf : WellFounded below := Finite.wellFounded_of_trans_of_irrefl below
  suffices h : ∀ x : S, ¬ ReachesCycle r x → ∃ n, Shallow r n x from h ⟨a, .inl rfl⟩ ha
  intro x
  induction x using hwf.induction with
  | _ x ih =>
    intro hx
    have hnext : ∀ y : S, ∃ n, r x y → Shallow r n y := by
      intro y
      by_cases hy : r x y
      · obtain ⟨n, hn⟩ := ih y ⟨.single hy, hx⟩ fun ⟨b, hyb, hb⟩ => hx ⟨b, hyb.head hy, hb⟩
        exact ⟨n, fun _ => hn⟩
      · exact ⟨0, fun h => absurd h hy⟩
    choose f hf using hnext
    obtain ⟨n, hn⟩ := Finite.exists_le f
    exact ⟨n + 1, fun b hb => (hf ⟨b, .inr ⟨x, hb⟩⟩ hb).mono (hn _)⟩

end MySQLight.Data
