import Mathlib.Data.List.Perm.Basic
import Mathlib.Data.List.InsertIdx
import Mathlib.Tactic.Common

/-!
Enumeration in an arbitrary order.

A loop over a hash map visits the entries in an order the program cannot
rely on. Such a loop is modelled as a loop over `permute n keys` for a
number `n` that comes from the environment. Every value of `n` gives some
order of the keys (`permute_perm`) and every order is given by some value
of `n` (`exists_permute_eq`), so a statement about all `n` is a statement
about all iteration orders.
-/

namespace MySQLight.Data

variable {α : Type}

/-- The `n`-th order of a list: the head is inserted at the position the
lowest digit of `n` names, and the rest is ordered by the higher ones. -/
def permute : Nat → List α → List α
  | _, [] => []
  | n, x :: xs =>
    (permute (n / (xs.length + 1)) xs).insertIdx (n % (xs.length + 1)) x

theorem permute_perm (n : Nat) (xs : List α) : (permute n xs).Perm xs := by
  induction xs generalizing n with
  | nil => exact .refl _
  | cons x xs ih =>
    have hlen := (ih (n / (xs.length + 1))).length_eq
    have hlt : n % (xs.length + 1) < xs.length + 1 := Nat.mod_lt n (Nat.succ_pos _)
    exact (List.perm_insertIdx x _ (by omega)).trans ((ih _).cons x)

@[simp] theorem mem_permute {n : Nat} {xs : List α} {x : α} : x ∈ permute n xs ↔ x ∈ xs :=
  (permute_perm n xs).mem_iff

theorem nodup_permute {n : Nat} {xs : List α} (h : xs.Nodup) : (permute n xs).Nodup :=
  (permute_perm n xs).nodup_iff.mpr h

/-- Every iteration order is some `permute n`. -/
theorem exists_permute_eq {xs ys : List α} (h : ys.Perm xs) : ∃ n, permute n xs = ys := by
  induction xs generalizing ys with
  | nil => exact ⟨0, h.eq_nil.symm⟩
  | cons x xs ih =>
    -- Take `x` out of `ys`; its position is the lowest digit.
    obtain ⟨as, bs, rfl⟩ := List.append_of_mem (h.mem_iff.mpr List.mem_cons_self)
    have hrest : (as ++ bs).Perm xs := (List.perm_middle.symm.trans h).cons_inv
    obtain ⟨m, hm⟩ := ih hrest
    have hlen : as.length < xs.length + 1 := by
      have := hrest.length_eq
      rw [List.length_append] at this
      omega
    refine ⟨m * (xs.length + 1) + as.length, ?_⟩
    have hdiv : (m * (xs.length + 1) + as.length) / (xs.length + 1) = m := by
      rw [Nat.mul_comm, Nat.mul_add_div (Nat.succ_pos _), Nat.div_eq_of_lt hlen, Nat.add_zero]
    have hmod : (m * (xs.length + 1) + as.length) % (xs.length + 1) = as.length := by
      rw [Nat.mul_comm, Nat.mul_add_mod, Nat.mod_eq_of_lt hlen]
    rw [permute, hdiv, hmod, hm]
    clear hrest hm hlen hdiv hmod h
    induction as with
    | nil => rfl
    | cons a as ihas => simpa using ihas

end MySQLight.Data
