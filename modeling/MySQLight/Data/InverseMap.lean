import Mathlib.Logic.Function.Basic

/-!
Maps that are inverse to each other through a partial function.

A map from keys to values and a partial function on values give a relation
between what the function yields and the keys. `IsInverse` says that a
second map is this relation: it finds the key of every value that the
function is defined on, and nothing else. So the function does not yield the
same for two values that are present.

Adding and removing a binding on both sides keeps this.
-/

namespace MySQLight.Data

variable {K V I : Type}

/-- The map `index` finds the keys of the values of `data` by what `f`
yields for them. -/
def IsInverse (f : V → Option I) (data : K → Option V) (index : I → Option K) : Prop :=
  ∀ i k, index i = some k ↔ ∃ v, data k = some v ∧ f v = some i

/-- Change what is found by `i`, if there is an `i`. -/
def rebind [DecidableEq I] (i : Option I) (k : Option K) (index : I → Option K) : I → Option K :=
  i.elim index fun i => Function.update index i k

@[simp] theorem rebind_none [DecidableEq I] (k : Option K) (index : I → Option K) :
    rebind none k index = index := rfl

@[simp] theorem rebind_some [DecidableEq I] (i : I) (k : Option K) (index : I → Option K) :
    rebind (some i) k index = Function.update index i k := rfl

namespace IsInverse

variable {f : V → Option I} {data : K → Option V} {index : I → Option K} {k : K} {v : V} {i : I}

theorem empty (f : V → Option I) {data : K → Option V} (h : ∀ k, data k = none)
    {index : I → Option K} (hindex : ∀ i, index i = none) : IsInverse f data index := by
  intro i k
  simp [h, hindex]

/-- Nothing changes for a value that is found by the same. -/
theorem rebind_self [DecidableEq I] (h : IsInverse f data index) (hk : data k = some v) :
    rebind (f v) (some k) (rebind (f v) none index) = index := by
  cases hv : f v with
  | none => rfl
  | some i =>
    rw [rebind_some, rebind_some, Function.update_idem, Function.update_eq_self_iff]
    exact ((h i k).mpr ⟨v, hk, hv⟩).symm

variable [DecidableEq K] [DecidableEq I]

theorem insert_some (h : IsInverse f data index) (hk : data k = none) (hv : f v = some i)
    (hi : index i = none) :
    IsInverse f (Function.update data k (some v)) (Function.update index i (some k)) := by
  intro i' k'
  by_cases hi' : i' = i <;> by_cases hk' : k' = k
  · simp [hi', hk', hv]
  · -- Another key under `i` would have been found before.
    have hnone : ¬ ∃ v, data k' = some v ∧ f v = some i := by
      rw [← h i k', hi]
      simp
    simp [hi', Function.update_of_ne hk', hnone, Ne.symm hk']
  · have hnone : index i' ≠ some k := by
      rw [ne_eq, h i' k]
      simp [hk]
    simp [hk', Function.update_of_ne hi', hnone, hv, Ne.symm hi']
  · rw [Function.update_of_ne hi', Function.update_of_ne hk', h i' k']

theorem erase_some (h : IsInverse f data index) (hk : data k = some v) (hv : f v = some i) :
    IsInverse f (Function.update data k none) (Function.update index i none) := by
  intro i' k'
  by_cases hi' : i' = i <;> by_cases hk' : k' = k
  · simp [hi', hk']
  · have hone : ¬ ∃ v, data k' = some v ∧ f v = some i := by
      rw [← h i k', (h i k).mpr ⟨v, hk, hv⟩]
      simp [Ne.symm hk']
    simp [hi', Function.update_of_ne hk', hone]
  · have hnone : index i' ≠ some k := by
      rw [ne_eq, h i' k]
      rintro ⟨w, hw, hfw⟩
      rw [hk] at hw
      cases hw
      rw [hv] at hfw
      exact hi' (Option.some.inj hfw).symm
    simp [hk', Function.update_of_ne hi', hnone]
  · rw [Function.update_of_ne hi', Function.update_of_ne hk', h i' k']

/-- A new value under a new key, found by something nothing was found by. -/
theorem insert (h : IsInverse f data index) (hk : data k = none)
    (hi : ∀ i ∈ f v, index i = none) :
    IsInverse f (Function.update data k (some v)) (rebind (f v) (some k) index) := by
  cases hv : f v with
  | some i => exact h.insert_some hk hv (hi i hv)
  | none =>
    intro i k'
    rw [rebind_none, h i k']
    by_cases hk' : k' = k
    · subst hk'
      simp [hk, hv]
    · rw [Function.update_of_ne hk']

theorem erase (h : IsInverse f data index) (hk : data k = some v) :
    IsInverse f (Function.update data k none) (rebind (f v) none index) := by
  cases hv : f v with
  | some i => exact h.erase_some hk hv
  | none =>
    intro i k'
    rw [rebind_none, h i k']
    by_cases hk' : k' = k
    · subst hk'
      simp [hk, hv]
    · rw [Function.update_of_ne hk']

end IsInverse

end MySQLight.Data
