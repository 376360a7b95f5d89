import Mathlib.Tactic.Common

/-!
Binary search for a partition point.

`bisect below fuel low high` halves the range `[low, high)` until it is
empty, asking `below` about the middle: a yes moves the lower end behind
it, a no moves the upper end to it. Looking at an element may fail, and
then so does the search. Where the answers are yes exactly in front of
some index, the search returns that index, whatever lies outside the
range it was started on.
-/

namespace MySQLight.Data

/-- The search; `fuel` bounds the number of rounds. -/
def bisect (below : Nat → Option Bool) : Nat → Nat → Nat → Option Nat
  | 0, low, _ => some low
  | fuel + 1, low, high =>
    if low < high then do
      let mid := low + (high - 1 - low) / 2
      if ← below mid then bisect below fuel (mid + 1) high
      else bisect below fuel low mid
    else some low

/-- The partition rule. -/
theorem bisect_eq {below : Nat → Option Bool} {fuel low high m : Nat}
    (hbelow : ∀ i, low ≤ i → i < high → below i = some (decide (i < m)))
    (hlow : low ≤ m) (hhigh : m ≤ high) (hfuel : high ≤ low + fuel) :
    bisect below fuel low high = some m := by
  induction fuel generalizing low high with
  | zero =>
    have hm : m = low := by omega
    rw [bisect, hm]
  | succ fuel ih =>
    rw [bisect]
    by_cases hlt : low < high
    · have hmid := hbelow (low + (high - 1 - low) / 2) (by omega) (by omega)
      rw [if_pos hlt]
      simp only [hmid, Option.bind_eq_bind, Option.bind_some, decide_eq_true_eq]
      by_cases hm : low + (high - 1 - low) / 2 < m
      · rw [if_pos hm]
        refine ih ?_ (by omega) hhigh (by omega)
        intro i hi hi'
        exact hbelow i (by omega) hi'
      · rw [if_neg hm]
        refine ih ?_ hlow (by omega) (by omega)
        intro i hi hi'
        exact hbelow i hi (by omega)
    · rw [if_neg hlt]
      have hm : m = low := by omega
      rw [hm]

end MySQLight.Data
