import Mathlib.Data.List.Sort

/-!
Stable sorting by several comparisons, one after the other.

The sort of the standard library and the sort by insertion keep the order
of elements that compare equal, so they give the same list wherever the
comparison is a total preorder on the elements of the list.
-/

namespace MySQLight.Data

variable {α β : Type}

/-- The first of the comparisons that tells two elements apart. -/
def compareAll (cmps : List (α → α → Ordering)) (a b : α) : Ordering :=
  match cmps with
  | [] => .eq
  | cmp :: cmps => (cmp a b).then (compareAll cmps a b)

theorem transCmp_compareAll {cmps : List (β → β → Ordering)} {f : α → β}
    (h : ∀ cmp ∈ cmps, Std.TransCmp fun a b => cmp (f a) (f b)) :
    Std.TransCmp fun a b => compareAll cmps (f a) (f b) := by
  induction cmps with
  | nil => exact { eq_swap := rfl, isLE_trans := fun _ _ => rfl }
  | cons cmp cmps ih =>
    obtain ⟨hcmp, hcmps⟩ := List.forall_mem_cons.mp h
    have := ih hcmps
    exact inferInstanceAs (Std.TransCmp
      (compareLex (fun a b => cmp (f a) (f b)) fun a b => compareAll cmps (f a) (f b)))

/-- Comparing images. -/
theorem transCmp_on (cmp : β → β → Ordering) [Std.TransCmp cmp] (f : α → β) :
    Std.TransCmp fun a b => cmp (f a) (f b) :=
  { eq_swap := Std.OrientedCmp.eq_swap, isLE_trans := Std.TransCmp.isLE_trans }

theorem orderedInsert_append {r : α → α → Prop} [DecidableRel r] {a : α} {before after : List α}
    (hbefore : ∀ b ∈ before, ¬ r a b) (hafter : ∀ b ∈ after, r a b) :
    (before ++ after).orderedInsert r a = before ++ a :: after := by
  induction before with
  | nil =>
    cases after with
    | nil => rfl
    | cons b after => exact List.orderedInsert_cons_of_le r after (hafter b List.mem_cons_self)
  | cons b before ih =>
    obtain ⟨hb, hbefore⟩ := List.forall_mem_cons.mp hbefore
    rw [List.cons_append, List.orderedInsert_of_not_le r _ hb, ih hbefore]
    rfl

theorem mergeSort_eq_insertionSort {cmp : α → α → Ordering} [Std.TransCmp cmp] (l : List α) :
    l.mergeSort (fun a b => (cmp a b).isLE) = l.insertionSort fun a b => (cmp a b).isLE := by
  have htrans : ∀ a b c, (cmp a b).isLE → (cmp b c).isLE → (cmp a c).isLE :=
    fun _ _ _ => Std.TransCmp.isLE_trans
  have htotal : ∀ a b, ((cmp a b).isLE || (cmp b a).isLE) = true := by
    intro a b
    rw [show cmp b a = (cmp a b).swap from Std.OrientedCmp.eq_swap]
    cases cmp a b <;> rfl
  induction l with
  | nil => rw [List.mergeSort_nil, List.insertionSort_nil]
  | cons a l ih =>
    obtain ⟨before, after, hcons, hl, hbefore⟩ := List.mergeSort_cons htrans htotal a l
    rw [List.insertionSort_cons, ← ih, hl, hcons]
    refine (orderedInsert_append (fun b hb => ?_) ?_).symm
    · simpa using hbefore b hb
    · have hsorted := List.pairwise_mergeSort htrans htotal (a :: l)
      rw [hcons, List.pairwise_append, List.pairwise_cons] at hsorted
      exact hsorted.2.1.1

/-- The same where the comparison is a total preorder on the list only. -/
theorem mergeSort_eq_insertionSort_of_mem {cmp : α → α → Ordering} {l : List α}
    (h : Std.TransCmp fun a b : { a // a ∈ l } => cmp a b) :
    l.mergeSort (fun a b => (cmp a b).isLE) = l.insertionSort fun a b => (cmp a b).isLE := by
  have hmerge := List.map_mergeSort (l := l.attach) (f := Subtype.val)
    (r := fun a b : { a // a ∈ l } => (cmp a b).isLE) (s := fun a b => (cmp a b).isLE)
    fun _ _ _ _ => rfl
  have hinsertion := List.map_insertionSort (fun a b : { a // a ∈ l } => (cmp a b).isLE)
    (fun a b => (cmp a b).isLE) Subtype.val l.attach fun _ _ _ _ => Iff.rfl
  rw [List.attach_map_subtype_val] at hmerge hinsertion
  rw [← hmerge, ← hinsertion]
  exact congrArg (List.map Subtype.val) (mergeSort_eq_insertionSort l.attach)

end MySQLight.Data
