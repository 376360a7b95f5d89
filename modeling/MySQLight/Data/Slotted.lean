import MySQLight.Data.Bytes
import Mathlib.Algebra.Order.BigOperators.Group.List

/-!
Slotted buffers.

A slotted buffer stores byte strings of varying length. Each string has a
slot of four bytes, its offset and its length, in an array that grows
upwards from `base`; the strings themselves lie behind a free-space
pointer that moves downwards. `Slotted bs base free xs` says that the
buffer `bs` stores the strings `xs` in this way, in the order of their
slots: no slot reaches behind the pointer, no string in front of it, and
no two strings share a byte.

There are two things to do to such a buffer: insert strings, which are
written just below the pointer, and drop some, which only closes the gap
in the slot array. Each is one rule about the buffers before and after,
with the program that made the change left to the caller.
-/

namespace MySQLight.Data

/-! ### Arrays of fields of one width -/

section Fields

variable {α : Type} {field : α → Bytes} {w : Nat} (hw : ∀ a, (field a).length = w)

include hw

theorem length_flatMap_field (xs : List α) : (xs.flatMap field).length = w * xs.length := by
  induction xs with
  | nil => rfl
  | cons x xs ih =>
    rw [List.flatMap_cons, List.length_append, hw, ih, List.length_cons, Nat.mul_succ]
    omega

variable {bs : Bytes} {base : Nat} {xs ys : List α}

/-- The two parts of an array. -/
theorem slice_fields_append
    (h : slice bs base (base + w * (xs ++ ys).length) = (xs ++ ys).flatMap field)
    (hle : base + w * (xs ++ ys).length ≤ bs.length) :
    slice bs base (base + w * xs.length) = xs.flatMap field ∧
      slice bs (base + w * xs.length) (base + w * (xs ++ ys).length) = ys.flatMap field := by
  have hxs : w * xs.length ≤ w * (xs ++ ys).length :=
    Nat.mul_le_mul_left w (by rw [List.length_append]; omega)
  rw [← slice_append_slice (Nat.le_add_right base (w * xs.length)) (by omega),
    List.flatMap_append] at h
  refine List.append_inj h ?_
  rw [length_slice_of_le (by omega), length_flatMap_field hw]
  omega

/-- An element of an array. -/
theorem slice_field {x : α}
    (h : slice bs base (base + w * (xs ++ x :: ys).length) = (xs ++ x :: ys).flatMap field)
    (hle : base + w * (xs ++ x :: ys).length ≤ bs.length) :
    slice bs (base + w * xs.length) (base + w * xs.length + w) = field x := by
  rw [List.append_cons] at h hle
  have hfront := (slice_fields_append hw h hle).1
  have hlen : w * (xs ++ [x]).length = w * xs.length + w := by
    rw [List.length_append, List.length_singleton, Nat.mul_succ]
  have hwhole : w * (xs ++ [x]).length ≤ w * (xs ++ [x] ++ ys).length :=
    Nat.mul_le_mul_left w (by simp)
  have hback := (slice_fields_append hw hfront (by omega)).2
  rw [hlen, ← Nat.add_assoc] at hback
  simpa using hback

end Fields

/-! ### Slotted buffers -/

/-- A byte string at a place of the buffer. -/
structure Extent where
  off : Nat
  bytes : Bytes

namespace Extent

/-- The first offset behind the string. -/
def stop (x : Extent) : Nat := x.off + x.bytes.length

/-- The slot of the string. -/
def slot (x : Extent) : Bytes := be 2 x.off ++ be 2 x.bytes.length

/-- The two strings share no byte. -/
def Disjoint (x y : Extent) : Prop := x.stop ≤ y.off ∨ y.stop ≤ x.off

theorem Disjoint.symm {x y : Extent} (h : Disjoint x y) : Disjoint y x := Or.symm h

@[simp] theorem length_slot (x : Extent) : x.slot.length = 4 := by simp [slot]

end Extent

/-- The bytes of a slot array. -/
def slots (xs : List Extent) : Bytes := xs.flatMap Extent.slot

@[simp] theorem slots_nil : slots [] = [] := rfl

@[simp] theorem slots_cons (x : Extent) (xs : List Extent) :
    slots (x :: xs) = x.slot ++ slots xs := rfl

@[simp] theorem slots_append (xs ys : List Extent) : slots (xs ++ ys) = slots xs ++ slots ys := by
  simp [slots]

/-- The number of bytes of some strings. -/
def weight (xs : List Extent) : Nat := (xs.map fun x => x.bytes.length).sum

@[simp] theorem weight_nil : weight [] = 0 := rfl

@[simp] theorem weight_cons (x : Extent) (xs : List Extent) :
    weight (x :: xs) = x.bytes.length + weight xs := by simp [weight]

@[simp] theorem weight_append (xs ys : List Extent) :
    weight (xs ++ ys) = weight xs + weight ys := by
  simp [weight]

/-- The buffer stores the strings. -/
structure Slotted (bs : Bytes) (base free : Nat) (xs : List Extent) : Prop where
  small : bs.length < 256 ^ 2
  slots_eq : slice bs base (base + 4 * xs.length) = slots xs
  room : base + 4 * xs.length ≤ free
  stored : ∀ x ∈ xs, free ≤ x.off ∧ x.stop ≤ bs.length ∧ slice bs x.off x.stop = x.bytes
  disjoint : xs.Pairwise Extent.Disjoint
  total : weight xs + free ≤ bs.length

namespace Slotted

variable {bs bs' : Bytes} {base base' free free' : Nat} {xs ys zs : List Extent}

theorem free_le (h : Slotted bs base free xs) : free ≤ bs.length :=
  (Nat.le_add_left _ _).trans h.total

/-- A buffer without strings. -/
theorem nil (hsmall : bs.length < 256 ^ 2) (hbase : base ≤ free) (hfree : free ≤ bs.length) :
    Slotted bs base free [] where
  small := hsmall
  slots_eq := by simp
  room := hbase
  stored := by simp
  disjoint := List.Pairwise.nil
  total := by simpa using hfree

theorem slots_le (h : Slotted bs base free xs) : base + 4 * xs.length ≤ bs.length :=
  h.room.trans h.free_le

/-- The slots of two parts. -/
theorem slots_split (h : Slotted bs base free (xs ++ ys)) :
    slice bs base (base + 4 * xs.length) = slots xs ∧
      slice bs (base + 4 * xs.length) (base + 4 * (xs ++ ys).length) = slots ys :=
  slice_fields_append Extent.length_slot h.slots_eq h.slots_le

/-- The two numbers in the slot of a string. -/
theorem read_slot {x : Extent} (h : Slotted bs base free (xs ++ x :: ys)) :
    beNat (slice bs (base + 4 * xs.length) (base + 4 * xs.length + 2)) = x.off ∧
      beNat (slice bs (base + 4 * xs.length + 2) (base + 4 * xs.length + 4)) =
        x.bytes.length := by
  have hx := h.stored x (by simp)
  have hsmall := h.small
  have hslot := slice_field Extent.length_slot h.slots_eq h.slots_le
  have hstop : x.stop = x.off + x.bytes.length := rfl
  have hoff : slice bs (base + 4 * xs.length + 0) (base + 4 * xs.length + 2) = be 2 x.off := by
    rw [← slice_slice (show _ + 2 ≤ base + 4 * xs.length + 4 by omega), hslot]
    simp [slice, Extent.slot]
  have hlen : slice bs (base + 4 * xs.length + 2) (base + 4 * xs.length + 4) =
      be 2 x.bytes.length := by
    rw [← slice_slice (le_refl (base + 4 * xs.length + 4)), hslot]
    simp [slice, Extent.slot, List.take_of_length_le]
  rw [Nat.add_zero] at hoff
  rw [hoff, hlen]
  exact ⟨beNat_be_of_lt (by omega), beNat_be_of_lt (by omega)⟩

/-- The rule for insertion: the strings `ys` come between `xs` and `zs`,
stored in the gap in front of the pointer. -/
theorem insert (h : Slotted bs base free (xs ++ zs)) (hlen : bs'.length = bs.length)
    (hslots : slice bs' base' (base' + 4 * (xs ++ ys ++ zs).length) = slots (xs ++ ys ++ zs))
    (hroom : base' + 4 * (xs ++ ys ++ zs).length ≤ free')
    (hkeep : ∀ a b, free ≤ a → slice bs' a b = slice bs a b)
    (hnew : ∀ y ∈ ys, free' ≤ y.off ∧ y.stop ≤ free ∧ slice bs' y.off y.stop = y.bytes)
    (hdisjoint : ys.Pairwise Extent.Disjoint) (htotal : weight ys + free' = free) :
    Slotted bs' base' free' (xs ++ ys ++ zs) where
  small := hlen ▸ h.small
  slots_eq := hslots
  room := hroom
  stored := by
    intro x hx
    have hold : x ∈ xs ++ zs → free' ≤ x.off ∧ x.stop ≤ bs'.length ∧
        slice bs' x.off x.stop = x.bytes := by
      intro hmem
      obtain ⟨hfree, hstop, hbytes⟩ := h.stored x hmem
      exact ⟨by omega, hlen ▸ hstop, by rw [hkeep _ _ hfree, hbytes]⟩
    rcases List.mem_append.mp hx with hx | hx
    · rcases List.mem_append.mp hx with hx | hx
      · exact hold (List.mem_append_left _ hx)
      · obtain ⟨hfree, hstop, hbytes⟩ := hnew x hx
        have hle := h.free_le
        exact ⟨hfree, by omega, hbytes⟩
    · exact hold (List.mem_append_right _ hx)
  disjoint := by
    have hperm : (ys ++ (xs ++ zs)).Perm (xs ++ ys ++ zs) := by
      rw [← List.append_assoc]
      exact List.Perm.append_right _ List.perm_append_comm
    refine (hperm.pairwise_iff (R := Extent.Disjoint) fun h => h.symm).mp ?_
    refine List.pairwise_append.mpr ⟨hdisjoint, h.disjoint, ?_⟩
    intro y hy x hx
    exact Or.inl ((hnew y hy).2.1.trans (h.stored x hx).1)
  total := by
    have htotal' := h.total
    rw [weight_append] at htotal'
    rw [weight_append, weight_append, hlen]
    omega

/-- The rule for dropping strings: `zs` is what is left. -/
theorem drop (h : Slotted bs base free xs) (hsub : zs.Sublist xs) (hlen : bs'.length = bs.length)
    (hslots : slice bs' base (base + 4 * zs.length) = slots zs)
    (hkeep : ∀ a b, free ≤ a → slice bs' a b = slice bs a b) : Slotted bs' base free zs where
  small := hlen ▸ h.small
  slots_eq := hslots
  room := by
    have hle := hsub.length_le
    have hroom := h.room
    omega
  stored := by
    intro x hx
    obtain ⟨hfree, hstop, hbytes⟩ := h.stored x (hsub.subset hx)
    exact ⟨hfree, hlen ▸ hstop, by rw [hkeep _ _ hfree, hbytes]⟩
  disjoint := h.disjoint.sublist hsub
  total := by
    have hle : weight zs ≤ weight xs := List.Sublist.sum_le_sum (hsub.map _) (by simp)
    have htotal := h.total
    omega

end Slotted

end MySQLight.Data
