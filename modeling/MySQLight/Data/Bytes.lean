import Mathlib.Data.List.Lex
import Mathlib.Order.Basic
import Mathlib.Tactic.Common
import Mathlib.Tactic.Ring

/-!
Byte strings as a fixed-layout program sees them: ranges that are read,
ranges that are overwritten, and big-endian numbers stored in them.

Everything a program reads from a buffer is a `slice`, everything it
writes is a `copyAt`, and the whole algebra of field accesses is then
three facts: a slice of the range just written is what was written, and
a slice that ends before the range or starts behind it is what it was
before. Numbers come in through `beNat`, which reads a slice, and `be`,
which produces the bytes to copy.

The last section orders byte strings lexicographically, with the
three-way comparison a program calls and the linear order a proof uses.
-/

namespace MySQLight.Data

/-- A byte buffer, or a byte string used as a value. -/
abbrev Bytes : Type := List UInt8

instance lawfulBEqBytes : LawfulBEq Bytes := inferInstance

/-- The bytes of a text in ASCII. -/
def ascii (s : String) : Bytes := s.toList.map fun c => UInt8.ofNat c.toNat

/-! ### Ranges -/

/-- The bytes at offsets `[a, b)`. -/
def slice (bs : Bytes) (a b : Nat) : Bytes := (bs.drop a).take (b - a)

/-- Overwrite the buffer from offset `off` with `src`. What does not fit
behind `off` is dropped, so the length of the buffer never changes. -/
def copyAt (dst : Bytes) (off : Nat) (src : Bytes) : Bytes :=
  dst.take off ++ src.take (dst.length - off) ++ dst.drop (off + src.length)

theorem length_slice (bs : Bytes) (a b : Nat) :
    (slice bs a b).length = min (b - a) (bs.length - a) := by
  simp [slice]

theorem length_slice_of_le {bs : Bytes} {a b : Nat} (hb : b ≤ bs.length) :
    (slice bs a b).length = b - a := by
  rw [length_slice]
  omega

@[simp] theorem slice_self (bs : Bytes) (a : Nat) : slice bs a a = [] := by
  simp [slice]

theorem slice_append_slice {bs : Bytes} {a b c : Nat} (hab : a ≤ b) (hbc : b ≤ c) :
    slice bs a b ++ slice bs b c = slice bs a c := by
  have hdrop : bs.drop b = (bs.drop a).drop (b - a) := by
    rw [List.drop_drop]
    congr 1
    omega
  have hlen : c - a = (b - a) + (c - b) := by omega
  rw [slice, slice, slice, hdrop, hlen, List.take_add]

theorem slice_slice {bs : Bytes} {a b c d : Nat} (h : a + d ≤ b) :
    slice (slice bs a b) c d = slice bs (a + c) (a + d) := by
  simp only [slice, List.drop_take, List.take_take, List.drop_drop]
  congr 1
  omega

@[simp] theorem length_copyAt (dst : Bytes) (off : Nat) (src : Bytes) :
    (copyAt dst off src).length = dst.length := by
  simp [copyAt]
  omega

theorem copyAt_of_le {dst src : Bytes} {off : Nat} (h : off + src.length ≤ dst.length) :
    copyAt dst off src = dst.take off ++ src ++ dst.drop (off + src.length) := by
  rw [copyAt, List.take_of_length_le (by omega : src.length ≤ dst.length - off)]

theorem slice_copyAt_self {dst src : Bytes} {off : Nat} (h : off + src.length ≤ dst.length) :
    slice (copyAt dst off src) off (off + src.length) = src := by
  have hoff : (dst.take off).length = off := by
    rw [List.length_take]
    omega
  rw [copyAt_of_le h, slice, List.append_assoc, List.drop_append_of_le_length (by omega),
    List.drop_of_length_le (by omega), List.nil_append, Nat.add_sub_cancel_left,
    List.take_left]

theorem slice_copyAt_of_le {dst src : Bytes} {off a b : Nat} (hb : b ≤ off)
    (hoff : off ≤ dst.length) :
    slice (copyAt dst off src) a b = slice dst a b := by
  have hlen : (dst.take off).length = off := by
    rw [List.length_take]
    omega
  rcases Nat.lt_or_ge b a with hab | hab
  · simp [slice, Nat.sub_eq_zero_of_le hab.le]
  · rw [copyAt, slice, slice, List.append_assoc, List.drop_append_of_le_length (by omega),
      List.take_append_of_le_length (by rw [List.length_drop]; omega), List.drop_take,
      List.take_take]
    congr 1
    omega

theorem slice_copyAt_of_ge {dst src : Bytes} {off a b : Nat} (ha : off + src.length ≤ a)
    (h : off + src.length ≤ dst.length) :
    slice (copyAt dst off src) a b = slice dst a b := by
  have hlen : (dst.take off ++ src).length = off + src.length := by
    rw [List.length_append, List.length_take]
    omega
  rw [copyAt_of_le h, slice, slice, List.drop_append, hlen,
    List.drop_of_length_le (by omega), List.nil_append, List.drop_drop]
  congr 2
  omega

/-! ### Big-endian numbers -/

/-- The number a byte string denotes, most significant byte first. -/
def beNat : Bytes → Nat
  | [] => 0
  | b :: bs => b.toNat * 256 ^ bs.length + beNat bs

/-- The `w` bytes of `n`, most significant byte first; higher digits are
lost, as in a fixed-width machine integer. -/
def be : Nat → Nat → Bytes
  | 0, _ => []
  | w + 1, n => UInt8.ofNat (n / 256 ^ w) :: be w n

@[simp] theorem length_be (w n : Nat) : (be w n).length = w := by
  induction w with
  | zero => rfl
  | succ w ih => simp [be, ih]

@[simp] theorem beNat_replicate_zero (w : Nat) : beNat (List.replicate w 0) = 0 := by
  induction w with
  | zero => rfl
  | succ w ih => simp [List.replicate_succ, beNat, ih]

theorem beNat_lt (bs : Bytes) : beNat bs < 256 ^ bs.length := by
  induction bs with
  | nil => simp [beNat]
  | cons b bs ih =>
    have hb : b.toNat < 256 := b.toNat_lt
    calc beNat (b :: bs) < b.toNat * 256 ^ bs.length + 256 ^ bs.length := by
          rw [beNat]
          omega
      _ = (b.toNat + 1) * 256 ^ bs.length := by ring
      _ ≤ 256 * 256 ^ bs.length := Nat.mul_le_mul_right _ hb
      _ = 256 ^ (b :: bs).length := by rw [List.length_cons]; ring

theorem beNat_be (w n : Nat) : beNat (be w n) = n % 256 ^ w := by
  induction w with
  | zero => simp [be, beNat, Nat.mod_one]
  | succ w ih =>
    have hdigit : (UInt8.ofNat (n / 256 ^ w)).toNat = n / 256 ^ w % 256 := by simp
    rw [be, beNat, length_be, ih, hdigit, Nat.pow_succ, Nat.mod_mul]
    ring

theorem beNat_be_of_lt {w n : Nat} (h : n < 256 ^ w) : beNat (be w n) = n := by
  rw [beNat_be, Nat.mod_eq_of_lt h]

/-! ### Lexicographic order -/

/-- Bytes are ordered as the numbers they are. -/
instance linearOrderUInt8 : LinearOrder UInt8 where
  le_refl := fun _ => UInt8.le_refl _
  le_trans := fun _ _ _ => UInt8.le_trans
  lt_iff_le_not_ge := fun _ _ => by
    rw [UInt8.not_le]
    exact ⟨fun h => ⟨UInt8.le_of_lt h, h⟩, fun h => h.2⟩
  le_antisymm := fun _ _ => UInt8.le_antisymm
  le_total := UInt8.le_total
  toDecidableLE := inferInstance
  toDecidableEq := inferInstance
  toDecidableLT := inferInstance

/-- Three-way lexicographic comparison, a shorter string first when it is
an initial part of the other. -/
def compareBytes : Bytes → Bytes → Ordering
  | [], [] => .eq
  | [], _ :: _ => .lt
  | _ :: _, [] => .gt
  | a :: as, b :: bs => if a < b then .lt else if b < a then .gt else compareBytes as bs

theorem compareBytes_swap (a b : Bytes) : (compareBytes a b).swap = compareBytes b a := by
  fun_induction compareBytes a b with
  | case1 => rfl
  | case2 => rfl
  | case3 => rfl
  | case4 a as b bs h => simp [compareBytes, h, h.not_gt]
  | case5 a as b bs h h' => simp [compareBytes, h']
  | case6 a as b bs h h' ih => simp [compareBytes, h, h', ih]

theorem compareBytes_eq_lt {a b : Bytes} : compareBytes a b = .lt ↔ a < b := by
  fun_induction compareBytes a b with
  | case1 => simp
  | case2 => simp
  | case3 => simp
  | case4 a as b bs h => simp [List.cons_lt_cons_iff, h]
  | case5 a as b bs h h' => simp [List.cons_lt_cons_iff, h, h'.ne']
  | case6 a as b bs h h' ih =>
    have hab : a = b := le_antisymm (not_lt.mp h') (not_lt.mp h)
    simp [hab, ih]

theorem compareBytes_eq_gt {a b : Bytes} : compareBytes a b = .gt ↔ b < a := by
  rw [← compareBytes_swap b a, ← compareBytes_eq_lt (a := b)]
  cases compareBytes b a <;> simp

theorem compareBytes_eq_eq {a b : Bytes} : compareBytes a b = .eq ↔ a = b := by
  have hlt := @compareBytes_eq_lt a b
  have hgt := @compareBytes_eq_gt a b
  constructor
  · intro h
    rw [h] at hlt hgt
    exact le_antisymm (not_lt.mp fun hba => by simp_all) (not_lt.mp fun hab => by simp_all)
  · rintro rfl
    cases h : compareBytes a a with
    | lt => exact absurd (hlt.mp h) (lt_irrefl a)
    | eq => rfl
    | gt => exact absurd (hgt.mp h) (lt_irrefl a)

end MySQLight.Data
