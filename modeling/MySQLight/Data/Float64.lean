import Mathlib.Data.Nat.Basic
import MySQLight.Data.Bytes

/-!
Floating-point numbers of 64 bits.

A number is its representation: a sign bit, eleven bits of exponent and
fifty-two of fraction. The operations compute on the exact values, which
are integers times powers of two, and round the result to the nearest
representable number, ties to even. A number is printed with the fewest
digits that are read back as the same number.
-/

namespace MySQLight.Data

/-- The bits of a number. -/
abbrev Float64 : Type := UInt64

namespace Float64

/-! ### Representation -/

def negative (x : Float64) : Bool := 2 ^ 63 ≤ x.toNat

/-- The bits without the sign. -/
def magnitude (x : Float64) : Nat := x.toNat % 2 ^ 63

def pack (neg : Bool) (magnitude : Nat) : Float64 :=
  UInt64.ofNat ((if neg then 2 ^ 63 else 0) + magnitude)

/-- The magnitude of infinity; what is greater is not a number. -/
def infinite : Nat := 2047 * 2 ^ 52

def isNaN (x : Float64) : Bool := infinite < x.magnitude

def isInf (x : Float64) : Bool := x.magnitude = infinite

def nan : Float64 := pack false (infinite + 2 ^ 51)

/-- A finite number is `mantissa * 2 ^ exponent` up to the sign. -/
def mantissa (x : Float64) : Nat :=
  if x.magnitude < 2 ^ 52 then x.magnitude else x.magnitude % 2 ^ 52 + 2 ^ 52

def exponent (x : Float64) : Int :=
  if x.magnitude < 2 ^ 52 then -1074 else (x.magnitude / 2 ^ 52 : Nat) - 1075

/-! ### Rounding -/

/-- `m / 2 ^ shift` to the nearest integer, ties to even. The number is a
little greater than `m` if `more` is set. -/
def roundShift (m shift : Nat) (more : Bool) : Nat :=
  let rest := m % 2 ^ shift * 2
  let q := m / 2 ^ shift
  if 2 ^ shift < rest ∨ rest = 2 ^ shift ∧ (more ∨ q % 2 = 1) then q + 1 else q

/-- The number nearest to `m * 2 ^ e`, or to a number a little greater if
`more` is set; such an `m` has at least 55 bits. -/
def round (neg : Bool) (m : Nat) (e : Int) (more : Bool) : Float64 :=
  let shift : Int := max (m.log2 - 52) (-1074 - e)
  let q := if shift ≤ 0 then m * 2 ^ (-shift).toNat else roundShift m shift.toNat more
  -- A carry out of the fraction moves on into the exponent.
  let scaled := if m = 0 then 0 else (e + shift + 1074).toNat * 2 ^ 52 + q
  pack neg (min scaled infinite)

/-- `num * 2 ^ e / den`, rounded. -/
def roundQuotient (neg : Bool) (num den : Nat) (e : Int) : Float64 :=
  let k := den.log2 + 56
  round neg (num * 2 ^ k / den) (e - k) (num * 2 ^ k % den ≠ 0)

/-! ### Conversion and arithmetic -/

def ofInt (i : Int) : Float64 := round (i < 0) i.natAbs 0 false

/-- The number rounded towards zero; the least integer if it is out of the
range of 64 bits. -/
def toInt64 (x : Float64) : Int64 :=
  let n := if x.exponent < 0 then x.mantissa / 2 ^ (-x.exponent).toNat
    else x.mantissa * 2 ^ x.exponent.toNat
  if x.magnitude ≥ infinite ∨ n ≥ 2 ^ 63 then Int64.minValue
  else Int64.ofInt (if x.negative then -n else n)

def neg (x : Float64) : Float64 := pack (!x.negative) x.magnitude

/-- The mantissa with its sign, as a multiple of `2 ^ e`. -/
def signed (x : Float64) (e : Int) : Int :=
  (if x.negative then -1 else 1) * (x.mantissa * 2 ^ (x.exponent - e).toNat : Nat)

def add (x y : Float64) : Float64 :=
  if x.isNaN ∨ y.isNaN then nan
  else if x.isInf then if y.isInf ∧ x.negative ≠ y.negative then nan else x
  else if y.isInf then y
  else
    let e := min x.exponent y.exponent
    let sum := x.signed e + y.signed e
    if sum = 0 then pack (x.negative && y.negative) 0 else round (sum < 0) sum.natAbs e false

def sub (x y : Float64) : Float64 := x.add y.neg

def mul (x y : Float64) : Float64 :=
  let neg := x.negative != y.negative
  if x.isNaN ∨ y.isNaN then nan
  else if x.isInf ∨ y.isInf then
    if x.magnitude = 0 ∨ y.magnitude = 0 then nan else pack neg infinite
  else round neg (x.mantissa * y.mantissa) (x.exponent + y.exponent) false

def div (x y : Float64) : Float64 :=
  let neg := x.negative != y.negative
  if x.isNaN ∨ y.isNaN then nan
  else if x.isInf then if y.isInf then nan else pack neg infinite
  else if y.isInf then pack neg 0
  else if y.magnitude = 0 then if x.magnitude = 0 then nan else pack neg infinite
  else roundQuotient neg x.mantissa y.mantissa (x.exponent - y.exponent)

/-! ### Comparison -/

/-- The numbers other than `nan` in their order; both zeros are one. -/
def rank (x : Float64) : Int := if x.negative then -x.magnitude else x.magnitude

def eq (x y : Float64) : Bool := !x.isNaN && !y.isNaN && x.rank = y.rank

def lt (x y : Float64) : Bool := !x.isNaN && !y.isNaN && x.rank < y.rank

def le (x y : Float64) : Bool := !x.isNaN && !y.isNaN && x.rank ≤ y.rank

theorem eq_symm (x y : Float64) : x.eq y = y.eq x := by
  simp only [eq, Bool.and_comm, eq_comm]

theorem lt_eq_le_and_not_eq (x y : Float64) : x.lt y = (x.le y && !x.eq y) := by
  rw [lt, le, eq]
  cases x.isNaN <;> cases y.isNaN <;> simp [lt_iff_le_and_ne]

theorem le_of_eq {x y : Float64} (h : x.eq y) : x.le y := by
  simp only [le, eq, Bool.and_eq_true, decide_eq_true_eq] at h ⊢
  exact ⟨h.1, h.2.le⟩

theorem lt_asymm {x y : Float64} (h : x.lt y) : ¬ y.lt x := by
  simp only [lt, Bool.and_eq_true, decide_eq_true_eq] at h ⊢
  omega

theorem magnitude_lt (x : Float64) : x.magnitude < 2 ^ 63 := Nat.mod_lt _ (by decide)

theorem neg_lt_rank (x : Float64) : -2 ^ 63 < x.rank := by
  have := magnitude_lt x
  rw [rank]
  split_ifs <;> omega

theorem magnitude_pack (neg : Bool) {m : Nat} (hm : m < 2 ^ 63) : (pack neg m).magnitude = m := by
  rw [magnitude, pack, UInt64.toNat_ofNat']
  cases neg <;> simp <;> omega

theorem isNaN_round (neg : Bool) (m : Nat) (e : Int) (more : Bool) :
    (round neg m e more).isNaN = false := by
  rw [isNaN, decide_eq_false_iff_not, round, magnitude_pack, not_lt]
  · exact min_le_right _ _
  · exact lt_of_le_of_lt (min_le_right _ _) (by decide)

/-- Numbers that come from integers are compared by their rank. -/
theorem compare_ofInt (i j : Int) :
    (if (ofInt i).lt (ofInt j) then .lt else if (ofInt j).lt (ofInt i) then .gt else .eq) =
      compare (ofInt i).rank (ofInt j).rank := by
  have hi : (ofInt i).isNaN = false := isNaN_round ..
  have hj : (ofInt j).isNaN = false := isNaN_round ..
  simp only [lt, hi, hj, Bool.not_false, Bool.true_and, decide_eq_true_eq]
  obtain h | h | h := lt_trichotomy (ofInt i).rank (ofInt j).rank
  · rw [if_pos h, compare_lt_iff_lt.mpr h]
  · rw [h, if_neg (lt_irrefl _), if_neg (lt_irrefl _), compare_eq_iff_eq.mpr rfl]
  · rw [if_neg h.not_gt, if_pos h, compare_gt_iff_gt.mpr h]

/-! ### Decimal texts -/

def isDigit (b : UInt8) : Bool := 48 ≤ b && b ≤ 57

/-- The number a string of digits denotes. -/
def digits (bs : Bytes) : Nat := bs.foldl (fun n b => n * 10 + (b.toNat - 48)) 0

/-- `m * 10 ^ e`, rounded. -/
def ofDecimal (neg : Bool) (m : Nat) (e : Int) : Float64 :=
  if e < 0 then roundQuotient neg m (10 ^ (-e).toNat) 0 else round neg (m * 10 ^ e.toNat) 0 false

/-- A sign in front of a number. -/
def readSign : Bytes → Bool × Bytes
  | 43 :: bs => (false, bs)
  | 45 :: bs => (true, bs)
  | bs => (false, bs)

/-- The exponent of a decimal text, `e` and digits with a sign. -/
def readExponent : Bytes → Option Int
  | [] => some 0
  | b :: bs =>
    let (neg, ds) := readSign bs
    if (b = 101 ∨ b = 69) ∧ ds ≠ [] ∧ ds.all isDigit then
      some (if neg then -digits ds else digits ds)
    else none

def lower (b : UInt8) : UInt8 := if 65 ≤ b ∧ b ≤ 90 then b + 32 else b

/-- The names of infinity and of what is not a number, in small letters or
capitals. -/
def special (text : Bytes) : Option Float64 :=
  let (neg, name) := readSign text
  if text.map lower = ascii "nan" then some nan
  else if name.map lower = ascii "inf" ∨ name.map lower = ascii "infinity" then
    some (pack neg infinite)
  else none

/-- Digits with at most one point among them, a sign in front and an
exponent behind. There is no result for another text, nor for a number
beyond the finite ones. -/
def parseDecimal (text : Bytes) : Option Float64 := do
  let (neg, text) := readSign text
  let whole := text.takeWhile isDigit
  let rest := text.dropWhile isDigit
  let (fraction, rest) := match rest with
    | 46 :: rest => (rest.takeWhile isDigit, rest.dropWhile isDigit)
    | rest => ([], rest)
  if whole = [] ∧ fraction = [] then none
  let e ← readExponent rest
  let x := ofDecimal neg (digits (whole ++ fraction)) (e - fraction.length)
  if x.isInf then none else some x

def parse (text : Bytes) : Option Float64 := special text <|> parseDecimal text

/-- The decimal digits of a number, at least one. -/
def showNat (n : Nat) : Bytes := (Nat.toDigits 10 n).map fun c => UInt8.ofNat c.toNat

/-- The decimal text of an integer. -/
def showInt (i : Int) : Bytes := if i < 0 then 45 :: showNat i.natAbs else showNat i.natAbs

/-- A positive finite number is less than `10 ^ point`, for the least such
`point`. -/
def point (x : Float64) : Int :=
  let below (k : Int) : Bool :=
    x.mantissa * 2 ^ x.exponent.toNat * 10 ^ (-k).toNat <
      2 ^ (-x.exponent).toNat * 10 ^ k.toNat
  let places : List Int := (List.range 640).map fun n => n - 325
  (places.find? below).getD 0

/-- The two decimals of `n` digits around a positive finite number, those
that are read back as the number, and the nearest of them. -/
def decimal (x : Float64) (n : Nat) : Option Nat :=
  let k := n - x.point
  let num := x.mantissa * 2 ^ x.exponent.toNat * 10 ^ k.toNat
  let den := 2 ^ (-x.exponent).toNat * 10 ^ (-k).toNat
  let low := num / den
  let back (d : Nat) : Bool := ofDecimal false d (-k) = pack false x.magnitude
  let nearLow : Bool := num % den * 2 < den ∨ num % den * 2 = den ∧ low % 2 = 0
  if back low ∧ (nearLow ∨ ¬ back (low + 1)) then some low
  else if back (low + 1) then some (low + 1) else none

/-- The fewest digits that are read back as the number, and the place of
the decimal point in them. -/
def shortest (x : Float64) : Bytes × Int :=
  let d := ((List.range 18).findSome? fun n => x.decimal n).getD 0
  let n := ((List.range 18).find? fun n => (x.decimal n).isSome).getD 0
  let ds := showNat d
  ((ds.reverse.dropWhile (· = 48)).reverse, x.point + (ds.length - n))

/-- The exponent of a number in print, with a sign and two digits at
least. -/
def showExponent (e : Int) : Bytes :=
  let ds := showNat e.natAbs
  [101, if e < 0 then 45 else 43] ++ (if ds.length < 2 then 48 :: ds else ds)

/-- Digits with the decimal point at a place. -/
def showFixed (ds : Bytes) (point : Int) : Bytes :=
  if point ≤ 0 then [48, 46] ++ List.replicate (-point).toNat 48 ++ ds
  else if ds.length ≤ point.toNat then ds ++ List.replicate (point.toNat - ds.length) 48
  else ds.take point.toNat ++ 46 :: ds.drop point.toNat

/-- The text of a number: fixed if the exponent is from -4 to 5, otherwise
with an exponent. -/
def print (x : Float64) : Bytes :=
  if x.isNaN then [78, 97, 78]
  else if x.isInf then [if x.negative then 45 else 43, 73, 110, 102]
  else
    let sign : Bytes := if x.negative then [45] else []
    if x.magnitude = 0 then sign ++ [48]
    else
      let (ds, point) := x.shortest
      let e := point - 1
      if e < -4 ∨ 6 ≤ e then
        sign ++ ds.take 1 ++ (if 1 < ds.length then 46 :: ds.drop 1 else []) ++ showExponent e
      else sign ++ showFixed ds point

/-- The text of a number without an exponent. -/
def printFixed (x : Float64) : Bytes :=
  if x.isNaN then [78, 97, 78]
  else if x.isInf then [if x.negative then 45 else 43, 73, 110, 102]
  else
    let sign : Bytes := if x.negative then [45] else []
    if x.magnitude = 0 then sign ++ [48] else sign ++ showFixed x.shortest.1 x.shortest.2

example : ofInt 3 = 0x4008000000000000 ∧ ofInt (-(2 ^ 53 + 1)) = 0xC340000000000000 := by decide

example : (ofInt 1).div (ofInt 10) = 0x3FB999999999999A := by decide

end Float64

end MySQLight.Data
