import Mathlib.Data.List.TakeWhile
import Mathlib.Tactic.Linarith
import Mathlib.Tactic.Ring
import MySQLight.Data.Float64

/-!
Integers among the floating-point numbers.

Up to `2 ^ 53` every integer is a floating-point number, and beyond that
those are which have few enough bits. On such numbers the operations are
the exact ones, followed by one rounding of the result.
-/

namespace MySQLight.Data.Float64

variable {x y : Float64} {a b : Int}

/-- The number is the integer. -/
structure IsInt (x : Float64) (a : Int) : Prop where
  finite : x.magnitude < infinite
  value : x.mantissa * 2 ^ x.exponent.toNat = a.natAbs * 2 ^ (-x.exponent).toNat
  sign : a ≠ 0 → x.negative = decide (a < 0)

/-! ### Truncation -/

/-- The number without its sign, rounded towards zero. -/
def truncated (x : Float64) : Nat :=
  if x.exponent < 0 then x.mantissa / 2 ^ (-x.exponent).toNat
  else x.mantissa * 2 ^ x.exponent.toNat

theorem toInt64_of_finite (h : x.magnitude < infinite) :
    x.toInt64 =
      if 2 ^ 63 ≤ x.truncated then Int64.minValue
      else Int64.ofInt (if x.negative then -x.truncated else x.truncated) := by
  rw [toInt64, ← truncated]
  simp only [ge_iff_le, not_le.mpr h, false_or]

theorem IsInt.truncated (h : IsInt x a) : x.truncated = a.natAbs := by
  have hvalue := h.value
  rw [Float64.truncated]
  split_ifs with hneg
  · rw [Int.toNat_of_nonpos hneg.le, pow_zero, mul_one] at hvalue
    rw [hvalue, Nat.mul_div_cancel _ (Nat.two_pow_pos _)]
  · rw [Int.toNat_of_nonpos (by omega : -x.exponent ≤ 0), pow_zero, mul_one] at hvalue
    exact hvalue

theorem IsInt.signed_eq (h : IsInt x a) :
    (if x.negative then -(a.natAbs : Int) else a.natAbs) = a := by
  by_cases ha : a = 0
  · simp [ha]
  · rw [h.sign ha]
    simp only [decide_eq_true_eq]
    split_ifs <;> omega

theorem IsInt.toInt64 (h : IsInt x a) :
    x.toInt64 = if 2 ^ 63 ≤ a.natAbs then Int64.minValue else Int64.ofInt a := by
  rw [toInt64_of_finite h.finite, h.truncated, h.signed_eq]

theorem IsInt.toInt64_of_range (h : IsInt x a) (hlow : -2 ^ 63 ≤ a) (hhigh : a < 2 ^ 63) :
    x.toInt64 = Int64.ofInt a := by
  rw [h.toInt64]
  split_ifs with hlarge
  · obtain rfl : a = -2 ^ 63 := by omega
    rfl
  · rfl

/-! ### Rounding and powers of two -/

theorem roundShift_mul (m k shift : Nat) :
    roundShift (m * 2 ^ k) (shift + k) false = roundShift m shift false := by
  have hpos : 0 < 2 ^ k := Nat.two_pow_pos k
  have hrest : m * 2 ^ k % 2 ^ (shift + k) * 2 = m % 2 ^ shift * 2 * 2 ^ k := by
    rw [pow_add, Nat.mul_mod_mul_right]
    ring
  have hquotient : m * 2 ^ k / 2 ^ (shift + k) = m / 2 ^ shift := by
    rw [pow_add, Nat.mul_div_mul_right _ _ hpos]
  rw [roundShift, roundShift, hrest, hquotient, pow_add]
  simp only [Nat.mul_lt_mul_right hpos, Nat.mul_left_inj hpos.ne']

theorem roundShift_of_mul (m shift : Nat) : roundShift (m * 2 ^ shift) shift false = m := by
  have hzero := roundShift_mul m shift 0
  rw [Nat.zero_add] at hzero
  rw [hzero, roundShift, pow_zero, Nat.mod_one, Nat.div_one]
  simp

variable {m : Nat} {e : Int}

theorem log2_mul_two_pow (hm : m ≠ 0) (k : Nat) : (m * 2 ^ k).log2 = m.log2 + k := by
  rw [Nat.log2_eq_iff (Nat.mul_ne_zero hm (Nat.two_pow_pos k).ne')]
  obtain ⟨hlow, hhigh⟩ := (Nat.log2_eq_iff hm).mp rfl
  rw [pow_add, show m.log2 + k + 1 = m.log2 + 1 + k by omega, pow_add 2 (m.log2 + 1)]
  exact ⟨Nat.mul_le_mul_right _ hlow, Nat.mul_lt_mul_of_pos_right hhigh (Nat.two_pow_pos k)⟩

/-- Only the number counts, not how it is written. -/
theorem round_mul (neg : Bool) (m k : Nat) (e : Int) :
    round neg (m * 2 ^ k) e false = round neg m (e + k) false := by
  by_cases hm : m = 0
  · simp [hm, round]
  · have hm' : m * 2 ^ k ≠ 0 := Nat.mul_ne_zero hm (Nat.two_pow_pos k).ne'
    rw [round, round, log2_mul_two_pow hm]
    obtain ⟨shift, hshift⟩ :
        ∃ shift : Int, max (m.log2 - 52 : Int) (-1074 - (e + k)) = shift := ⟨_, rfl⟩
    have hshift' : max (((m.log2 + k : Nat) : Int) - 52) (-1074 - e) = shift + k := by omega
    rw [hshift, hshift']
    simp only [if_neg hm, if_neg hm']
    have hexponent : e + (shift + k) + 1074 = e + k + shift + 1074 := by ring
    rw [hexponent]
    congr 3
    by_cases hneg : shift ≤ 0
    · by_cases hneg' : shift + k ≤ 0
      · rw [if_pos hneg, if_pos hneg', mul_assoc, ← pow_add]
        congr 2
        omega
      · have hsplit : m * 2 ^ k = m * 2 ^ (-shift).toNat * 2 ^ (shift + k).toNat := by
          rw [mul_assoc, ← pow_add]
          congr 2
          omega
        rw [if_pos hneg, if_neg hneg', hsplit, roundShift_of_mul]
    · have hk : (shift + k).toNat = shift.toNat + k := by omega
      rw [if_neg hneg, if_neg (by omega), hk, roundShift_mul]

/-! ### Normal numbers -/

theorem negative_pack (neg : Bool) (hm : m < 2 ^ 63) : (pack neg m).negative = neg := by
  rw [negative, pack, UInt64.toNat_ofNat']
  cases neg <;> simp <;> omega

/-- The bits of `q * 2 ^ e`, where `q` has 53 bits or is the next power. -/
theorem pack_normal (neg : Bool) {q : Nat} (hq : 2 ^ 52 ≤ q) (hq' : q ≤ 2 ^ 53) (he : -1074 ≤ e)
    (he' : e < 900) : let x := pack neg ((e + 1074).toNat * 2 ^ 52 + q)
    x.magnitude < infinite ∧ x.negative = neg ∧
      (x.mantissa = q ∧ x.exponent = e ∨
        q = 2 ^ 53 ∧ x.mantissa = 2 ^ 52 ∧ x.exponent = e + 1) := by
  obtain ⟨n, rfl⟩ : ∃ n : Nat, e = n - 1074 := ⟨(e + 1074).toNat, by omega⟩
  have hn : ((n : Int) - 1074 + 1074).toNat = n := by omega
  have hmagnitude : (pack neg (n * 2 ^ 52 + q)).magnitude = n * 2 ^ 52 + q :=
    magnitude_pack neg (by omega)
  intro x
  have hx : x.magnitude = n * 2 ^ 52 + q := by rw [← hmagnitude, ← hn]
  refine ⟨?_, ?_, ?_⟩
  · rw [hx, infinite]
    omega
  · rw [← negative_pack neg (by omega : n * 2 ^ 52 + q < 2 ^ 63), ← hn]
  · rw [mantissa, exponent, hx, if_neg (by omega), if_neg (by omega)]
    by_cases hcarry : q = 2 ^ 53
    · exact .inr ⟨hcarry, by omega, by omega⟩
    · exact .inl ⟨by omega, by omega⟩

theorem truncated_pack_normal (neg : Bool) {q : Nat} (hq : 2 ^ 52 ≤ q) (hq' : q ≤ 2 ^ 53)
    (he : -1074 ≤ e) (he' : e < 900) :
    (pack neg ((e + 1074).toNat * 2 ^ 52 + q)).truncated =
      if e < 0 then q / 2 ^ (-e).toNat else q * 2 ^ e.toNat := by
  obtain ⟨-, -, ⟨hm, hx⟩ | ⟨rfl, hm, hx⟩⟩ := pack_normal neg hq hq' he he'
  · rw [truncated, hm, hx]
  · rw [truncated, hm, hx]
    obtain hneg | rfl | hpos := lt_trichotomy e (-1)
    · have hk : (-e).toNat = (-(e + 1)).toNat + 1 := by omega
      rw [if_pos (by omega), if_pos (by omega), hk, pow_succ 2 (-(e + 1)).toNat, pow_succ 2 52,
        Nat.mul_div_mul_right _ _ (by decide)]
    · rfl
    · have hk : (e + 1).toNat = e.toNat + 1 := by omega
      rw [if_neg (by omega), if_neg (by omega), hk]
      ring

/-- A number that `q * 2 ^ e` is, if that is an integer. -/
theorem isInt_pack_normal {q : Nat} (hq : 2 ^ 52 ≤ q) (hq' : q ≤ 2 ^ 53) (he : -1074 ≤ e)
    (he' : e < 900) (ha : q * 2 ^ e.toNat = a.natAbs * 2 ^ (-e).toNat) :
    IsInt (pack (a < 0) ((e + 1074).toNat * 2 ^ 52 + q)) a := by
  obtain ⟨hfinite, hneg, hnormal⟩ := pack_normal (a < 0) hq hq' he he'
  refine ⟨hfinite, ?_, fun _ => hneg⟩
  obtain ⟨hm, hx⟩ | ⟨rfl, hm, hx⟩ := hnormal
  · rw [hm, hx, ha]
  · rw [hm, hx]
    obtain hneg | hpos := lt_or_ge e 0
    · have hk : (-e).toNat = (-(e + 1)).toNat + 1 := by omega
      rw [hk, Int.toNat_of_nonpos hneg.le] at ha
      rw [Int.toNat_of_nonpos (by omega : e + 1 ≤ 0)]
      rw [pow_succ 2 (-(e + 1)).toNat, ← mul_assoc] at ha
      omega
    · have hk : (e + 1).toNat = e.toNat + 1 := by omega
      rw [Int.toNat_of_nonpos (by omega : -e ≤ 0)] at ha
      rw [hk, Int.toNat_of_nonpos (by omega : -(e + 1) ≤ 0), ← ha]
      ring

theorem isInt_pack_zero (neg : Bool) : IsInt (pack neg 0) 0 := by
  have hmagnitude : (pack neg 0).magnitude = 0 := magnitude_pack neg (by decide)
  refine ⟨by rw [hmagnitude]; decide, ?_, nofun⟩
  rw [mantissa, hmagnitude]
  simp

/-! ### Conversion -/

theorem roundShift_bounds (m shift : Nat) (more : Bool) :
    m / 2 ^ shift ≤ roundShift m shift more ∧
      2 * roundShift m shift more * 2 ^ shift ≤ 2 * m + 2 ^ shift := by
  have hdiv := Nat.div_add_mod m (2 ^ shift)
  rw [roundShift]
  split_ifs with h
  · refine ⟨by omega, ?_⟩
    have hrest : 2 ^ shift ≤ m % 2 ^ shift * 2 := by
      obtain h | h := h
      · exact h.le
      · exact h.1.ge
    calc 2 * (m / 2 ^ shift + 1) * 2 ^ shift
        = 2 * (2 ^ shift * (m / 2 ^ shift)) + 2 ^ shift + 2 ^ shift := by ring
      _ ≤ 2 * m + 2 ^ shift := by omega
  · refine ⟨le_rfl, ?_⟩
    calc 2 * (m / 2 ^ shift) * 2 ^ shift = 2 * (2 ^ shift * (m / 2 ^ shift)) := by ring
      _ ≤ 2 * m + 2 ^ shift := by omega

/-- A mantissa of 53 bits after rounding. -/
theorem roundShift_normal {shift : Nat} (hm : m.log2 = shift + 52) (more : Bool) :
    2 ^ 52 ≤ roundShift m shift more ∧ roundShift m shift more ≤ 2 ^ 53 := by
  have hne : m ≠ 0 := by
    rintro rfl
    simp at hm
  obtain ⟨hlow, hhigh⟩ := (Nat.log2_eq_iff hne).mp hm
  obtain ⟨hge, hle⟩ := roundShift_bounds m shift more
  have hpos : 0 < 2 ^ shift := Nat.two_pow_pos shift
  constructor
  · refine le_trans ((Nat.le_div_iff_mul_le hpos).mpr ?_) hge
    rw [← pow_add, Nat.add_comm 52 shift]
    exact hlow
  · have hm' : 2 * m + 2 ^ shift < 2 * (2 ^ 53 + 1) * 2 ^ shift := by
      rw [show shift + 52 + 1 = 53 + shift by omega, pow_add] at hhigh
      omega
    have hlt := Nat.lt_of_mul_lt_mul_right (hle.trans_lt hm')
    omega

/-- An integer becomes the nearest number, which is an integer, and itself
if it has few enough bits. -/
theorem exists_isInt_ofInt (ha : a.natAbs ≤ 2 ^ 63) :
    ∃ a', IsInt (ofInt a) a' ∧ (2 ^ (a.natAbs.log2 - 52) ∣ a.natAbs → a' = a) := by
  by_cases hzero : a = 0
  · subst hzero
    exact ⟨0, isInt_pack_zero false, fun _ => rfl⟩
  have hne : a.natAbs ≠ 0 := by omega
  have hlog : a.natAbs.log2 ≤ 63 := by
    have := Nat.log2_lt hne (k := 64)
    omega
  have hshift : max ((a.natAbs.log2 : Int) - 52) (-1074 - 0) = a.natAbs.log2 - 52 := by omega
  obtain ⟨hlow, hhigh⟩ := (Nat.log2_eq_iff hne).mp rfl
  rw [ofInt, round, hshift, if_neg hne]
  rw [Int.zero_add]
  by_cases hsmall : a.natAbs.log2 ≤ 52
  · have hq : 2 ^ 52 ≤ a.natAbs * 2 ^ (52 - a.natAbs.log2) ∧
        a.natAbs * 2 ^ (52 - a.natAbs.log2) < 2 ^ 53 := by
      have hlog := log2_mul_two_pow hne (52 - a.natAbs.log2)
      rw [Nat.add_sub_cancel' hsmall] at hlog
      exact (Nat.log2_eq_iff (Nat.mul_ne_zero hne (Nat.two_pow_pos _).ne')).mp hlog
    have hk : (-((a.natAbs.log2 : Int) - 52)).toNat = 52 - a.natAbs.log2 := by omega
    rw [if_pos (by omega), hk, min_eq_left]
    · refine ⟨a, isInt_pack_normal hq.1 hq.2.le (by omega) (by omega) ?_, fun _ => rfl⟩
      rw [hk, Int.toNat_of_nonpos (by omega), pow_zero, mul_one]
    · rw [infinite]
      omega
  · obtain ⟨shift, hs⟩ : ∃ shift, a.natAbs.log2 = shift + 52 := ⟨a.natAbs.log2 - 52, by omega⟩
    have hk : ((a.natAbs.log2 : Int) - 52) = shift := by omega
    obtain ⟨hq, hq'⟩ := roundShift_normal hs false
    rw [hk, if_neg (by omega), Int.toNat_natCast, min_eq_left]
    · have hpos : 0 < roundShift a.natAbs shift false * 2 ^ shift :=
        Nat.mul_pos (by omega) (Nat.two_pow_pos shift)
      obtain ⟨a', habs, hsign⟩ : ∃ a' : Int,
          a'.natAbs = roundShift a.natAbs shift false * 2 ^ shift ∧ (a' < 0) = (a < 0) := by
        generalize roundShift a.natAbs shift false * 2 ^ shift = n at hpos
        refine ⟨if a < 0 then -n else n, ?_, propext ?_⟩ <;> split_ifs <;> omega
      refine ⟨a', ?_, fun hdvd => ?_⟩
      · simp only [← hsign]
        refine isInt_pack_normal hq hq' (by omega) (by omega) ?_
        rw [habs, Int.toNat_natCast, Int.toNat_of_nonpos (by omega), pow_zero, mul_one]
      · obtain ⟨c, hc⟩ := hdvd
        rw [hs, Nat.add_sub_cancel, Nat.mul_comm] at hc
        have hround : roundShift a.natAbs shift false = c := by rw [hc, roundShift_of_mul]
        rw [hround, ← hc] at habs
        have hiff : a' < 0 ↔ a < 0 := Iff.of_eq hsign
        omega
    · rw [infinite]
      omega

theorem mantissa_lt (x : Float64) : x.mantissa < 2 ^ 53 := by
  rw [mantissa]
  split_ifs <;> omega

theorem dvd_of_lt {n : Nat} (hn : n < 2 ^ 53) : 2 ^ (n.log2 - 52) ∣ n := by
  have hlog : n.log2 ≤ 52 := by
    by_cases hzero : n = 0
    · simp [hzero]
    · have := (Nat.log2_lt hzero).mpr hn
      omega
  rw [Nat.sub_eq_zero_of_le hlog, pow_zero]
  exact one_dvd _

theorem isInt_ofInt (ha : a.natAbs ≤ 2 ^ 53) : IsInt (ofInt a) a := by
  obtain ⟨a', hint, hsame⟩ := exists_isInt_ofInt (a := a) (by omega)
  have hdvd : 2 ^ (a.natAbs.log2 - 52) ∣ a.natAbs := by
    by_cases htop : a.natAbs = 2 ^ 53
    · rw [htop]
      decide
    · exact dvd_of_lt (by omega)
  rwa [hsame hdvd] at hint

theorem dvd_truncated (x : Float64) : 2 ^ (x.truncated.log2 - 52) ∣ x.truncated := by
  have hlt := mantissa_lt x
  rw [truncated]
  split_ifs with hneg
  · exact dvd_of_lt ((Nat.div_le_self _ _).trans_lt hlt)
  · by_cases hzero : x.mantissa = 0
    · simp [hzero]
    · have hlog := (Nat.log2_lt hzero).mpr hlt
      rw [log2_mul_two_pow hzero]
      exact Dvd.dvd.mul_left (pow_dvd_pow 2 (by omega)) _

/-- What a number is truncated to is a number again. -/
theorem isInt_ofInt_toInt64 (x : Float64) : IsInt (ofInt x.toInt64.toInt) x.toInt64.toInt := by
  have hexact : ∀ a : Int, a.natAbs ≤ 2 ^ 63 → 2 ^ (a.natAbs.log2 - 52) ∣ a.natAbs →
      IsInt (ofInt a) a := by
    intro a ha hdvd
    obtain ⟨a', hint, hsame⟩ := exists_isInt_ofInt ha
    rwa [hsame hdvd] at hint
  have hmin : IsInt (ofInt Int64.minValue.toInt) Int64.minValue.toInt :=
    hexact _ (by decide) (by decide)
  rw [toInt64, ← truncated]
  split_ifs with hlarge hneg
  · exact hmin
  all_goals
    rw [Int64.toInt_ofInt_of_le (by omega) (by omega)]
    refine hexact _ (by omega) ?_
  · rw [Int.natAbs_neg, Int.natAbs_natCast]
    exact dvd_truncated x
  · rw [Int.natAbs_natCast]
    exact dvd_truncated x

/-! ### Order -/

theorem roundShift_mono {n : Nat} (h : m ≤ n) (shift : Nat) :
    roundShift m shift false ≤ roundShift n shift false := by
  have hdiv : m / 2 ^ shift ≤ n / 2 ^ shift := Nat.div_le_div_right h
  have hm := Nat.div_add_mod m (2 ^ shift)
  have hn := Nat.div_add_mod n (2 ^ shift)
  by_cases hsame : m / 2 ^ shift = n / 2 ^ shift
  · rw [hsame] at hm
    have hrest : m % 2 ^ shift ≤ n % 2 ^ shift := by omega
    simp only [roundShift, hsame, Bool.false_eq_true, false_or]
    split_ifs with hup hdown
    · exact le_rfl
    · omega
    · omega
    · exact le_rfl
  · have hlow : roundShift m shift false ≤ m / 2 ^ shift + 1 := by
      rw [roundShift]
      split_ifs <;> omega
    have hhigh := (roundShift_bounds n shift false).1
    omega

/-- The magnitude of the number nearest to an integer. -/
def nearest (n : Nat) : Nat :=
  min (if n = 0 then 0 else (n.log2 + 1022) * 2 ^ 52 + roundShift (n * 2 ^ 52) n.log2 false)
    infinite

theorem ofInt_eq (a : Int) : ofInt a = pack (a < 0) (nearest a.natAbs) := by
  have hround := round_mul (a < 0) a.natAbs 52 (-52)
  rw [show (-52 : Int) + (52 : Nat) = 0 from rfl] at hround
  rw [ofInt, ← hround, round, nearest]
  by_cases hzero : a.natAbs = 0
  · simp [hzero]
  · rw [log2_mul_two_pow hzero]
    have hshift : max (((a.natAbs.log2 + 52 : Nat) : Int) - 52) (-1074 - -52) = a.natAbs.log2 := by
      omega
    have hexponent : (-52 + (a.natAbs.log2 : Int) + 1074).toNat = a.natAbs.log2 + 1022 := by omega
    rw [hshift]
    simp only [hexponent, Int.toNat_natCast, if_neg hzero,
      if_neg (Nat.mul_ne_zero hzero (Nat.two_pow_pos 52).ne')]
    congr 3
    split_ifs with hle
    · have hlog : a.natAbs.log2 = 0 := by omega
      have hexact := roundShift_of_mul (a.natAbs * 2 ^ 52) 0
      rw [pow_zero, mul_one] at hexact
      rw [hlog, hexact]
      simp
    · rfl

theorem nearest_mono {n : Nat} (h : m ≤ n) : nearest m ≤ nearest n := by
  refine min_le_min_right _ ?_
  by_cases hm : m = 0
  · simp [hm]
  have hn : n ≠ 0 := by omega
  rw [if_neg hm, if_neg hn]
  by_cases hlog : m.log2 = n.log2
  · rw [hlog]
    exact Nat.add_le_add_left (roundShift_mono (Nat.mul_le_mul_right _ h) _) _
  · have hlt : m.log2 < n.log2 := by
      refine lt_of_le_of_ne ?_ hlog
      rw [Nat.le_log2 hn]
      exact (Nat.log2_self_le hm).trans h
    have hmq := (roundShift_normal (log2_mul_two_pow hm 52) false).2
    have hnq := (roundShift_normal (log2_mul_two_pow hn 52) false).1
    omega

theorem nearest_pos {n : Nat} (h : n ≠ 0) : 0 < nearest n := by
  rw [nearest, if_neg h]
  exact lt_min (by omega) (by decide)

theorem rank_ofInt (a : Int) :
    (ofInt a).rank = if a < 0 then -(nearest a.natAbs : Int) else nearest a.natAbs := by
  have hlt : nearest a.natAbs < 2 ^ 63 := lt_of_le_of_lt (min_le_right _ _) (by decide)
  rw [rank, ofInt_eq, negative_pack _ hlt, magnitude_pack _ hlt]
  simp only [decide_eq_true_eq]

/-- Rounding keeps the order of the integers. -/
theorem rank_ofInt_mono (h : a ≤ b) : (ofInt a).rank ≤ (ofInt b).rank := by
  rw [rank_ofInt, rank_ofInt]
  split_ifs with ha hb hb
  · have := nearest_mono (by omega : b.natAbs ≤ a.natAbs)
    omega
  · omega
  · omega
  · have := nearest_mono (by omega : a.natAbs ≤ b.natAbs)
    omega

theorem ofInt_eq_iff_rank : ofInt a = ofInt b ↔ (ofInt a).rank = (ofInt b).rank := by
  refine ⟨congrArg rank, fun h => ?_⟩
  rw [rank_ofInt, rank_ofInt] at h
  rw [ofInt_eq, ofInt_eq]
  split_ifs at h with ha hb hb
  · rw [decide_eq_true ha, decide_eq_true hb]
    congr 1
    omega
  · have := nearest_pos (by omega : a.natAbs ≠ 0)
    omega
  · have := nearest_pos (by omega : b.natAbs ≠ 0)
    omega
  · rw [decide_eq_false ha, decide_eq_false hb]
    congr 1
    omega

/-! ### Arithmetic -/

theorem IsInt.neg (h : IsInt x a) : IsInt x.neg (-a) := by
  have hmagnitude : x.neg.magnitude = x.magnitude := magnitude_pack _ (magnitude_lt x)
  refine ⟨hmagnitude ▸ h.finite, ?_, fun ha => ?_⟩
  · have hvalue := h.value
    rw [mantissa, exponent] at hvalue ⊢
    rw [hmagnitude, Int.natAbs_neg]
    exact hvalue
  · rw [Float64.neg, negative_pack _ (magnitude_lt x), h.sign (by omega)]
    by_cases hneg : a < 0
    · simp [hneg, hneg.le]
    · have hpos : 0 < a := by omega
      simp [hpos, hneg]

theorem IsInt.isNaN (h : IsInt x a) : x.isNaN = false := by
  rw [Float64.isNaN, decide_eq_false_iff_not]
  exact h.finite.le.not_gt

theorem IsInt.isInf (h : IsInt x a) : x.isInf = false := by
  rw [Float64.isInf, decide_eq_false_iff_not]
  exact h.finite.ne

theorem mantissa_eq_zero : x.mantissa = 0 ↔ x.magnitude = 0 := by
  constructor
  · intro h
    by_cases hsmall : x.magnitude < 2 ^ 52
    · rwa [mantissa, if_pos hsmall] at h
    · rw [mantissa, if_neg hsmall] at h
      omega
  · intro h
    rw [mantissa, h, if_pos (by decide)]

theorem IsInt.eq_zero (h : IsInt x a) : x.eq 0 ↔ a = 0 := by
  have hzero : x.mantissa = 0 ↔ a = 0 := by
    have hvalue := h.value
    have hpow := Nat.two_pow_pos x.exponent.toNat
    have hpow' := Nat.two_pow_pos (-x.exponent).toNat
    rw [← Int.natAbs_eq_zero]
    constructor
    · intro hm
      rw [hm, zero_mul, eq_comm, Nat.mul_eq_zero] at hvalue
      exact hvalue.resolve_right hpow'.ne'
    · intro ha
      rw [ha, zero_mul, Nat.mul_eq_zero] at hvalue
      exact hvalue.resolve_right hpow.ne'
  have hright : Float64.isNaN 0 = false ∧ rank 0 = 0 := by decide
  rw [← hzero, mantissa_eq_zero, eq, h.isNaN, rank]
  rw [hright.1, hright.2]
  simp only [Bool.not_false, Bool.true_and, decide_eq_true_eq]
  split_ifs <;> omega

/-- The mantissa as a multiple of a power of two that is small enough. -/
theorem IsInt.signed (h : IsInt x a) (he : e ≤ x.exponent) :
    x.signed e * 2 ^ e.toNat = a * 2 ^ (-e).toNat := by
  have hmantissa : x.mantissa * 2 ^ (x.exponent - e).toNat * 2 ^ e.toNat =
      a.natAbs * 2 ^ (-e).toNat := by
    have hvalue := h.value
    obtain hneg | hpos := lt_or_ge x.exponent 0
    · rw [Int.toNat_of_nonpos hneg.le, pow_zero, mul_one] at hvalue
      rw [hvalue, Int.toNat_of_nonpos (by omega : e ≤ 0), pow_zero, mul_one, mul_assoc, ← pow_add]
      congr 2
      omega
    · rw [Int.toNat_of_nonpos (by omega : -x.exponent ≤ 0), pow_zero, mul_one] at hvalue
      rw [← hvalue, mul_assoc, mul_assoc, ← pow_add, ← pow_add]
      congr 2
      omega
  have hsign : (if x.negative then -1 else 1) * (a.natAbs : Int) = a := by
    rw [← h.signed_eq]
    split_ifs <;> simp
  calc x.signed e * 2 ^ e.toNat
      = (if x.negative then -1 else 1) *
          ((x.mantissa * 2 ^ (x.exponent - e).toNat * 2 ^ e.toNat : Nat) : Int) := by
        rw [Float64.signed]
        push_cast
        ring
    _ = (if x.negative then -1 else 1) * a.natAbs * 2 ^ (-e).toNat := by
        rw [hmantissa]
        push_cast
        ring
    _ = a * 2 ^ (-e).toNat := by rw [hsign]

theorem round_eq_of_value {n : Nat} (neg : Bool) (h : m * 2 ^ e.toNat = n * 2 ^ (-e).toNat) :
    round neg m e false = round neg n 0 false := by
  obtain hneg | hpos := lt_or_ge e 0
  · rw [Int.toNat_of_nonpos hneg.le, pow_zero, mul_one] at h
    rw [h, round_mul]
    congr 1
    omega
  · rw [Int.toNat_of_nonpos (by omega : -e ≤ 0), pow_zero, mul_one] at h
    rw [← h, round_mul]
    congr 1
    omega

/-- A sum is the exact one, rounded. -/
theorem IsInt.toInt64_add (hx : IsInt x a) (hy : IsInt y b) :
    (x.add y).toInt64 = (ofInt (a + b)).toInt64 := by
  have hsum : ∀ e, e = min x.exponent y.exponent →
      (x.signed e + y.signed e) * 2 ^ e.toNat = (a + b) * 2 ^ (-e).toNat := by
    intro e he
    rw [add_mul, hx.signed (by omega), hy.signed (by omega), add_mul]
  rw [Float64.add, hx.isNaN, hy.isNaN, hx.isInf, hy.isInf]
  simp only [Bool.false_eq_true, or_self, if_false]
  specialize hsum _ rfl
  generalize min x.exponent y.exponent = e at hsum ⊢
  generalize x.signed e + y.signed e = sum at hsum ⊢
  have hpow : (0 : Int) < 2 ^ e.toNat ∧ (0 : Int) < 2 ^ (-e).toNat :=
    ⟨pow_pos (by decide) _, pow_pos (by decide) _⟩
  split_ifs with hzero
  · have hab : a + b = 0 := by
      rw [hzero, zero_mul, eq_comm] at hsum
      exact (mul_eq_zero.mp hsum).resolve_right hpow.2.ne'
    rw [hab, (isInt_pack_zero _).toInt64]
    exact (isInt_pack_zero false).toInt64.symm
  · have hsign : (sum < 0) = (a + b < 0) := by
      rw [← mul_lt_mul_iff_of_pos_right hpow.1, hsum, zero_mul, ← zero_mul (2 ^ (-e).toNat),
        mul_lt_mul_iff_of_pos_right hpow.2, zero_mul]
    have habs : sum.natAbs * 2 ^ e.toNat = (a + b).natAbs * 2 ^ (-e).toNat := by
      have := congrArg Int.natAbs hsum
      rw [Int.natAbs_mul, Int.natAbs_mul, Int.natAbs_pow, Int.natAbs_pow] at this
      exact this
    rw [round_eq_of_value _ habs, ofInt]
    simp only [hsign]

theorem IsInt.toInt64_sub (hx : IsInt x a) (hy : IsInt y b) :
    (x.sub y).toInt64 = (ofInt (a - b)).toInt64 :=
  hx.toInt64_add hy.neg

/-- A product is the exact one, rounded. -/
theorem IsInt.toInt64_mul (hx : IsInt x a) (hy : IsInt y b) :
    (x.mul y).toInt64 = (ofInt (a * b)).toInt64 := by
  have hvalue : x.mantissa * y.mantissa * 2 ^ (x.exponent + y.exponent).toNat =
      (a * b).natAbs * 2 ^ (-(x.exponent + y.exponent)).toNat := by
    obtain ⟨c, hc, hc'⟩ : ∃ c, x.exponent.toNat + y.exponent.toNat =
        (x.exponent + y.exponent).toNat + c ∧ (-x.exponent).toNat + (-y.exponent).toNat =
        (-(x.exponent + y.exponent)).toNat + c :=
      ⟨x.exponent.toNat + y.exponent.toNat - (x.exponent + y.exponent).toNat, by omega, by omega⟩
    refine Nat.eq_of_mul_eq_mul_right (Nat.two_pow_pos c) ?_
    rw [mul_assoc (x.mantissa * y.mantissa), mul_assoc (a * b).natAbs, ← pow_add, ← pow_add, ← hc,
      ← hc', Int.natAbs_mul]
    calc x.mantissa * y.mantissa * 2 ^ (x.exponent.toNat + y.exponent.toNat)
        = (x.mantissa * 2 ^ x.exponent.toNat) * (y.mantissa * 2 ^ y.exponent.toNat) := by ring
      _ = a.natAbs * b.natAbs * 2 ^ ((-x.exponent).toNat + (-y.exponent).toNat) := by
          rw [hx.value, hy.value]
          ring
  rw [Float64.mul, hx.isNaN, hy.isNaN, hx.isInf, hy.isInf]
  simp only [Bool.false_eq_true, or_self, if_false]
  rw [round_eq_of_value _ hvalue]
  by_cases hzero : a * b = 0
  · rw [hzero]
    exact (isInt_pack_zero _).toInt64.trans (isInt_pack_zero false).toInt64.symm
  · obtain ⟨ha, hb⟩ := mul_ne_zero_iff.mp hzero
    have hsign : (decide (a < 0) != decide (b < 0)) = decide (a * b < 0) := by
      have hiff : a * b < 0 ↔ ¬ (a < 0 ↔ b < 0) := by
        rw [mul_neg_iff]
        omega
      by_cases ha' : a < 0 <;> by_cases hb' : b < 0 <;> simp [hiff, ha', hb']
    rw [ofInt, hx.sign ha, hy.sign hb, hsign]

/-! ### Quotients -/

/-- Rounding `m / n` to a multiple of `1 / 2 ^ d` does not go up to the next
integer, if the multiples are close enough. -/
theorem roundShift_div {n d s M : Nat} (more : Bool) (hn : 0 < n) (hclose : n < 2 * 2 ^ d)
    (hM : m * (2 ^ d * 2 ^ s) / n = M) : roundShift M s more / 2 ^ d = m / n := by
  obtain ⟨hge, hle⟩ := roundShift_bounds M s more
  refine Nat.div_eq_of_lt_le ?_ ?_
  · refine le_trans ((Nat.le_div_iff_mul_le (Nat.two_pow_pos s)).mpr ?_) hge
    rw [← hM, Nat.le_div_iff_mul_le hn]
    calc m / n * 2 ^ d * 2 ^ s * n = m / n * n * (2 ^ d * 2 ^ s) := by ring
      _ ≤ m * (2 ^ d * 2 ^ s) := Nat.mul_le_mul_right _ (Nat.div_mul_le_self m n)
  · by_contra hup
    rw [not_lt] at hup
    have hMn : M * n ≤ m * (2 ^ d * 2 ^ s) := hM ▸ Nat.div_mul_le_self _ _
    have hmn : m + 1 ≤ (m / n + 1) * n := by
      have := Nat.lt_div_mul_add hn (a := m)
      linarith
    have hchain : 2 * (m + 1) * (2 ^ d * 2 ^ s) ≤ 2 * m * (2 ^ d * 2 ^ s) + n * 2 ^ s := by
      calc 2 * (m + 1) * (2 ^ d * 2 ^ s)
          ≤ 2 * ((m / n + 1) * n) * (2 ^ d * 2 ^ s) := by gcongr
        _ = 2 * ((m / n + 1) * 2 ^ d) * 2 ^ s * n := by ring
        _ ≤ 2 * roundShift M s more * 2 ^ s * n := by gcongr
        _ ≤ (2 * M + 2 ^ s) * n := by gcongr
        _ = 2 * (M * n) + n * 2 ^ s := by ring
        _ ≤ 2 * (m * (2 ^ d * 2 ^ s)) + n * 2 ^ s := by gcongr
        _ = 2 * m * (2 ^ d * 2 ^ s) + n * 2 ^ s := by ring
    have hfar : 2 * 2 ^ d * 2 ^ s ≤ n * 2 ^ s := by linarith
    exact absurd (Nat.le_of_mul_le_mul_right hfar (Nat.two_pow_pos s)) (not_le.mpr hclose)

/-- The integer part of a quotient of integers of 53 bits is not lost. -/
theorem roundQuotient_truncated (neg : Bool) {n u v : Nat} (hm : 0 < m) (hm' : m < 2 ^ 53)
    (hn : 0 < n) (hn' : n < 2 ^ 53) (hu : u ≤ 52) (hv : v ≤ 52) :
    let x := roundQuotient neg (m * 2 ^ u) (n * 2 ^ v) (v - u)
    x.magnitude < infinite ∧ x.negative = neg ∧ x.truncated = m / n := by
  have hden : n * 2 ^ v ≠ 0 := Nat.mul_ne_zero hn.ne' (Nat.two_pow_pos v).ne'
  obtain ⟨k, hk⟩ : ∃ k, (n * 2 ^ v).log2 + 56 = k := ⟨_, rfl⟩
  obtain ⟨M, hM⟩ : ∃ M, m * 2 ^ u * 2 ^ k / (n * 2 ^ v) = M := ⟨_, rfl⟩
  have hk' : k ≤ 160 := by
    have hlog := log2_mul_two_pow hn.ne' v
    have hn'' := (Nat.log2_lt hn.ne').mpr hn'
    omega
  have hlow : 2 ^ 55 ≤ M := by
    rw [← hM, Nat.le_div_iff_mul_le (Nat.pos_of_ne_zero hden)]
    have hden' : n * 2 ^ v < 2 ^ (k - 55) := by
      rw [← hk]
      exact Nat.lt_log2_self
    calc 2 ^ 55 * (n * 2 ^ v) ≤ 2 ^ 55 * 2 ^ (k - 55) := Nat.mul_le_mul_left _ hden'.le
      _ = 2 ^ k := by
          rw [← pow_add]
          congr 1
          omega
      _ ≤ m * 2 ^ u * 2 ^ k :=
          Nat.le_mul_of_pos_left _ (Nat.mul_pos hm (Nat.two_pow_pos u))
  have hne : M ≠ 0 := by
    have := Nat.two_pow_pos 55
    omega
  obtain ⟨s, hs⟩ : ∃ s, M.log2 = s + 3 + 52 := by
    have := (Nat.le_log2 hne).mpr hlow
    exact ⟨M.log2 - 55, by omega⟩
  have htop : 2 ^ (s + 3 + 52) ≤ M := hs ▸ Nat.log2_self_le hne
  have hMle : M * (n * 2 ^ v) ≤ m * 2 ^ u * 2 ^ k := hM ▸ Nat.div_mul_le_self _ _
  have hfits : 2 ^ (s + 3 + 52 + v) * n < 2 ^ (53 + (u + k)) := by
    calc 2 ^ (s + 3 + 52 + v) * n = 2 ^ (s + 3 + 52) * (n * 2 ^ v) := by
          rw [pow_add]
          ring
      _ ≤ M * (n * 2 ^ v) := Nat.mul_le_mul_right _ htop
      _ ≤ m * 2 ^ u * 2 ^ k := hMle
      _ = m * 2 ^ (u + k) := by rw [mul_assoc, ← pow_add]
      _ < 2 ^ 53 * 2 ^ (u + k) := Nat.mul_lt_mul_of_pos_right hm' (Nat.two_pow_pos _)
      _ = 2 ^ (53 + (u + k)) := (pow_add 2 53 (u + k)).symm
  obtain ⟨d, hd⟩ : ∃ d, u + k = d + (s + 3) + v := by
    have hlt := (Nat.le_mul_of_pos_right _ hn).trans_lt hfits
    rw [Nat.pow_lt_pow_iff_right (by decide)] at hlt
    exact ⟨u + k - (s + 3) - v, by omega⟩
  have hclose : n < 2 * 2 ^ d := by
    rw [hd, show 53 + (d + (s + 3) + v) = s + 3 + 52 + v + (d + 1) by omega, pow_add 2 _ (d + 1)]
      at hfits
    have := Nat.lt_of_mul_lt_mul_left hfits
    rwa [pow_succ, Nat.mul_comm] at this
  have hM' : m * (2 ^ d * 2 ^ (s + 3)) / n = M := by
    rw [← hM, mul_assoc m (2 ^ u), ← pow_add 2 u, hd, pow_add 2 (d + (s + 3)), pow_add 2 d,
      ← mul_assoc m _ (2 ^ v), Nat.mul_div_mul_right _ _ (Nat.two_pow_pos v)]
  have hshift : max ((M.log2 : Int) - 52) (-1074 - ((v : Int) - u - k)) = s + 3 := by omega
  have hexponent : ((v : Int) - u - k + (s + 3) : Int) = -d := by omega
  obtain ⟨more, hmore⟩ : ∃ more, decide (m * 2 ^ u * 2 ^ k % (n * 2 ^ v) ≠ 0) = more := ⟨_, rfl⟩
  obtain ⟨hq, hq'⟩ := roundShift_normal hs more
  have hx : roundQuotient neg (m * 2 ^ u) (n * 2 ^ v) (v - u) =
      pack neg ((-(d : Int) + 1074).toNat * 2 ^ 52 + roundShift M (s + 3) more) := by
    have hinfinite : (-(d : Int) + 1074).toNat * 2 ^ 52 + roundShift M (s + 3) more ≤ infinite := by
      rw [infinite]
      omega
    have hpos : ¬ (s + 3 : Int) ≤ 0 := by omega
    have htoNat : (s + 3 : Int).toNat = s + 3 := by omega
    simp only [roundQuotient, hk, hM, hmore, round, hshift, hexponent, if_neg hne, if_neg hpos,
      htoNat, min_eq_left hinfinite]
  rw [hx]
  obtain ⟨hfinite, hneg, -⟩ := pack_normal neg hq hq' (by omega : -1074 ≤ -(d : Int)) (by omega)
  refine ⟨hfinite, hneg, ?_⟩
  rw [truncated_pack_normal neg hq hq' (by omega) (by omega), ← roundShift_div more hn hclose hM']
  obtain rfl | hd' := Nat.eq_zero_or_pos d
  · simp
  · rw [if_pos (by omega), neg_neg, Int.toNat_natCast]

/-- The exponent of an integer of 53 bits. -/
theorem IsInt.exponent (h : IsInt x a) (ha : a ≠ 0) (ha' : a.natAbs < 2 ^ 53) :
    ∃ u : Nat, u ≤ 52 ∧ x.exponent = -u ∧ x.mantissa = a.natAbs * 2 ^ u := by
  have hvalue := h.value
  obtain hpos | hneg := lt_or_ge 0 x.exponent
  · have hlarge : 2 ^ 52 ≤ x.mantissa := by
      rw [Float64.exponent] at hpos
      rw [mantissa]
      split_ifs at hpos ⊢ <;> omega
    rw [Int.toNat_of_nonpos (by omega : -x.exponent ≤ 0), pow_zero, mul_one] at hvalue
    have htwo : 2 ≤ 2 ^ x.exponent.toNat := Nat.le_self_pow (by omega) 2
    have := Nat.mul_le_mul hlarge htwo
    omega
  · refine ⟨(-x.exponent).toNat, ?_, by omega, ?_⟩
    · rw [Int.toNat_of_nonpos hneg, pow_zero, mul_one] at hvalue
      have hlt : 2 ^ (-x.exponent).toNat < 2 ^ 53 := by
        refine lt_of_le_of_lt ?_ (hvalue ▸ mantissa_lt x)
        exact Nat.le_mul_of_pos_left _ (by omega)
      rw [Nat.pow_lt_pow_iff_right (by decide)] at hlt
      omega
    · rwa [Int.toNat_of_nonpos hneg, pow_zero, mul_one] at hvalue

theorem signed_tdiv (ha : a ≠ 0) (hb : b ≠ 0) :
    (if decide (a < 0) != decide (b < 0) then -((a.natAbs / b.natAbs : Nat) : Int)
      else (a.natAbs / b.natAbs : Nat)) = a.tdiv b := by
  obtain ⟨m, rfl | rfl⟩ := a.eq_nat_or_neg <;> obtain ⟨n, rfl | rfl⟩ := b.eq_nat_or_neg
  all_goals
    rw [Int.natCast_div]
    simp [Int.neg_tdiv, Int.tdiv_neg]
  all_goals omega

/-- The quotient of integers of 53 bits, towards zero. -/
theorem IsInt.toInt64_div (hx : IsInt x a) (hy : IsInt y b) (ha : a.natAbs < 2 ^ 53)
    (hb : b.natAbs < 2 ^ 53) (hzero : b ≠ 0) : (x.div y).toInt64 = Int64.ofInt (a.tdiv b) := by
  obtain ⟨v, hv, hyexp, hymantissa⟩ := hy.exponent hzero hb
  have hymagnitude : y.magnitude ≠ 0 := by
    intro hnone
    rw [mantissa_eq_zero.mpr hnone] at hymantissa
    have := Nat.mul_pos (by omega : 0 < b.natAbs) (Nat.two_pow_pos v)
    omega
  rw [Float64.div, hx.isNaN, hy.isNaN, hx.isInf, hy.isInf]
  simp only [Bool.false_eq_true, or_self, if_false, if_neg hymagnitude]
  by_cases hazero : a = 0
  · subst hazero
    have hmantissa : x.mantissa = 0 := by
      have hvalue := hx.value
      simpa using hvalue
    rw [hmantissa, roundQuotient, zero_mul, Nat.zero_div, Int.zero_tdiv]
    exact (isInt_pack_zero _).toInt64
  · obtain ⟨u, hu, hxexp, hxmantissa⟩ := hx.exponent hazero ha
    obtain ⟨hfinite, hneg, htruncated⟩ := roundQuotient_truncated (x.negative != y.negative)
      (by omega : 0 < a.natAbs) ha (by omega : 0 < b.natAbs) hb hu hv
    have hsmall : ¬ 2 ^ 63 ≤ a.natAbs / b.natAbs := by
      have := Nat.div_le_self a.natAbs b.natAbs
      omega
    rw [hxmantissa, hymantissa, hxexp, hyexp, show -(u : Int) - -(v : Int) = v - u by omega,
      toInt64_of_finite hfinite, htruncated, hneg, hx.sign hazero, hy.sign hzero, if_neg hsmall,
      signed_tdiv hazero hzero]

/-! ### Decimal texts -/

theorem digits_append (ds : Bytes) (d : UInt8) :
    digits (ds ++ [d]) = digits ds * 10 + (d.toNat - 48) := by
  rw [digits, List.foldl_append]
  rfl

theorem showNat_spec (n : Nat) :
    showNat n ≠ [] ∧ (showNat n).all isDigit ∧ digits (showNat n) = n := by
  induction n using Nat.strong_induction_on with
  | h n ih =>
    have hdigit : ∀ r < 10, isDigit (UInt8.ofNat r.digitChar.toNat) ∧
        (UInt8.ofNat r.digitChar.toNat).toNat - 48 = r := by decide
    rw [showNat, Nat.toDigits_eq_if (by decide)]
    split_ifs with hsmall
    · obtain ⟨hd, hvalue⟩ := hdigit n hsmall
      refine ⟨by simp, by simpa using hd, ?_⟩
      simpa [digits] using hvalue
    · obtain ⟨-, hall, hvalue⟩ := ih (n / 10) (by omega)
      obtain ⟨hd, hr⟩ := hdigit (n % 10) (by omega)
      rw [List.map_append, ← showNat]
      refine ⟨by simp, ?_, ?_⟩
      · rw [List.all_append, hall]
        simpa using hd
      · rw [List.map_singleton, digits_append, hvalue, hr]
        omega

theorem readSign_of_digits {ds : Bytes} (h : ds.all isDigit) : readSign ds = (false, ds) := by
  cases ds with
  | nil => rfl
  | cons d ds =>
    have hd : isDigit d := by
      rw [List.all_cons, Bool.and_eq_true] at h
      exact h.1
    rw [readSign]
    · rintro ds' ⟨⟩
      exact absurd hd (by decide)
    · rintro ds' ⟨⟩
      exact absurd hd (by decide)

theorem lower_of_le {b : UInt8} (hb : b ≤ 57) : lower b ≤ 57 := by
  rw [lower, if_neg]
  · exact hb
  · exact fun h => absurd (h.1.trans hb) (by decide)

/-- Digits are not the name of a number. -/
theorem special_of_digits {text ds : Bytes} {neg : Bool} (hsign : readSign text = (neg, ds))
    (hne : ds ≠ []) (h : ds.all isDigit) : special text = none := by
  obtain ⟨d, ds, rfl⟩ := List.exists_cons_of_ne_nil hne
  have hd : d ≤ 57 := by
    rw [List.all_cons, Bool.and_eq_true, isDigit, Bool.and_eq_true, decide_eq_true_eq,
      decide_eq_true_eq] at h
    exact h.1.2
  obtain ⟨b, text, rfl, hb⟩ : ∃ b text', text = b :: text' ∧ b ≤ 57 := by
    unfold readSign at hsign
    split at hsign
    · exact ⟨43, _, rfl, by decide⟩
    · exact ⟨45, _, rfl, by decide⟩
    · exact ⟨d, ds, (Prod.mk.inj hsign).2, hd⟩
  -- the names begin with letters, which come after the digits
  have hname {c : UInt8} {l l' : Bytes} (hc : c ≤ 57) (hl : 57 < l.headD 0)
      (hmap : lower c :: l' = l) : False := by
    subst hmap
    exact absurd (lower_of_le hc) (not_le.mpr hl)
  simp only [special, hsign, List.map_cons]
  rw [if_neg (hname hb (by decide)), if_neg]
  rintro (hinf | hinf)
  · exact hname hd (by decide) hinf
  · exact hname hd (by decide) hinf

/-- A text of digits is the number, rounded. -/
theorem parse_of_digits {text ds : Bytes} {neg : Bool} (hsign : readSign text = (neg, ds))
    (hne : ds ≠ []) (h : ds.all isDigit) (hfinite : (round neg (digits ds) 0 false).isInf = false) :
    parse text = some (round neg (digits ds) 0 false) := by
  have htake : ds.takeWhile isDigit = ds := List.takeWhile_eq_self_iff.mpr (List.all_eq_true.mp h)
  have hdrop : ds.dropWhile isDigit = [] := List.dropWhile_eq_nil_iff.mpr (List.all_eq_true.mp h)
  rw [parse, special_of_digits hsign hne h, parseDecimal, hsign]
  simp only [htake, hdrop, hne, false_and, if_false, List.append_nil]
  change (if (ofDecimal neg (digits ds) 0).isInf then none
    else some (ofDecimal neg (digits ds) 0)) = _
  have hdecimal : ofDecimal neg (digits ds) 0 = round neg (digits ds) 0 false := by
    simp [ofDecimal]
  rw [hdecimal, hfinite]
  rfl

theorem isInf_ofInt (ha : a.natAbs ≤ 2 ^ 63) : (ofInt a).isInf = false := by
  obtain ⟨a', hint, -⟩ := exists_isInt_ofInt ha
  exact hint.isInf

/-- An integer is read back from its text. -/
theorem parse_showInt (ha : a.natAbs ≤ 2 ^ 63) : parse (showInt a) = some (ofInt a) := by
  obtain ⟨hne, hall, hvalue⟩ := showNat_spec a.natAbs
  have hfinite := isInf_ofInt ha
  rw [ofInt] at hfinite ⊢
  rw [showInt]
  split_ifs with hneg
  · have hsign : readSign (45 :: showNat a.natAbs) = (true, showNat a.natAbs) := rfl
    have hround := parse_of_digits hsign hne hall
    rw [hvalue] at hround
    simp only [hneg, decide_true] at hfinite ⊢
    exact hround hfinite
  · have hround := parse_of_digits (readSign_of_digits hall) hne hall
    rw [hvalue] at hround
    simp only [hneg, decide_false] at hfinite ⊢
    exact hround hfinite

end MySQLight.Data.Float64
