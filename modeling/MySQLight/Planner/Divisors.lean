import MySQLight.Parser.Parser
import MySQLight.Planner.Folding

/-!
When constant folding stops the program.

Folding `%` leaves a divisor that is zero alone, but it compares the number
before it makes an integer of it: a divisor strictly between -1 and 1 passes
the test and is then the integer zero. What matters is the value of the
divisor, which may be an operation on literals itself; `constantValue` is
that value.
-/

namespace MySQLight.Planner

open MySQLight.Data MySQLight.Sql

/-! ### The values of constants -/

/-- Arithmetic on two numbers. A quotient needs a divisor other than zero, a
remainder one that has an integer part. -/
def combineNumbers (x y : Float64) : BinaryOp → Option Float64
  | .add => some (x.add y)
  | .sub => some (x.sub y)
  | .mul => some (x.mul y)
  | .div => if y.eq 0 then none else some (x.div y)
  | .mod =>
    if y.toInt64 = 0 then none else some (Float64.ofInt (x.toInt64 % y.toInt64).toInt)
  | _ => none

def compareNumbers (x y : Float64) : BinaryOp → Option Bool
  | .eq => some (x.eq y)
  | .ne => some !(x.eq y)
  | .lt => some (x.lt y)
  | .gt => some (y.lt x)
  | .le => some (x.le y)
  | .ge => some (y.le x)
  | _ => none

/-- The value of an operator on two literals, a literal. -/
def operatorValue (kind : LiteralKind) (value : Bytes) (op : BinaryOp) (kind' : LiteralKind)
    (value' : Bytes) : Option Expr :=
  let bothInt : Bool := kind = .integer && kind' = .integer
  if kind = .null ∨ kind' = .null then some (.literal .null (ascii "null"))
  else if op = .and ∨ op = .or then
    if bothInt then
      some (boolLiteral (if op = .and then value ≠ ascii "0" && value' ≠ ascii "0"
        else value ≠ ascii "0" || value' ≠ ascii "0"))
    else none
  else if isNumeric kind && isNumeric kind' then do
    let x ← Float64.parse value
    let y ← Float64.parse value'
    (combineNumbers x y op).map (numericLiteral · bothInt) <|>
      (compareNumbers x y op).map boolLiteral
  else if kind = .string ∧ kind' = .string then
    if op = .eq then some (boolLiteral (value = value'))
    else if op = .ne then some (boolLiteral (value ≠ value'))
    else none
  else none

/-- The value of an expression without columns and calls, a literal. -/
def constantValue : Expr → Option Expr
  | .literal kind value => some (.literal kind value)
  | .binaryExpr left op right =>
    match constantValue left, constantValue right with
    | some (.literal kind value), some (.literal kind' value') =>
      operatorValue kind value op kind' value'
    | _, _ => none
  | _ => none

/-- The literals are numbers, and the second is not zero, but its integer
part is. -/
def Truncated (kind : LiteralKind) (value : Bytes) (kind' : LiteralKind) (value' : Bytes) : Prop :=
  isNumeric kind ∧ isNumeric kind' ∧
    ∃ x y, Float64.parse value = some x ∧ Float64.parse value' = some y ∧
      y.eq 0 = false ∧ y.toInt64 = 0

/-- No `%` of two constants has a divisor strictly between -1 and 1 other
than zero. -/
def WholeDivisors : Expr → Prop
  | .binaryExpr left op right =>
    WholeDivisors left ∧ WholeDivisors right ∧
      ∀ kind value kind' value', op = .mod → constantValue left = some (.literal kind value) →
        constantValue right = some (.literal kind' value') → ¬ Truncated kind value kind' value'
  | _ => True

/-! ### Folding -/

variable {kind kind' : LiteralKind} {value value' : Bytes} {op : BinaryOp}

theorem toInt64_of_eq_zero {y : Float64} (h : y.eq 0) : y.toInt64 = 0 := by
  simp only [Float64.eq, Bool.and_eq_true, decide_eq_true_eq] at h
  have hzero : y.magnitude = 0 := by
    have hrank : y.rank = 0 := h.2
    rw [Float64.rank] at hrank
    split_ifs at hrank <;> omega
  have hmantissa : y.mantissa = 0 := by
    rw [Float64.mantissa, hzero]
    rfl
  simp [Float64.toInt64, hmantissa, hzero, Float64.infinite]

/-- The switch of folding, where it does not divide by the integer zero. -/
theorem foldNumbers_eq {x y : Float64} {bothInt : Bool} {unfolded : Expr}
    (h : op = .mod → y.eq 0 = false → y.toInt64 ≠ 0) :
    foldNumbers op x y bothInt unfolded =
      some (((combineNumbers x y op).map (numericLiteral · bothInt) <|>
        (compareNumbers x y op).map boolLiteral).getD unfolded) := by
  cases op with
  | div =>
    rw [foldNumbers, combineNumbers]
    split_ifs <;> rfl
  | mod =>
    rw [foldNumbers, combineNumbers]
    by_cases hzero : y.eq 0
    · rw [if_pos hzero, if_pos (toInt64_of_eq_zero hzero)]
      rfl
    · have hint := h rfl (by simpa using hzero)
      rw [if_neg hzero, if_neg hint, if_neg hint]
      rfl
  | _ => rfl

theorem evalConstantBinary_of_truncated (h : Truncated kind value kind' value') :
    evalConstantBinary kind value .mod kind' value' = none := by
  obtain ⟨hnum, hnum', x, y, hx, hy, hzero, hint⟩ := h
  have hnull : ¬(kind = .null ∨ kind' = .null) := by
    rintro (rfl | rfl)
    · cases hnum
    · cases hnum'
  simp [evalConstantBinary, hnull, hnum, hnum', hx, hy, foldNumbers, hzero, hint]

theorem evalConstantBinary_of_not_truncated (h : op = .mod → ¬ Truncated kind value kind' value') :
    evalConstantBinary kind value op kind' value' =
      some ((operatorValue kind value op kind' value').getD
        (.binaryExpr (.literal kind value) op (.literal kind' value'))) := by
  unfold evalConstantBinary operatorValue
  by_cases hnull : kind = .null ∨ kind' = .null
  · simp only [if_pos hnull, Option.getD_some]
  by_cases hop : op = .and ∨ op = .or
  · simp only [if_neg hnull, if_pos hop]
    split_ifs <;> rfl
  by_cases hnum : isNumeric kind && isNumeric kind'
  · simp only [if_neg hnull, if_neg hop, if_pos hnum]
    cases hx : Float64.parse value with
    | none => rfl
    | some x =>
      cases hy : Float64.parse value' with
      | none => rfl
      | some y =>
        refine foldNumbers_eq fun hmod hzero hint => h hmod ?_
        rw [Bool.and_eq_true] at hnum
        exact ⟨hnum.1, hnum.2, x, y, hx, hy, hzero, hint⟩
  · simp only [if_neg hnull, if_neg hop, if_neg hnum]
    by_cases hstring : kind = .string ∧ kind' = .string
    · simp only [if_pos hstring]
      cases op <;> rfl
    · simp only [if_neg hstring, Option.getD_none]

/-- What folding makes of an expression: its value if it has one, and
otherwise no literal. -/
theorem foldExpr_of_wholeDivisors {e : Expr} (h : WholeDivisors e) :
    ∃ e', foldExpr e = some e' ∧
      ∀ kind value, e' = .literal kind value ↔ constantValue e = some (.literal kind value) := by
  induction e using SmallLiterals.induct with
  | case1 kind value => exact ⟨_, rfl, fun _ _ => by rw [constantValue, Option.some_inj]⟩
  | case2 left op right ihl ihr =>
    obtain ⟨hleft, hright, hwhole⟩ := h
    obtain ⟨left', hl, hl'⟩ := ihl hleft
    obtain ⟨right', hr, hr'⟩ := ihr hright
    by_cases hlit : ∃ k v k' v', left' = .literal k v ∧ right' = .literal k' v'
    · obtain ⟨k, v, k', v', rfl, rfl⟩ := hlit
      have hvalue := (hl' k v).mp rfl
      have hvalue' := (hr' k' v').mp rfl
      rw [foldExpr_literals hl hr, evalConstantBinary_of_not_truncated
        fun hmod => hwhole k v k' v' hmod hvalue hvalue']
      have hbinary : constantValue (.binaryExpr left op right) = operatorValue k v op k' v' := by
        rw [constantValue, hvalue, hvalue']
      refine ⟨_, rfl, fun k'' v'' => ?_⟩
      rw [hbinary]
      cases operatorValue k v op k' v' with
      | none => simp
      | some d => rw [Option.getD_some, Option.some_inj]
    · have hnot : (∀ k v, left' ≠ .literal k v) ∨ ∀ k v, right' ≠ .literal k v := by
        by_contra hboth
        push Not at hboth
        obtain ⟨⟨k, v, hk⟩, k', v', hk'⟩ := hboth
        exact hlit ⟨k, v, k', v', hk, hk'⟩
      refine ⟨_, foldExpr_binary hl hr hnot, fun k v => iff_of_false (by simp) ?_⟩
      rw [constantValue]
      split
      · next hvalue hvalue' =>
          exact absurd ⟨_, _, _, _, (hl' _ _).mpr hvalue, (hr' _ _).mpr hvalue'⟩ hlit
      · simp
  | case3 e hliteral hbinary =>
    cases e with
    | literal kind value => exact absurd rfl (hliteral kind value)
    | binaryExpr left op right => exact absurd rfl (hbinary left op right)
    | _ => exact ⟨_, rfl, fun _ _ => by simp [constantValue]⟩

theorem wholeDivisors_of_foldExpr {e e' : Expr} (h : foldExpr e = some e') : WholeDivisors e := by
  induction e using WholeDivisors.induct generalizing e' with
  | case1 left op right ihl ihr =>
    have hboth := h
    rw [foldExpr] at hboth
    obtain ⟨left', hl, hrest⟩ := Option.bind_eq_some_iff.mp hboth
    obtain ⟨right', hr, -⟩ := Option.bind_eq_some_iff.mp hrest
    refine ⟨ihl hl, ihr hr, ?_⟩
    rintro k v k' v' rfl hvalue hvalue' htrunc
    obtain ⟨_, hl', hlit⟩ := foldExpr_of_wholeDivisors (ihl hl)
    obtain ⟨_, hr', hlit'⟩ := foldExpr_of_wholeDivisors (ihr hr)
    rw [(hlit k v).mpr hvalue] at hl'
    rw [(hlit' k' v').mpr hvalue'] at hr'
    rw [foldExpr_literals hl' hr', evalConstantBinary_of_truncated htrunc] at h
    cases h
  | case2 e hbinary =>
    cases e with
    | binaryExpr left op right => exact absurd rfl (hbinary left op right)
    | _ => trivial

/-- Folding an expression comes to an end without a division by the integer
zero if and only if no divisor of `%` is a constant strictly between -1 and 1
other than zero. -/
theorem foldExpr_isSome_iff (e : Expr) : (foldExpr e).isSome ↔ WholeDivisors e := by
  constructor
  · intro h
    obtain ⟨e', he⟩ := Option.isSome_iff_exists.mp h
    exact wholeDivisors_of_foldExpr he
  · intro h
    obtain ⟨e', he, -⟩ := foldExpr_of_wholeDivisors h
    rw [he]
    rfl

/-- `SELECT * FROM t WHERE 5 % 0.5` is a statement, and planning it stops the
program. -/
theorem foldExpr_half_divisor :
    ∃ stmt rest predicate,
      parseText (ascii "SELECT * FROM t WHERE 5 % 0.5;") = .ok (.selectStmt stmt, rest) ∧
      stmt.where = some predicate ∧ foldExpr predicate = none :=
  ⟨_, _, .binaryExpr (.literal .integer (ascii "5")) .mod (.literal .float (ascii "0.5")), rfl, rfl,
    by decide +kernel⟩

end MySQLight.Planner
