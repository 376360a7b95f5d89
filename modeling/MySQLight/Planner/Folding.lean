import MySQLight.Data.FloatInt
import MySQLight.Executor.Cursor
import MySQLight.Planner.Optimizer

/-!
When constant folding keeps the value of an expression.

A literal that folding writes is an integer, a string or NULL, never a truth
value. So the comparisons of two constants, and `AND` and `OR` of them, come
out as the integers 1 and 0, which a filter does not take for true. The
arithmetic of two integers goes through floating-point numbers: it comes out
right where the rounding does not change the result.
-/

namespace MySQLight.Planner

open MySQLight.Data MySQLight.Sql

/-! ### Literals -/

/-- The literal is an integer below `2 ^ 53`, a string or NULL. -/
def IsSmall : LiteralKind → Bytes → Prop
  | .integer, value => value ≠ [] ∧ value.all Float64.isDigit ∧ Float64.digits value < 2 ^ 53
  | .float, _ => False
  | .string, _ | .null, _ => True

/-- The literal denotes the value, for the evaluator and for folding. -/
def Denotes (kind : LiteralKind) (value : Bytes) : Datum → Prop
  | .null => kind = .null
  | .int i =>
    kind = .integer ∧ parseInt value = some i ∧
      Float64.parse value = some (Float64.ofInt i.toInt) ∧
      Float64.IsInt (Float64.ofInt i.toInt) i.toInt
  | .text s => kind = .string ∧ value = s
  | _ => False

variable {kind kind' : LiteralKind} {value value' : Bytes} {d d' : Datum} {op : BinaryOp}

theorem Denotes.evalLiteral (h : Denotes kind value d) : evalLiteral kind value = .ok d := by
  cases d with
  | null =>
    obtain rfl := h
    rfl
  | int i =>
    obtain ⟨rfl, hvalue, -⟩ := h
    rw [Sql.evalLiteral, hvalue]
  | text s =>
    obtain ⟨rfl, rfl⟩ := h
    rfl
  | _ => exact h.elim

theorem parseInt_of_digits (hne : value ≠ []) (hall : value.all Float64.isDigit)
    (hlt : Float64.digits value < 2 ^ 63) :
    parseInt value = some (Int64.ofInt (Float64.digits value)) := by
  rw [parseInt, Float64.readSign_of_digits hall]
  simp only [hne, hall, hlt, Bool.not_true, Bool.false_eq_true, or_self, if_false, if_true]

theorem parseInt_showInt (i : Int64) : parseInt (Float64.showInt i.toInt) = some i := by
  obtain ⟨hne, hall, hvalue⟩ := Float64.showNat_spec i.toInt.natAbs
  have hrange := And.intro i.le_toInt i.toInt_lt
  rw [Float64.showInt]
  split_ifs with hneg
  · have hsign : Float64.readSign (45 :: Float64.showNat i.toInt.natAbs) =
        (true, Float64.showNat i.toInt.natAbs) := rfl
    have hback : -(i.toInt.natAbs : Int) = i.toInt := by omega
    have hle : i.toInt.natAbs ≤ 2 ^ 63 := by omega
    rw [parseInt, hsign]
    simp only [hne, hall, hvalue, hle, hback, Int64.ofInt_toInt, Bool.not_true, Bool.false_eq_true,
      or_self, if_false, if_true]
  · have hback : (i.toInt.natAbs : Int) = i.toInt := by omega
    rw [parseInt_of_digits hne hall (by omega), hvalue, hback, Int64.ofInt_toInt]

theorem exists_denotes (h : IsSmall kind value) : ∃ d, Denotes kind value d := by
  cases kind with
  | integer =>
    obtain ⟨hne, hall, hsmall⟩ := h
    have hint : Float64.IsInt (Float64.ofInt (Float64.digits value)) (Float64.digits value) :=
      Float64.isInt_ofInt (by omega)
    have htoInt : (Int64.ofInt (Float64.digits value)).toInt = Float64.digits value :=
      Int64.toInt_ofInt_of_le (by omega) (by omega)
    refine ⟨.int (Int64.ofInt (Float64.digits value)), rfl, ?_, ?_, ?_⟩
    · exact parseInt_of_digits hne hall (by omega)
    · rw [htoInt]
      exact Float64.parse_of_digits (Float64.readSign_of_digits hall) hne hall hint.isInf
    · rw [htoInt]
      exact hint
  | float => exact h.elim
  | string => exact ⟨.text value, rfl, rfl⟩
  | null => exact ⟨.null, rfl⟩

/-- The literal of a number that has been truncated. -/
theorem denotes_showInt (x : Float64) :
    Denotes .integer (Float64.showInt x.toInt64.toInt) (.int x.toInt64) := by
  have hrange := And.intro x.toInt64.le_toInt x.toInt64.toInt_lt
  refine ⟨rfl, parseInt_showInt _, Float64.parse_showInt (by omega), ?_⟩
  exact Float64.isInt_ofInt_toInt64 x

/-! ### Two constants -/

/-- The integer comes back from the floating-point numbers. -/
def Kept (n : Int) : Prop := (Float64.ofInt n).toInt64 = Int64.ofInt n

/-- Folding gets the value of an operator on two integers right: a sum, a
difference, a product and a remainder if rounding it does not change it, a
quotient if rounding it does not change its integer part. -/
def Exact (op : BinaryOp) (i j : Int64) : Prop :=
  match op with
  | .add => Kept (i.toInt + j.toInt)
  | .sub => Kept (i.toInt - j.toInt)
  | .mul => Kept (i.toInt * j.toInt)
  | .div => j ≠ 0 → ((Float64.ofInt i.toInt).div (Float64.ofInt j.toInt)).toInt64 = i / j
  | .mod => j ≠ 0 → Kept (i.toInt.tmod j.toInt)
  | .like => True
  | _ => False

/-- Folding gets the value of an operator on two constants right. -/
def NodeSafe (op : BinaryOp) : Datum → Datum → Prop
  | .int i, .int j => Exact op i j
  | .text _, .text _ => op ≠ .eq ∧ op ≠ .ne
  | _, _ => True

def isArithmetic (op : BinaryOp) : Bool := op ∈ [.add, .sub, .mul, .div, .mod]

/-- The value of an operator on two constants, where folding makes a literal
of it. -/
def constantOf (op : BinaryOp) : Datum → Datum → Option Datum
  | .null, _ | _, .null => some .null
  | .int i, .int j =>
    if isArithmetic op then (applyBinaryOp op (.int i) (.int j)).toOption else none
  | _, _ => none

/-- The number that folding puts for an operator on two integers. -/
def foldedNumber (op : BinaryOp) (i j : Int64) : Option Float64 :=
  let x := Float64.ofInt i.toInt
  let y := Float64.ofInt j.toInt
  match op with
  | .add => some (x.add y)
  | .sub => some (x.sub y)
  | .mul => some (x.mul y)
  | .div => if j = 0 then none else some (x.div y)
  | .mod => if j = 0 then none else some (Float64.ofInt (i % j).toInt)
  | _ => none

variable {i j : Int64}

theorem eq_zero_iff (h : Float64.IsInt (Float64.ofInt j.toInt) j.toInt) :
    (Float64.ofInt j.toInt).eq 0 ↔ j = 0 := by
  rw [h.eq_zero, ← Int64.toInt_zero, Int64.toInt_inj]

theorem toInt64_of_isInt (h : Float64.IsInt (Float64.ofInt j.toInt) j.toInt) :
    (Float64.ofInt j.toInt).toInt64 = j := by
  rw [h.toInt64_of_range j.le_toInt j.toInt_lt, Int64.ofInt_toInt]

theorem evalConstantBinary_numbers {x y : Float64} (hop : op ≠ .and ∧ op ≠ .or)
    (hx : Float64.parse value = some x) (hy : Float64.parse value' = some y) :
    evalConstantBinary .integer value op .integer value' =
      foldNumbers op x y true
        (.binaryExpr (.literal .integer value) op (.literal .integer value')) := by
  unfold evalConstantBinary
  simp [hop, hx, hy, isNumeric]

/-- The arithmetic of two integers. -/
theorem evalConstantBinary_ints (h : Denotes kind value (.int i))
    (h' : Denotes kind' value' (.int j)) (hop : isArithmetic op) :
    evalConstantBinary kind value op kind' value' =
      some (match foldedNumber op i j with
        | some x => .literal .integer (Float64.showInt x.toInt64.toInt)
        | none => .binaryExpr (.literal kind value) op (.literal kind' value')) := by
  obtain ⟨rfl, -, hparse, hint⟩ := h
  obtain ⟨rfl, -, hparse', hint'⟩ := h'
  have hzero := eq_zero_iff hint'
  have hfold : op ≠ .and ∧ op ≠ .or := by
    constructor <;> rintro rfl <;> cases hop
  rw [evalConstantBinary_numbers hfold hparse hparse', foldNumbers.eq_def, foldedNumber.eq_def]
  cases op with
  | add | sub | mul => rfl
  | div =>
    dsimp only
    by_cases hj : j = 0
    · rw [if_pos (hzero.mpr hj), if_pos hj]
    · rw [if_neg (mt hzero.mp hj), if_neg hj]
      rfl
  | mod =>
    dsimp only
    by_cases hj : j = 0
    · rw [if_pos (hzero.mpr hj), if_pos hj]
    · rw [if_neg (mt hzero.mp hj), toInt64_of_isInt hint, toInt64_of_isInt hint', if_neg hj,
        if_neg hj]
      rfl
  | _ => cases hop

/-- What is not arithmetic becomes 1 or 0, except for `LIKE`. -/
theorem evalConstantBinary_truth (h : Denotes kind value (.int i))
    (h' : Denotes kind' value' (.int j)) (hop : ¬ isArithmetic op) (hlike : op ≠ .like) :
    ∃ b, evalConstantBinary kind value op kind' value' = some (boolLiteral b) := by
  obtain ⟨rfl, -, hparse, -⟩ := h
  obtain ⟨rfl, -, hparse', -⟩ := h'
  by_cases hfold : op ≠ .and ∧ op ≠ .or
  · rw [evalConstantBinary_numbers hfold hparse hparse', foldNumbers.eq_def]
    cases op with
    | eq | ne | lt | gt | le | ge => exact ⟨_, rfl⟩
    | like => exact absurd rfl hlike
    | and | or => simp at hfold
    | _ => exact absurd rfl hop
  · have hop : op = .and ∨ op = .or := by
      by_contra hnone
      exact hfold (not_or.mp hnone)
    unfold evalConstantBinary
    simp only [hop, if_true]
    exact ⟨_, rfl⟩

theorem exact_iff (hi : Float64.IsInt (Float64.ofInt i.toInt) i.toInt)
    (hj : Float64.IsInt (Float64.ofInt j.toInt) j.toInt) (hop : isArithmetic op) :
    Exact op i j ↔ ∀ x, foldedNumber op i j = some x →
      applyBinaryOp op (.int i) (.int j) = .ok (.int x.toInt64) := by
  have hok : ∀ a b : Int64, (a = b ↔ (.ok (.int b) : Except EvalErr Datum) = .ok (.int a)) := by
    intro a b
    simp [eq_comm]
  cases op with
  | add =>
    have hkept : Kept (i.toInt + j.toInt) ↔
        ((Float64.ofInt i.toInt).add (Float64.ofInt j.toInt)).toInt64 = i + j := by
      rw [Kept, hi.toInt64_add hj, Int64.ofInt_add, Int64.ofInt_toInt, Int64.ofInt_toInt]
    simp only [Exact, foldedNumber, Option.some.injEq, forall_eq', hkept]
    exact hok _ _
  | sub =>
    have hkept : Kept (i.toInt - j.toInt) ↔
        ((Float64.ofInt i.toInt).sub (Float64.ofInt j.toInt)).toInt64 = i - j := by
      rw [Kept, hi.toInt64_sub hj, Int64.ofInt_sub, Int64.ofInt_toInt, Int64.ofInt_toInt]
    simp only [Exact, foldedNumber, Option.some.injEq, forall_eq', hkept]
    exact hok _ _
  | mul =>
    have hkept : Kept (i.toInt * j.toInt) ↔
        ((Float64.ofInt i.toInt).mul (Float64.ofInt j.toInt)).toInt64 = i * j := by
      rw [Kept, hi.toInt64_mul hj, Int64.ofInt_mul, Int64.ofInt_toInt, Int64.ofInt_toInt]
    simp only [Exact, foldedNumber, Option.some.injEq, forall_eq', hkept]
    exact hok _ _
  | div =>
    simp only [Exact, foldedNumber]
    by_cases hzero : j = 0
    · simp [hzero]
    · have happly : applyBinaryOp .div (.int i) (.int j) = .ok (.int (i / j)) := by
        show (if (Float64.ofInt j.toInt).eq 0 then _ else _) = _
        rw [if_neg (mt (eq_zero_iff hj).mp hzero)]
        rfl
      simp only [hzero, not_false_eq_true, forall_const, if_false, Option.some.injEq, forall_eq',
        happly, ne_eq]
      exact hok _ _
  | mod =>
    simp only [Exact, foldedNumber]
    by_cases hzero : j = 0
    · simp [hzero]
    · have happly : applyBinaryOp .mod (.int i) (.int j) = .ok (.int (i % j)) := if_neg hzero
      have hkept : Kept (i.toInt.tmod j.toInt) ↔
          (Float64.ofInt (i % j).toInt).toInt64 = i % j := by
        rw [Kept, ← Int64.toInt_mod, Int64.ofInt_toInt]
      simp only [hzero, not_false_eq_true, forall_const, if_false, Option.some.injEq, forall_eq',
        happly, ne_eq, hkept]
      exact hok _ _
  | _ => cases hop

/-- Only a division by zero stays. -/
theorem applyBinaryOp_of_not_folded (hop : isArithmetic op) (h : foldedNumber op i j = none) :
    (applyBinaryOp op (.int i) (.int j)).toOption = none := by
  rw [foldedNumber.eq_def] at h
  cases op with
  | add | sub | mul => cases h
  | div =>
    obtain rfl : j = 0 := by
      by_contra hj
      simp [hj] at h
    rfl
  | mod =>
    obtain rfl : j = 0 := by
      by_contra hj
      simp [hj] at h
    rfl
  | _ => cases hop

/-! ### Expressions -/

/-- The literals that folding comes across are integers below `2 ^ 53`,
strings or NULL. -/
def SmallLiterals : Expr → Prop
  | .literal kind value => IsSmall kind value
  | .binaryExpr left _ right => SmallLiterals left ∧ SmallLiterals right
  | _ => True

/-- The value of an expression that folding makes a literal of. -/
def constant : Expr → Option Datum
  | .literal kind value => (evalLiteral kind value).toOption
  | .binaryExpr left op right => do constantOf op (← constant left) (← constant right)
  | _ => none

/-- Folding gets every operator on two constants right. -/
def FoldSafe : Expr → Prop
  | .binaryExpr left op right =>
    FoldSafe left ∧ FoldSafe right ∧
      ∀ d d', constant left = some d → constant right = some d' → NodeSafe op d d'
  | _ => True

theorem evalConstantBinary_null (h : kind = .null ∨ kind' = .null) :
    evalConstantBinary kind value op kind' value' = some (.literal .null (ascii "null")) := by
  unfold evalConstantBinary
  simp only [if_pos h]

theorem constantOf_null (h : d = .null ∨ d' = .null) : constantOf op d d' = some .null := by
  obtain rfl | rfl := h
  · rfl
  · cases d <;> rfl

theorem Denotes.eq_null (h : Denotes kind value d) : d = .null ↔ kind = .null := by
  cases d with
  | null => exact iff_of_true rfl h
  | int i => exact iff_of_false nofun (by rw [h.1]; nofun)
  | text s => exact iff_of_false nofun (by rw [h.1]; nofun)
  | _ => exact h.elim

/-- Where folding puts a literal for an operator on two constants, the
literal denotes the value of the operator. -/
theorem evalConstantBinary_of_nodeSafe (h : Denotes kind value d) (h' : Denotes kind' value' d')
    (hsafe : NodeSafe op d d') :
    (∃ k v r, evalConstantBinary kind value op kind' value' = some (.literal k v) ∧ Denotes k v r ∧
      applyBinaryOp op d d' = .ok r ∧ constantOf op d d' = some r) ∨
    evalConstantBinary kind value op kind' value' =
        some (.binaryExpr (.literal kind value) op (.literal kind' value')) ∧
      constantOf op d d' = none := by
  by_cases hnull : d = .null ∨ d' = .null
  · refine .inl ⟨.null, ascii "null", .null, evalConstantBinary_null ?_, rfl,
      applyBinaryOp_null hnull, constantOf_null hnull⟩
    rwa [← h.eq_null, ← h'.eq_null]
  obtain ⟨hd, hd'⟩ := not_or.mp hnull
  cases d with
  | null => exact absurd rfl hd
  | int i =>
    cases d' with
    | null => exact absurd rfl hd'
    | int j =>
      by_cases hop : isArithmetic op
      · rw [evalConstantBinary_ints h h' hop, constantOf, if_pos hop]
        have hexact := (exact_iff h.2.2.2 h'.2.2.2 hop).mp hsafe
        cases hfolded : foldedNumber op i j with
        | some x =>
          have happly := hexact x hfolded
          refine .inl ⟨_, _, .int x.toInt64, rfl, denotes_showInt x, happly, ?_⟩
          rw [happly]
          rfl
        | none => exact .inr ⟨rfl, applyBinaryOp_of_not_folded hop hfolded⟩
      · rw [constantOf, if_neg hop]
        cases op with
        | like =>
          obtain ⟨rfl, -, hparse, -⟩ := h
          obtain ⟨rfl, -, hparse', -⟩ := h'
          exact .inr ⟨evalConstantBinary_numbers ⟨nofun, nofun⟩ hparse hparse', rfl⟩
        | add | sub | mul | div | mod => exact absurd rfl hop
        | _ => exact hsafe.elim
    | text s =>
      obtain ⟨rfl, -⟩ := h
      obtain ⟨rfl, -⟩ := h'
      refine .inr ⟨?_, rfl⟩
      cases op <;> rfl
    | _ => exact h'.elim
  | text s =>
    obtain ⟨rfl, rfl⟩ := h
    cases d' with
    | null => exact absurd rfl hd'
    | int j =>
      obtain ⟨rfl, -⟩ := h'
      refine .inr ⟨?_, rfl⟩
      cases op <;> rfl
    | text s' =>
      obtain ⟨rfl, rfl⟩ := h'
      refine .inr ⟨?_, rfl⟩
      cases op with
      | eq => exact absurd rfl hsafe.1
      | ne => exact absurd rfl hsafe.2
      | _ => rfl
    | _ => exact h'.elim
  | _ => exact h.elim

theorem evalExpr_boolLiteral (b : Bool) (row : Row) (columns : List Schema.ColumnDef) :
    ∃ i, evalExpr (boolLiteral b) row columns = .ok (.int i) := by
  cases b <;> exact ⟨_, rfl⟩

/-- A truth value is not an integer. -/
theorem applyBinaryOp_ne_int (hop : ¬ isArithmetic op) (n : Int64) :
    applyBinaryOp op d d' ≠ .ok (.int n) := by
  unfold applyBinaryOp
  by_cases hnull : d = .null ∨ d' = .null
  · rw [if_pos hnull]
    nofun
  · rw [if_neg hnull]
    cases op with
    | add | sub | mul | div | mod => exact absurd rfl hop
    | and | or | like => cases d <;> cases d' <;> nofun
    | _ => nofun

/-- Where folding keeps the value, it gets the operator right. -/
theorem nodeSafe_of_evalConstantBinary {e : Expr} (h : Denotes kind value d)
    (h' : Denotes kind' value' d') (he : evalConstantBinary kind value op kind' value' = some e)
    (hsame : evalExpr e [] [] = applyBinaryOp op d d') : NodeSafe op d d' := by
  cases d with
  | int i =>
    cases d' with
    | int j =>
      by_cases hop : isArithmetic op
      · rw [evalConstantBinary_ints h h' hop] at he
        refine (exact_iff h.2.2.2 h'.2.2.2 hop).mpr fun x hx => ?_
        rw [hx] at he
        cases he
        rw [← hsame]
        exact (denotes_showInt x).evalLiteral
      · by_cases hlike : op = .like
        · subst hlike
          trivial
        · obtain ⟨b, hb⟩ := evalConstantBinary_truth h h' hop hlike
          cases hb.symm.trans he
          obtain ⟨n, hn⟩ := evalExpr_boolLiteral b [] []
          exact absurd (hsame.symm.trans hn) (applyBinaryOp_ne_int hop n)
    | _ => trivial
  | text s =>
    cases d' with
    | text s' =>
      obtain ⟨rfl, rfl⟩ := h
      obtain ⟨rfl, rfl⟩ := h'
      constructor
      all_goals
        rintro rfl
        cases he
        obtain ⟨n, hn⟩ := evalExpr_boolLiteral _ [] []
        exact absurd (hsame.symm.trans hn) (applyBinaryOp_ne_int (by decide) n)
    | _ => trivial
  | _ => trivial

variable {left right : Expr}

/-- Folding an operator, from what its operands fold to. -/
theorem foldExpr_binary {left' right' : Expr} (hleft : foldExpr left = some left')
    (hright : foldExpr right = some right') (hlit : (∀ k v, left' ≠ .literal k v) ∨
      ∀ k v, right' ≠ .literal k v) :
    foldExpr (.binaryExpr left op right) = some (.binaryExpr left' op right') := by
  rw [foldExpr, hleft, hright]
  cases left' with
  | literal k v =>
    cases right' with
    | literal k' v' => exact absurd rfl (hlit.elim (fun h => absurd rfl (h k v)) (· k' v'))
    | _ => rfl
  | _ => rfl

theorem foldExpr_literals (hleft : foldExpr left = some (.literal kind value))
    (hright : foldExpr right = some (.literal kind' value')) :
    foldExpr (.binaryExpr left op right) = evalConstantBinary kind value op kind' value' := by
  rw [foldExpr, hleft, hright]
  rfl

/-- What a safe expression folds to. -/
structure FoldsTo (e e' : Expr) : Prop where
  folds : foldExpr e = some e'
  same : ∀ row columns, evalExpr e' row columns = evalExpr e row columns
  literal : ∀ d, constant e = some d → ∃ kind value, e' = .literal kind value ∧ Denotes kind value d
  other : constant e = none → ∀ kind value, e' ≠ .literal kind value

/-- An operator on two constants that is safe. -/
theorem exists_foldsTo_constants {left' right' : Expr} (hleft : FoldsTo left left')
    (hright : FoldsTo right right') (hd : constant left = some d) (hd' : constant right = some d')
    (hsafe : NodeSafe op d d') : ∃ e', FoldsTo (.binaryExpr left op right) e' := by
  obtain ⟨kind, value, rfl, hdenotes⟩ := hleft.literal d hd
  obtain ⟨kind', value', rfl, hdenotes'⟩ := hright.literal d' hd'
  have hconstant : constant (.binaryExpr left op right) = constantOf op d d' := by
    rw [constant, hd, hd']
    rfl
  have hvalue : ∀ row columns,
      evalExpr (.binaryExpr left op right) row columns = applyBinaryOp op d d' := by
    intro row columns
    rw [evalExpr, ← hleft.same, ← hright.same, evalExpr, evalExpr, hdenotes.evalLiteral,
      hdenotes'.evalLiteral]
    rfl
  have hfold : foldExpr (.binaryExpr left op right) = _ :=
    foldExpr_literals hleft.folds hright.folds
  obtain ⟨k, v, r, he, hr, happly, hsome⟩ | ⟨he, hnone⟩ :=
    evalConstantBinary_of_nodeSafe hdenotes hdenotes' hsafe
  · refine ⟨.literal k v, hfold.trans he, fun row columns => ?_, fun r' hr' => ?_, fun hnone => ?_⟩
    · rw [hvalue, happly, evalExpr, hr.evalLiteral]
    · cases (hconstant.trans hsome).symm.trans hr'
      exact ⟨k, v, rfl, hr⟩
    · exact absurd ((hconstant.trans hsome).symm.trans hnone) nofun
  · refine ⟨_, hfold.trans he, fun row columns => ?_, fun r hr => ?_, fun _ => nofun⟩
    · rw [hvalue, evalExpr, evalExpr, evalExpr, hdenotes.evalLiteral, hdenotes'.evalLiteral]
      rfl
    · exact absurd ((hconstant.trans hnone).symm.trans hr) nofun

theorem foldsTo_other {left' right' : Expr} (hleft : FoldsTo left left')
    (hright : FoldsTo right right') (hnone : constant left = none ∨ constant right = none) :
    FoldsTo (.binaryExpr left op right) (.binaryExpr left' op right') := by
  refine ⟨?_, fun row columns => ?_, fun d hd => ?_, fun _ => nofun⟩
  · exact foldExpr_binary hleft.folds hright.folds (hnone.imp hleft.other hright.other)
  · rw [evalExpr, evalExpr, hleft.same, hright.same]
  · rw [constant] at hd
    obtain hnone | hnone := hnone
    · rw [hnone] at hd
      cases hd
    · rw [hnone] at hd
      cases hleft : constant left with
      | none =>
        rw [hleft] at hd
        cases hd
      | some d =>
        rw [hleft] at hd
        cases hd

theorem exists_foldsTo {e : Expr} (hsmall : SmallLiterals e) (hsafe : FoldSafe e) :
    ∃ e', FoldsTo e e' := by
  induction e using SmallLiterals.induct with
  | case1 kind value =>
    obtain ⟨d, hd⟩ := exists_denotes hsmall
    have hconstant : constant (.literal kind value) = some d := by
      rw [constant, hd.evalLiteral]
      rfl
    refine ⟨.literal kind value, rfl, fun _ _ => rfl, fun d' hd' => ?_, fun hnone => ?_⟩
    · cases hconstant.symm.trans hd'
      exact ⟨kind, value, rfl, hd⟩
    · exact absurd (hconstant.symm.trans hnone) nofun
  | case2 left op right ihl ihr =>
    obtain ⟨left', hleft⟩ := ihl hsmall.1 hsafe.1
    obtain ⟨right', hright⟩ := ihr hsmall.2 hsafe.2.1
    cases hd : constant left with
    | none => exact ⟨_, foldsTo_other hleft hright (.inl hd)⟩
    | some d =>
      cases hd' : constant right with
      | none => exact ⟨_, foldsTo_other hleft hright (.inr hd')⟩
      | some d' => exact exists_foldsTo_constants hleft hright hd hd' (hsafe.2.2 d d' hd hd')
  | case3 e hliteral hbinary =>
    cases e with
    | literal kind value => exact absurd rfl (hliteral kind value)
    | binaryExpr left op right => exact absurd rfl (hbinary left op right)
    | _ => exact ⟨_, rfl, fun _ _ => rfl, nofun, fun _ => nofun⟩

/-! ### The parts of an expression -/

/-- The expressions that folding goes through. -/
def foldedParts : Expr → List Expr
  | .binaryExpr left op right =>
    .binaryExpr left op right :: (foldedParts left ++ foldedParts right)
  | e => [e]

/-- Folding keeps the value of the expression, on all rows. -/
def Faithful (e : Expr) : Prop :=
  ∃ e', foldExpr e = some e' ∧ ∀ row columns, evalExpr e' row columns = evalExpr e row columns

theorem foldSafe_of_faithful {e : Expr} (hsmall : SmallLiterals e)
    (h : ∀ part ∈ foldedParts e, Faithful part) : FoldSafe e := by
  induction e using SmallLiterals.induct with
  | case1 kind value => trivial
  | case2 left op right ihl ihr =>
    rw [foldedParts, List.forall_mem_cons, List.forall_mem_append] at h
    obtain ⟨⟨e', hfold, hsame⟩, hl, hr⟩ := h
    have hsafel := ihl hsmall.1 hl
    have hsafer := ihr hsmall.2 hr
    refine ⟨hsafel, hsafer, fun d d' hd hd' => ?_⟩
    obtain ⟨left', hleft⟩ := exists_foldsTo hsmall.1 hsafel
    obtain ⟨right', hright⟩ := exists_foldsTo hsmall.2 hsafer
    obtain ⟨kind, value, rfl, hdenotes⟩ := hleft.literal d hd
    obtain ⟨kind', value', rfl, hdenotes'⟩ := hright.literal d' hd'
    rw [foldExpr_literals hleft.folds hright.folds] at hfold
    refine nodeSafe_of_evalConstantBinary hdenotes hdenotes' hfold ((hsame [] []).trans ?_)
    rw [evalExpr, ← hleft.same, ← hright.same, evalExpr, evalExpr, hdenotes.evalLiteral,
      hdenotes'.evalLiteral]
    rfl
  | case3 e hliteral hbinary =>
    cases e with
    | binaryExpr left op right => exact absurd rfl (hbinary left op right)
    | _ => trivial

theorem faithful_of_foldSafe {e : Expr} (hsmall : SmallLiterals e) (hsafe : FoldSafe e) :
    Faithful e := by
  obtain ⟨e', he⟩ := exists_foldsTo hsmall hsafe
  exact ⟨e', he.folds, he.same⟩

theorem faithful_parts {e : Expr} (hsmall : SmallLiterals e) (hsafe : FoldSafe e) :
    ∀ part ∈ foldedParts e, Faithful part := by
  induction e using foldedParts.induct with
  | case1 left op right ihl ihr =>
    rw [foldedParts, List.forall_mem_cons, List.forall_mem_append]
    exact ⟨faithful_of_foldSafe hsmall hsafe, ihl hsmall.1 hsafe.1, ihr hsmall.2 hsafe.2.1⟩
  | case2 e hbinary =>
    rw [foldedParts.eq_2 e hbinary, List.forall_mem_singleton]
    exact faithful_of_foldSafe hsmall hsafe

/-! ### The result -/

/-- Folding keeps the values of all parts of an expression if and only if it
gets every operator on two constants right. Then a filter keeps the same rows. -/
theorem foldExpr_faithful_iff {e : Expr} (hsmall : SmallLiterals e) :
    ((∀ part ∈ foldedParts e, Faithful part) ↔ FoldSafe e) ∧
      (FoldSafe e → ∃ e', foldExpr e = some e' ∧
        (∀ row columns, evalExpr e' row columns = evalExpr e row columns) ∧
        ∀ (input : Cursor) columns, input.filter e' columns = input.filter e columns) := by
  refine ⟨⟨foldSafe_of_faithful hsmall, faithful_parts hsmall⟩, fun hsafe => ?_⟩
  obtain ⟨e', hfold, hsame⟩ := faithful_of_foldSafe hsmall hsafe
  refine ⟨e', hfold, hsame, fun input columns => ?_⟩
  have hkeep : keepRow e' columns = keepRow e columns := by
    funext row
    rw [keepRow, keepRow, holds, holds, hsame]
  rw [Cursor.filter, Cursor.filter, hkeep]

/-- Arithmetic below `2 ^ 53` comes out right. -/
theorem exact_of_small (hi : i.toInt.natAbs < 2 ^ 53) (hj : j.toInt.natAbs < 2 ^ 53)
    (hop : isArithmetic op)
    (hadd : op = .add → (i.toInt + j.toInt).natAbs ≤ 2 ^ 53)
    (hsub : op = .sub → (i.toInt - j.toInt).natAbs ≤ 2 ^ 53)
    (hmul : op = .mul → (i.toInt * j.toInt).natAbs ≤ 2 ^ 53) : Exact op i j := by
  have hkept : ∀ n : Int, n.natAbs ≤ 2 ^ 53 → Kept n := fun n hn =>
    (Float64.isInt_ofInt hn).toInt64_of_range (by omega) (by omega)
  cases op with
  | add => exact hkept _ (hadd rfl)
  | sub => exact hkept _ (hsub rfl)
  | mul => exact hkept _ (hmul rfl)
  | div =>
    intro hzero
    have hzero : j.toInt ≠ 0 := by rwa [Ne, ← Int64.toInt_zero, Int64.toInt_inj]
    rw [(Float64.isInt_ofInt hi.le).toInt64_div (Float64.isInt_ofInt hj.le) hi hj hzero,
      Int64.ofInt_tdiv i.minValue_le_toInt i.toInt_le j.minValue_le_toInt j.toInt_le,
      Int64.ofInt_toInt, Int64.ofInt_toInt]
  | mod =>
    intro hzero
    refine hkept _ ?_
    rw [Int.natAbs_tmod]
    exact (Nat.mod_le _ _).trans hi.le
  | _ => cases hop

/-- `a = 6 * 7 - 5` becomes `a = 37`. -/
theorem foldExpr_faithful_arithmetic :
    ∃ e', foldExpr (.binaryExpr (.columnRef [] (ascii "a")) .eq
        (.binaryExpr (.binaryExpr (integer "6") .mul (integer "7")) .sub (integer "5"))) = some e' ∧
      ∀ (input : Cursor) columns, input.filter e' columns =
        input.filter (.binaryExpr (.columnRef [] (ascii "a")) .eq
          (.binaryExpr (.binaryExpr (integer "6") .mul (integer "7")) .sub
            (integer "5"))) columns := by
  have hliteral : ∀ digits ∈ ["5", "6", "7"], IsSmall .integer (ascii digits) := by
    simp only [List.forall_mem_cons]
    refine ⟨?_, ?_, ?_, nofun⟩ <;> exact ⟨by decide, by decide, by decide⟩
  have hsmall : SmallLiterals (.binaryExpr (.columnRef [] (ascii "a")) .eq
      (.binaryExpr (.binaryExpr (integer "6") .mul (integer "7")) .sub (integer "5"))) :=
    ⟨trivial, ⟨hliteral "6" (by decide), hliteral "7" (by decide)⟩, hliteral "5" (by decide)⟩
  have hmul : Exact .mul 6 7 :=
    exact_of_small (by decide) (by decide) rfl nofun nofun fun _ => by decide
  have hsub : Exact .sub 42 5 :=
    exact_of_small (by decide) (by decide) rfl nofun (fun _ => by decide) nofun
  obtain ⟨e', hfold, -, hfilter⟩ := (foldExpr_faithful_iff hsmall).2 (by
    refine ⟨trivial, ⟨⟨trivial, trivial, ?_⟩, trivial, ?_⟩, nofun⟩
    · rintro _ _ ⟨⟩ ⟨⟩
      exact hmul
    · rintro _ _ ⟨⟩ ⟨⟩
      exact hsub)
  exact ⟨e', hfold, hfilter⟩

/-- `WHERE 1 = 1` keeps a row; folded, it is `WHERE 1` and keeps none. -/
theorem foldExpr_comparison_drops_rows :
    foldExpr (.binaryExpr (integer "1") .eq (integer "1")) = some (integer "1") ∧
      evalExpr (.binaryExpr (integer "1") .eq (integer "1")) [] [] = .ok (.bool true) ∧
      evalExpr (integer "1") [] [] = .ok (.int 1) ∧
      (Cursor.filter (.ok (.ofList [[]])) (.binaryExpr (integer "1") .eq (integer "1")) []).rows =
        .ok [[]] ∧
      (Cursor.filter (.ok (.ofList [[]])) (integer "1") []).rows = .ok [] :=
  ⟨rfl, rfl, rfl, rfl, rfl⟩

theorem foldNumbers_shape {left right : Float64} {bothInt : Bool} {unfolded e : Expr}
    (h : foldNumbers op left right bothInt unfolded = some e) :
    (∃ k v, e = .literal k v) ∨ e = unfolded := by
  have hnumber (x : Float64) : ∃ k v, numericLiteral x bothInt = .literal k v := by
    cases bothInt <;> exact ⟨_, _, rfl⟩
  cases op with
  | add | sub | mul =>
    cases h
    exact .inl (hnumber _)
  | div =>
    rw [foldNumbers] at h
    split_ifs at h <;> cases h
    · exact .inr rfl
    · exact .inl (hnumber _)
  | mod =>
    rw [foldNumbers] at h
    split_ifs at h <;> cases h
    · exact .inr rfl
    · exact .inl (hnumber _)
  | eq | ne | lt | gt | le | ge =>
    cases h
    exact .inl ⟨_, _, rfl⟩
  | _ =>
    cases h
    exact .inr rfl

/-- Two literals become one, or stay. -/
theorem evalConstantBinary_shape {e : Expr}
    (h : evalConstantBinary kind value op kind' value' = some e) :
    (∃ k v, e = .literal k v) ∨
      e = .binaryExpr (.literal kind value) op (.literal kind' value') := by
  unfold evalConstantBinary at h
  dsimp only at h
  split at h
  · -- a NULL
    cases h
    exact .inl ⟨_, _, rfl⟩
  split at h
  · -- AND and OR
    split at h <;> cases h
    · exact .inl ⟨_, _, rfl⟩
    · exact .inr rfl
  split at h
  · -- two numbers
    split at h
    · exact foldNumbers_shape h
    · cases h
      exact .inr rfl
  split at h
  · -- two strings
    cases op <;> cases h <;> first | exact .inr rfl | exact .inl ⟨_, _, rfl⟩
  · cases h
    exact .inr rfl

/-- Folding leaves nothing to fold. -/
theorem foldExpr_again (e : Expr) : (foldExpr e >>= foldExpr) = foldExpr e := by
  induction e using foldExpr.induct with
  | case1 left op right ihl ihr =>
    rw [foldExpr]
    rcases hl : foldExpr left with _ | l
    · rfl
    rcases hr : foldExpr right with _ | r
    · rfl
    rw [hl] at ihl
    rw [hr] at ihr
    cases l with
    | literal k v =>
      cases r with
      | literal k' v' =>
        show (evalConstantBinary k v op k' v' >>= foldExpr) = _
        cases he : evalConstantBinary k v op k' v' with
        | none => exact he.symm
        | some e' =>
          obtain ⟨kind, value, rfl⟩ | rfl := evalConstantBinary_shape he
          · exact he.symm
          · exact he.trans he.symm
      | _ => exact foldExpr_binary ihl ihr (.inr (by simp))
    | _ => exact foldExpr_binary ihl ihr (.inl (by simp))
  | case2 e hbinary =>
    cases e with
    | binaryExpr left op right => exact absurd rfl (hbinary left op right)
    | _ => rfl

end MySQLight.Planner
