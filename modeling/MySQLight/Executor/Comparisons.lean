import MySQLight.Data.FloatInt
import MySQLight.Executor.Select

/-!
Comparisons (`executor/filter.go`, `executor/project.go`).

Integers are compared as floating-point numbers. Rounding keeps their order
but may make different integers equal, which the check of a foreign key
tells apart.

A comparison with NULL is NULL. `AND` and `OR` with NULL are NULL too,
whatever the other side is, and `NOT` fails on NULL; in the three-valued
logic of SQL, NULL is a truth value like the others.
-/

namespace MySQLight.Sql

open MySQLight.Data MySQLight.Schema

/-- Whether a comparison holds for two values in that order; there is none
between a number and something that is not a number. -/
def ordered (op : BinaryOp) : Option Ordering → Bool
  | none => op = .ne
  | some o =>
    match op with
    | .eq => o = .eq
    | .ne => o ≠ .eq
    | .lt => o = .lt
    | .gt => o = .gt
    | .le => o ≠ .gt
    | _ => o ≠ .lt

/-! ### Integers -/

section Integers

variable {op : BinaryOp} {a b : Int64}

/-- Integers are compared by the rank of the nearest numbers. -/
theorem comparison_int (hop : isComparison op) (a b : Int64) :
    comparison op (.int a) (.int b) =
      ordered op (some (compare (Float64.ofInt a.toInt).rank (Float64.ofInt b.toInt).rank)) := by
  have ha : (Float64.ofInt a.toInt).isNaN = false := Float64.isNaN_round ..
  have hb : (Float64.ofInt b.toInt).isNaN = false := Float64.isNaN_round ..
  simp only [comparison, toFloat64, ordered, Float64.eq, Float64.lt, Float64.le, ha, hb,
    Bool.not_false, Bool.true_and]
  cases op with
  | eq => simp only [compare_eq_iff_eq]
  | ne => simp only [ne_eq, compare_eq_iff_eq, decide_not]
  | lt => simp only [compare_lt_iff_lt]
  | gt => simp only [compare_gt_iff_gt]
  | le => simp only [ne_eq, compare_gt_iff_gt, not_lt]
  | ge => simp only [ne_eq, compare_lt_iff_lt, not_lt]
  | _ => cases hop

/-- Rounding loses the order of two integers exactly if it makes them equal. -/
theorem compare_rank_iff :
    compare (Float64.ofInt a.toInt).rank (Float64.ofInt b.toInt).rank =
      compare a.toInt b.toInt ↔ a = b ∨ Float64.ofInt a.toInt ≠ Float64.ofInt b.toInt := by
  rw [ne_eq, Float64.ofInt_eq_iff_rank, ← Int64.toInt_inj]
  obtain h | h | h := lt_trichotomy a.toInt b.toInt
  · have hle := Float64.rank_ofInt_mono h.le
    rw [compare_lt_iff_lt.mpr h, compare_lt_iff_lt]
    omega
  · rw [h, compare_eq_iff_eq.mpr rfl, compare_eq_iff_eq.mpr rfl]
    simp
  · have hle := Float64.rank_ofInt_mono h.le
    rw [compare_gt_iff_gt.mpr h, compare_gt_iff_gt]
    omega

/-- Integers are compared exactly, as the check of a foreign key does it,
unless they differ and the nearest floating-point numbers do not. -/
theorem int_comparisons_exact_iff (a b : Int64) :
    ((∀ (op : BinaryOp) (left right : Expr) (row : Row) (columns : List ColumnDef),
        isComparison op → evalExpr left row columns = .ok (.int a) →
        evalExpr right row columns = .ok (.int b) →
        evalExpr (.binaryExpr left op right) row columns =
          .ok (.bool (ordered op (some (compare a.toInt b.toInt))))) ∧
      compareValues (.int a) (.int b) = compare a.toInt b.toInt ∧
      ∀ (v w : Value) (left right : Expr) (row : Row) (columns : List ColumnDef),
        cell v .typeInt = .int a → cell w .typeInt = .int b →
        evalExpr left row columns = .ok (cell v .typeInt) →
        evalExpr right row columns = .ok (cell w .typeInt) →
        holds (.binaryExpr left .eq right) columns row = .ok (valuesEqual v w .typeInt)) ↔
      (a = b ∨ Float64.ofInt a.toInt ≠ Float64.ofInt b.toInt) := by
  have hvalues : compareValues (.int a) (.int b) =
      compare (Float64.ofInt a.toInt).rank (Float64.ofInt b.toInt).rank :=
    Float64.compare_ofInt a.toInt b.toInt
  rw [← compare_rank_iff, hvalues]
  refine ⟨fun h => h.2.1, fun h => ?_⟩
  have hexact {op : BinaryOp} {left right : Expr} {row : Row} {columns : List ColumnDef}
      (hop : isComparison op) (hleft : evalExpr left row columns = .ok (.int a))
      (hright : evalExpr right row columns = .ok (.int b)) :
      evalExpr (.binaryExpr left op right) row columns =
        .ok (.bool (ordered op (some (compare a.toInt b.toInt)))) := by
    rw [evalExpr, hleft, hright, ← h, ← comparison_int hop]
    exact applyBinaryOp_of_isComparison hop (.int a) (.int b)
  refine ⟨fun op left right row columns => hexact, h, ?_⟩
  intro v w left right row columns hv hw hleft hright
  rw [hv] at hleft
  rw [hw] at hright
  have hint {v : Value} {i : Int64} (hv : cell v .typeInt = .int i) :
      v.isNull = false ∧ v.intVal = i := by
    rw [cell] at hv
    split_ifs at hv with hnull
    cases hv
    exact ⟨by simpa using hnull, rfl⟩
  obtain ⟨hvnull, rfl⟩ := hint hv
  obtain ⟨hwnull, rfl⟩ := hint hw
  rw [holds, hexact rfl hleft hright, valuesEqual, hvnull, hwnull]
  simp [ordered, Int64.toInt_inj]

/-- `WHERE` takes two integers for equal that a foreign key tells apart. -/
theorem integers_beyond_two_pow_53_confused :
    evalExpr (.binaryExpr (.literal .integer (ascii "9007199254740992")) .eq
      (.literal .integer (ascii "9007199254740993"))) [] [] = .ok (.bool true) ∧
      valuesEqual { intVal := 9007199254740992 } { intVal := 9007199254740993 } .typeInt =
        false := by
  decide +kernel

end Integers

/-! ### Values of one type -/

section Typed

variable {op : BinaryOp} {type : DataType} {a b : Datum}

/-- The order of two values of the same type. -/
def typedOrder : Datum → Datum → Option Ordering
  | .int a, .int b => some (compare a.toInt b.toInt)
  | .float x, .float y =>
    if x.lt y then some .lt else if y.lt x then some .gt else if x.eq y then some .eq else none
  | .text s, .text t => some (compareBytes s t)
  | .blob s, .blob t => some (compareBytes s t)
  | _, _ => none

def exactComparison (op : BinaryOp) (left right : Datum) : Bool :=
  ordered op (typedOrder left right)

def HasType : Datum → DataType → Prop
  | .null, _ => True
  | .int _, type => type = .typeInt
  | .float _, type => type = .typeFloat
  | .text _, type => type = .typeText
  | .blob _, type => type = .typeBlob
  | .bool _, _ => False

/-- The operator tells two integers apart whose nearest floating-point
numbers are equal, or the order of two BLOBs from that of their printed
texts. -/
def confused (op : BinaryOp) : Datum → Datum → Bool
  | .int a, .int b =>
    Float64.ofInt a.toInt = Float64.ofInt b.toInt &&
      ordered op (some (compare a.toInt b.toInt)) != ordered op (some .eq)
  | .blob s, .blob t =>
    ordered op (some (compareBytes s t)) !=
      ordered op (some (compareBytes (printBlob s) (printBlob t)))
  | _, _ => false

theorem comparison_printed (ha : toFloat64 a = none) :
    comparison op a b = ordered op (some (compareBytes a.print b.print)) := by
  simp only [comparison, ha]
  cases op with
  | eq => simp only [ordered, compareBytes_eq_eq]
  | ne => simp only [ordered, ne_eq, compareBytes_eq_eq]
  | _ => rfl

theorem typedOrder_float (x y : Float64) :
    typedOrder (.float x) (.float y) =
      if x.isNaN || y.isNaN then none else some (compare x.rank y.rank) := by
  rw [typedOrder, Float64.lt, Float64.lt, Float64.eq]
  by_cases hnan : x.isNaN || y.isNaN
  · rw [if_pos hnan]
    obtain h | h := by simpa using hnan
    all_goals simp [h]
  · obtain ⟨hx, hy⟩ : x.isNaN = false ∧ y.isNaN = false := by simpa using hnan
    rw [if_neg hnan]
    obtain h | h | h := lt_trichotomy x.rank y.rank
    · simp [hx, hy, h, compare_lt_iff_lt.mpr h]
    · simp [hx, hy, h]
    · simp [hx, hy, h, h.not_gt, compare_gt_iff_gt.mpr h]

theorem comparison_float (op : BinaryOp) (x y : Float64) :
    comparison op (.float x) (.float y) = exactComparison op (.float x) (.float y) := by
  rw [exactComparison, typedOrder_float]
  simp only [comparison, toFloat64, Float64.eq, Float64.lt, Float64.le]
  obtain hx | hx := Bool.eq_false_or_eq_true x.isNaN
  · cases op <;> simp [hx, ordered]
  obtain hy | hy := Bool.eq_false_or_eq_true y.isNaN
  · cases op <;> simp [hy, ordered]
  cases op <;> simp [hx, hy, ordered, compare_lt_iff_lt, compare_gt_iff_gt]

/-- The form of a value of a type. -/
theorem exists_of_hasType {d : Datum} (hne : d ≠ .null) (h : HasType d type) :
    match type with
    | .typeInt => ∃ i, d = .int i
    | .typeFloat => ∃ x, d = .float x
    | .typeText => ∃ s, d = .text s
    | .typeBlob => ∃ s, d = .blob s := by
  cases d with
  | null => exact absurd rfl hne
  | bool => cases h
  | _ => obtain rfl := h; exact ⟨_, rfl⟩

/-- The evaluator compares two values of a type wrongly just if it confuses
them. -/
theorem comparison_eq (hop : isComparison op) (ha : HasType a type) (hb : HasType b type)
    (hane : a ≠ .null) (hbne : b ≠ .null) :
    comparison op a b = (exactComparison op a b ^^ confused op a b) := by
  have ha := exists_of_hasType hane ha
  have hb := exists_of_hasType hbne hb
  cases type <;> obtain ⟨a, rfl⟩ := ha <;> obtain ⟨b, rfl⟩ := hb
  case typeInt =>
    rw [comparison_int hop, exactComparison, typedOrder, confused]
    by_cases h : Float64.ofInt a.toInt = Float64.ofInt b.toInt
    · rw [compare_eq_iff_eq.mpr (Float64.ofInt_eq_iff_rank.mp h)]
      cases ordered op (some (compare a.toInt b.toInt)) <;> simp [h]
    · rw [compare_rank_iff.mpr (.inr h)]
      simp [h]
  case typeFloat => simp [comparison_float, confused]
  case typeText =>
    rw [comparison_printed (by rfl)]
    simp [exactComparison, typedOrder, confused, Datum.print]
  case typeBlob =>
    rw [comparison_printed (by rfl), exactComparison, typedOrder, confused, Datum.print,
      Datum.print]
    cases ordered op (some (compareBytes a b)) <;> simp

end Typed

/-! ### Three-valued logic -/

section Logic

variable (columns : List ColumnDef) (row : Row)

/-- A column or a literal of a type. -/
inductive Operand (type : DataType) : Expr → Prop
  | column (table name : Bytes) (i : Nat) (c : ColumnDef)
      (index_eq : colIndex columns name = some i) (column_eq : columns[i]? = some c)
      (type_eq : c.type = type) : Operand type (.columnRef table name)
  | literal (kind : LiteralKind) (value : Bytes) (d : Datum)
      (eval_eq : evalLiteral kind value = .ok d) (hasType : HasType d type) :
      Operand type (.literal kind value)

/-- Comparisons of columns and literals with `AND`, `OR` and `NOT`. -/
inductive Condition : Expr → Prop
  | comparison (op : BinaryOp) (left right : Expr) (type : DataType)
      (isComparison : isComparison op) (operandLeft : Operand columns type left)
      (operandRight : Operand columns type right) :
      Condition (.binaryExpr left op right)
  | and (left right : Expr) (conditionLeft : Condition left) (conditionRight : Condition right) :
      Condition (.binaryExpr left .and right)
  | or (left right : Expr) (conditionLeft : Condition left) (conditionRight : Condition right) :
      Condition (.binaryExpr left .or right)
  | not (operand : Expr) (condition : Condition operand) : Condition (.unaryExpr .not operand)

/-- The truth value of a condition, `none` for NULL. -/
def truth : Expr → Option Bool
  | .binaryExpr left .and right =>
    match truth left, truth right with
    | some false, _ | _, some false => some false
    | some true, some true => some true
    | _, _ => none
  | .binaryExpr left .or right =>
    match truth left, truth right with
    | some true, _ | _, some true => some true
    | some false, some false => some false
    | _, _ => none
  | .unaryExpr .not operand => (truth operand).map not
  | .binaryExpr left op right =>
    match evalExpr left row columns, evalExpr right row columns with
    | .ok .null, _ | _, .ok .null => none
    | .ok a, .ok b => some (exactComparison op a b)
    | _, _ => none
  | _ => none

/-- A comparison in the condition is NULL. -/
def hasNull : Expr → Bool
  | .binaryExpr left .and right | .binaryExpr left .or right => hasNull left || hasNull right
  | .unaryExpr _ operand => hasNull operand
  | .binaryExpr left _ right =>
    evalExpr left row columns = .ok .null || evalExpr right row columns = .ok .null
  | _ => false

/-- A `NOT` stands over a comparison that is NULL. -/
def negatesNull : Expr → Bool
  | .binaryExpr left .and right | .binaryExpr left .or right =>
    negatesNull left || negatesNull right
  | .unaryExpr _ operand => hasNull columns row operand
  | _ => false

/-- Confused values decide the condition. The other side of an `AND` may
hide that: with a true and a false side the false one decides, and it does
so alone. -/
def swayed : Expr → Bool
  | .binaryExpr left .and right =>
    match truth columns row left, truth columns row right with
    | some true, some true => swayed left || swayed right
    | some true, _ => !swayed left && swayed right
    | _, some true => swayed left && !swayed right
    | _, _ => swayed left && swayed right
  | .binaryExpr left .or right =>
    match truth columns row left, truth columns row right with
    | some false, some false => swayed left || swayed right
    | some false, _ => !swayed left && swayed right
    | _, some false => swayed left && !swayed right
    | _, _ => swayed left && swayed right
  | .unaryExpr _ operand => swayed operand
  | .binaryExpr left op right =>
    match evalExpr left row columns, evalExpr right row columns with
    | .ok a, .ok b => confused op a b
    | _, _ => false
  | _ => false

variable {columns row}

theorem hasType_cell (v : Value) (type : DataType) : HasType (cell v type) type := by
  cases hnull : v.isNull <;> cases type <;> simp [cell, hnull, HasType]

theorem Operand.evalExpr {type : DataType} {e : Expr} (h : Operand columns type e)
    (hrow : row.length = columns.length) :
    ∃ d, evalExpr e row columns = .ok d ∧ HasType d type := by
  cases h with
  | column table name i c hi hc htype =>
    have hlt : i < row.length := hrow ▸ (List.getElem?_eq_some_iff.mp hc).1
    obtain rfl := htype
    refine ⟨cell row[i] c.type, ?_, hasType_cell ..⟩
    rw [Sql.evalExpr, evalColumn, hi]
    simp [hc, List.getElem?_eq_getElem hlt]
  | literal kind value d hd htype => exact ⟨d, hd, htype⟩

/-- How a condition is evaluated: it fails, it is NULL, or it has its truth
value, unless confused values decide it. -/
inductive Evaluated (columns : List ColumnDef) (row : Row) (e : Expr) : Prop
  | failed (err : EvalErr) (negatesNull : negatesNull columns row e = true)
      (hasNull : hasNull columns row e = true) (eval_eq : evalExpr e row columns = .error err)
  | null (negatesNull : negatesNull columns row e = false) (hasNull : hasNull columns row e = true)
      (eval_eq : evalExpr e row columns = .ok .null)
  | value (b : Bool) (negatesNull : negatesNull columns row e = false)
      (hasNull : hasNull columns row e = false) (truth_eq : truth columns row e = some b)
      (eval_eq : evalExpr e row columns = .ok (.bool (b ^^ swayed columns row e)))

theorem evalExpr_binary {left right : Expr} {op : BinaryOp} {a b : Datum}
    (hleft : evalExpr left row columns = .ok a) (hright : evalExpr right row columns = .ok b) :
    evalExpr (.binaryExpr left op right) row columns = applyBinaryOp op a b := by
  rw [evalExpr, hleft, hright]
  rfl

/-- `AND` and `OR` need both sides. -/
theorem Evaluated.connective {left right : Expr} {op : BinaryOp} (f : Bool → Bool → Bool)
    (hl : Evaluated columns row left) (hr : Evaluated columns row right)
    (hnegates : negatesNull columns row (.binaryExpr left op right) =
      (negatesNull columns row left || negatesNull columns row right))
    (hnull : hasNull columns row (.binaryExpr left op right) =
      (hasNull columns row left || hasNull columns row right))
    (happly : ∀ a b, applyBinaryOp op (.bool a) (.bool b) = .ok (.bool (f a b)))
    (htruth : ∀ a b, truth columns row left = some a → truth columns row right = some b →
      truth columns row (.binaryExpr left op right) = some (f a b) ∧
        f (a ^^ swayed columns row left) (b ^^ swayed columns row right) =
          (f a b ^^ swayed columns row (.binaryExpr left op right))) :
    Evaluated columns row (.binaryExpr left op right) := by
  cases hl with
  | failed err hneg hhas heval =>
    refine .failed err (by rw [hnegates, hneg]; rfl) (by rw [hnull, hhas]; rfl) ?_
    rw [evalExpr, heval]
    rfl
  | null hneg hhas heval =>
    cases hr with
    | failed err hneg' hhas' heval' =>
      refine .failed err (by simp [hnegates, hneg']) (by simp [hnull, hhas']) ?_
      rw [evalExpr, heval, heval']
      rfl
    | null hneg' hhas' heval' | value b hneg' hhas' _ heval' =>
      refine .null (by simp [hnegates, hneg, hneg']) (by simp [hnull, hhas]) ?_
      rw [evalExpr_binary heval heval', applyBinaryOp_null (Or.inl rfl)]
  | value a hneg hhas ha heval =>
    cases hr with
    | failed err hneg' hhas' heval' =>
      refine .failed err (by simp [hnegates, hneg']) (by simp [hnull, hhas']) ?_
      rw [evalExpr, heval, heval']
      rfl
    | null hneg' hhas' heval' =>
      refine .null (by simp [hnegates, hneg, hneg']) (by simp [hnull, hhas']) ?_
      rw [evalExpr_binary heval heval', applyBinaryOp_null (Or.inr rfl)]
    | value b hneg' hhas' hb heval' =>
      obtain ⟨htruth, hf⟩ := htruth a b ha hb
      refine .value (f a b) (by simp [hnegates, hneg, hneg']) (by simp [hnull, hhas, hhas'])
        htruth ?_
      rw [evalExpr_binary heval heval', happly, hf]

theorem Condition.evaluated {e : Expr} (h : Condition columns e)
    (hrow : row.length = columns.length) : Evaluated columns row e := by
  induction h with
  | comparison op left right type hop hleft hright =>
    obtain ⟨a, ha, hatype⟩ := hleft.evalExpr hrow
    obtain ⟨b, hb, hbtype⟩ := hright.evalExpr hrow
    have hneg : negatesNull columns row (.binaryExpr left op right) = false := by
      cases op <;> first | rfl | cases hop
    have hnull : hasNull columns row (.binaryExpr left op right) =
        (decide (a = .null) || decide (b = .null)) := by
      cases op <;> first | (simp [hasNull, ha, hb]; done) | cases hop
    by_cases hab : a = .null ∨ b = .null
    · refine .null hneg (by simpa [hnull] using hab) ?_
      rw [evalExpr_binary ha hb, applyBinaryOp_null hab]
    · obtain ⟨hane, hbne⟩ := not_or.mp hab
      have hswayed : swayed columns row (.binaryExpr left op right) = confused op a b := by
        cases op <;> first | (simp [swayed, ha, hb]; done) | cases hop
      refine .value (exactComparison op a b) hneg (by simp [hnull, hane, hbne]) ?_ ?_
      · cases op <;> first | (simp [truth, ha, hb]; done) | cases hop
      · rw [evalExpr_binary ha hb, applyBinaryOp_of_isComparison hop, if_neg hab, hswayed,
          comparison_eq hop hatype hbtype hane hbne]
  | and left right _ _ ihl ihr =>
    refine ihl.connective (· && ·) ihr rfl rfl (fun _ _ => rfl) fun a b ha hb => ?_
    rw [truth, swayed, ha, hb]
    cases a <;> cases b <;> cases swayed columns row left <;> cases swayed columns row right <;>
      exact ⟨rfl, rfl⟩
  | or left right _ _ ihl ihr =>
    refine ihl.connective (· || ·) ihr rfl rfl (fun _ _ => rfl) fun a b ha hb => ?_
    rw [truth, swayed, ha, hb]
    cases a <;> cases b <;> cases swayed columns row left <;> cases swayed columns row right <;>
      exact ⟨rfl, rfl⟩
  | not operand _ ih =>
    cases ih with
    | failed err _ hhas heval =>
      refine .failed err hhas hhas ?_
      rw [evalExpr, heval]
      rfl
    | null _ hhas heval =>
      refine .failed .notRequiresBool hhas hhas ?_
      rw [evalExpr, heval]
      rfl
    | value b _ hhas htruth heval =>
      refine .value (!b) hhas hhas ?_ ?_
      · rw [truth, htruth]
        rfl
      · rw [evalExpr, heval, swayed, Bool.not_xor]
        rfl

/-- `WHERE` keeps a row exactly if the condition is true in three-valued
logic, unless `NOT` meets NULL, the condition is true in spite of a NULL,
or it has no NULL and confused values decide it. -/
theorem holds_eq_truth_iff {e : Expr} (h : Condition columns e)
    (hrow : row.length = columns.length) :
    holds e columns row = .ok (truth columns row e = some true) ↔
      negatesNull columns row e = false ∧
        (hasNull columns row e = true → truth columns row e ≠ some true) ∧
        (hasNull columns row e = false → swayed columns row e = false) := by
  rw [holds]
  cases h.evaluated hrow with
  | failed err hneg _ heval => simp [heval, hneg]
  | null hneg hhas heval => simp [heval, hneg, hhas]
  | value b hneg hhas htruth heval =>
    cases b <;> cases hswayed : swayed columns row e <;>
      simp [heval, hneg, hhas, htruth, hswayed]

def nullableInt (name : String) : ColumnDef := { name := ascii name, type := .typeInt }

/-- `name op n`. -/
def compares (name : String) (op : BinaryOp) (n : String) : Expr :=
  .binaryExpr (.columnRef [] (ascii name)) op (.literal .integer (ascii n))

/-- `(a = 9007199254740992 OR b > 1) AND NOT b = 2`. -/
def mixedCondition : Expr :=
  .binaryExpr (.binaryExpr (compares "a" .eq "9007199254740992") .or (compares "b" .gt "1")) .and
    (.unaryExpr .not (compares "b" .eq "2"))

/-- With `a` NULL and `b` one the condition is NULL. With `b` three it is
true, and that `a` is taken for its neighbour does not matter. -/
theorem holds_eq_truth_iff_mixedCondition :
    holds mixedCondition [nullableInt "a", nullableInt "b"] [.null, { intVal := 1 }] =
        .ok (truth [nullableInt "a", nullableInt "b"] [.null, { intVal := 1 }] mixedCondition =
          some true) ∧
      holds mixedCondition [nullableInt "a", nullableInt "b"]
          [{ intVal := 9007199254740993 }, { intVal := 3 }] =
        .ok (truth [nullableInt "a", nullableInt "b"]
          [{ intVal := 9007199254740993 }, { intVal := 3 }] mixedCondition = some true) := by
  have hcompares : ∀ op i, isComparison op → ∀ (name n : String),
      colIndex [nullableInt "a", nullableInt "b"] (ascii name) = some i →
      [nullableInt "a", nullableInt "b"][i]? = some (nullableInt name) →
      (∃ d, evalLiteral .integer (ascii n) = .ok d ∧ HasType d .typeInt) →
      Condition [nullableInt "a", nullableInt "b"] (compares name op n) :=
    fun op i hop name n hi hc ⟨d, hd, htype⟩ =>
      .comparison op _ _ .typeInt hop (.column _ _ i _ hi hc rfl) (.literal _ _ d hd htype)
  have hcondition : Condition [nullableInt "a", nullableInt "b"] mixedCondition :=
    .and _ _
      (.or _ _
        (hcompares .eq 0 rfl "a" _ (by decide) rfl ⟨.int 9007199254740992, by decide, rfl⟩)
        (hcompares .gt 1 rfl "b" _ (by decide) rfl ⟨.int 1, by decide, rfl⟩))
      (.not _ (hcompares .eq 1 rfl "b" _ (by decide) rfl ⟨.int 2, by decide, rfl⟩))
  exact ⟨(holds_eq_truth_iff hcondition rfl).mpr (by decide +kernel),
    (holds_eq_truth_iff hcondition rfl).mpr (by decide +kernel)⟩

/-- With `a` NULL and `b` one, the condition `a = 1 OR b = 1` is true, but
the row is not kept; `NOT a = 1` fails. -/
theorem null_or_true_dropped :
    holds (.binaryExpr (compares "a" .eq "1") .or (compares "b" .eq "1"))
        [nullableInt "a", nullableInt "b"] [.null, { intVal := 1 }] = .ok false ∧
      truth [nullableInt "a", nullableInt "b"] [.null, { intVal := 1 }]
        (.binaryExpr (compares "a" .eq "1") .or (compares "b" .eq "1")) = some true ∧
      holds (.unaryExpr .not (compares "a" .eq "1")) [nullableInt "a"] [.null] =
        .error (.eval .notRequiresBool) := by
  decide +kernel

end Logic

end MySQLight.Sql
