import MySQLight.Executor.Row
import MySQLight.Parser.Ast

/-!
The value of an expression (`executor/filter.go`, `executor/insert.go`,
`executor/project.go`).

A value of the evaluator is NULL, a number, a text, a byte string or a
truth value. Numbers are compared as floating-point numbers, everything
else by the text it prints as.
-/

namespace MySQLight.Sql

open MySQLight.Data MySQLight.Schema

/-- The dynamic values of the evaluator. -/
inductive Datum
  | null
  | int (i : Int64)
  | float (x : Float64)
  | text (s : Bytes)
  | blob (b : Bytes)
  | bool (b : Bool)
deriving DecidableEq

inductive EvalErr
  | invalidInteger (text : Bytes)
  | invalidFloat (text : Bytes)
  | columnOutOfRange (index length : Nat)
  | columnNotFound (name : Bytes)
  | notRequiresBool
  | minusRequiresNumber
  | aggregateOutside (name : Bytes)
  | starNotValid
  | andRequiresBool
  | orRequiresBool
  | likeRequiresString
  | divisionByZero
  | requiresNumeric (op : BinaryOp)
  | modRequiresInteger
  | moduloByZero
deriving DecidableEq

/-! ### Texts -/

/-- `strconv.ParseInt` to the base 10. -/
def parseInt (text : Bytes) : Option Int64 :=
  let (neg, ds) := Float64.readSign text
  let n := Float64.digits ds
  if ds = [] ∨ !ds.all Float64.isDigit then none
  else if neg then if n ≤ 2 ^ 63 then some (Int64.ofInt (-n)) else none
  else if n < 2 ^ 63 then some (Int64.ofInt n) else none

/-- The bytes in decimal between square brackets. -/
def printBlob (b : Bytes) : Bytes :=
  ascii "[" ++ (ascii " ").intercalate (b.map fun x => Float64.showNat x.toNat) ++ ascii "]"

/-- `fmt.Sprintf("%v", value)`. -/
def Datum.print : Datum → Bytes
  | .null => ascii "<nil>"
  | .int i => Float64.showInt i.toInt
  | .float x => x.print
  | .text s => s
  | .blob b => printBlob b
  | .bool b => if b then ascii "true" else ascii "false"

/-- `strings.Index`. -/
def indexOf (part : Bytes) : Bytes → Option Nat
  | [] => if part = [] then some 0 else none
  | b :: bs => if part <+: b :: bs then some 0 else (indexOf part bs).map (· + 1)

/-- The middle parts of a pattern, each found behind the one before; what
is left of the text. -/
def likeParts : List Bytes → Bytes → Option Bytes
  | [], remaining => some remaining
  | part :: parts, remaining =>
    match indexOf part remaining with
    | none => none
    | some index => likeParts parts (remaining.drop (index + part.length))

def likeMatch (str pattern : Bytes) : Bool :=
  match pattern.splitOn 37 with
  | [] => false
  | [_] => str = pattern
  | first :: rest =>
    if first <+: str then
      match likeParts rest.dropLast (str.drop first.length) with
      | none => false
      | some remaining => rest.getLast?.any (· <:+ remaining)
    else false

/-! ### Operators -/

def toFloat64 : Datum → Option Float64
  | .int i => some (Float64.ofInt i.toInt)
  | .float x => some x
  | _ => none

/-- The comparisons, on the order of two values. -/
def comparison (op : BinaryOp) (left right : Datum) : Bool :=
  match toFloat64 left, toFloat64 right with
  | some x, some y =>
    match op with
    | .eq => x.eq y
    | .ne => !x.eq y
    | .lt => x.lt y
    | .gt => y.lt x
    | .le => x.le y
    | _ => y.le x
  | _, _ =>
    match op with
    | .eq => left.print = right.print
    | .ne => left.print ≠ right.print
    | .lt => compareBytes left.print right.print = .lt
    | .gt => compareBytes left.print right.print = .gt
    | .le => compareBytes left.print right.print ≠ .gt
    | _ => compareBytes left.print right.print ≠ .lt

/-- The four operations on integers. -/
def intArith (op : BinaryOp) (left right : Int64) : Int64 :=
  match op with
  | .add => left + right
  | .sub => left - right
  | .mul => left * right
  | _ => left / right

/-- The four operations on floating-point numbers. -/
def floatArith (op : BinaryOp) (left right : Float64) : Float64 :=
  match op with
  | .add => left.add right
  | .sub => left.sub right
  | .mul => left.mul right
  | _ => left.div right

def applyArith (op : BinaryOp) (left right : Datum) : Except EvalErr Datum :=
  match toFloat64 left, toFloat64 right with
  | some x, some y =>
    match left, right with
    | .int i, .int j => .ok (.int (intArith op i j))
    | _, _ => .ok (.float (floatArith op x y))
  | _, _ => .error (.requiresNumeric op)

/-- `applyBinaryOp`. What is not a number counts as zero in the check for a
division by zero. -/
def applyBinaryOp (op : BinaryOp) (left right : Datum) : Except EvalErr Datum :=
  if left = .null ∨ right = .null then .ok .null
  else match op with
    | .and =>
      match left, right with
      | .bool a, .bool b => .ok (.bool (a && b))
      | _, _ => .error .andRequiresBool
    | .or =>
      match left, right with
      | .bool a, .bool b => .ok (.bool (a || b))
      | _, _ => .error .orRequiresBool
    | .like =>
      match left, right with
      | .text s, .text p => .ok (.bool (likeMatch s p))
      | _, _ => .error .likeRequiresString
    | .div =>
      if ((toFloat64 right).getD 0).eq 0 then .error .divisionByZero
      else applyArith .div left right
    | .mod =>
      match left, right with
      | .int i, .int j => if j = 0 then .error .moduloByZero else .ok (.int (i % j))
      | _, _ => .error .modRequiresInteger
    | .add => applyArith .add left right
    | .sub => applyArith .sub left right
    | .mul => applyArith .mul left right
    | op => .ok (.bool (comparison op left right))

theorem applyBinaryOp_null {op : BinaryOp} {left right : Datum} (h : left = .null ∨ right = .null) :
    applyBinaryOp op left right = .ok .null := by
  unfold applyBinaryOp
  rw [if_pos h]

def isComparison (op : BinaryOp) : Bool := op ∈ [.eq, .ne, .lt, .gt, .le, .ge]

theorem applyBinaryOp_of_isComparison {op : BinaryOp} (hop : isComparison op)
    (left right : Datum) : applyBinaryOp op left right =
      .ok (if left = .null ∨ right = .null then .null else .bool (comparison op left right)) := by
  unfold applyBinaryOp
  cases op with
  | eq | ne | lt | gt | le | ge => split_ifs <;> rfl
  | _ => cases hop

def applyUnaryOp (op : UnaryOp) (operand : Datum) : Except EvalErr Datum :=
  match op with
  | .not =>
    match operand with
    | .bool b => .ok (.bool !b)
    | _ => .error .notRequiresBool
  | .neg =>
    match operand with
    | .int i => .ok (.int (-i))
    | .float x => .ok (.float x.neg)
    | _ => .error .minusRequiresNumber

/-! ### Evaluation -/

def evalLiteral (kind : LiteralKind) (value : Bytes) : Except EvalErr Datum :=
  match kind with
  | .integer =>
    match parseInt value with
    | none => .error (.invalidInteger value)
    | some i => .ok (.int i)
  | .float =>
    match Float64.parse value with
    | none => .error (.invalidFloat value)
    | some x => .ok (.float x)
  | .string => .ok (.text value)
  | .null => .ok .null

/-- A cell as a value of its column's type. -/
def cell (v : Value) (type : DataType) : Datum :=
  if v.isNull then .null
  else match type with
    | .typeInt => .int v.intVal
    | .typeFloat => .float v.floatVal
    | .typeText => .text v.textVal
    | .typeBlob => .blob v.blobVal

/-- A reference to a column: the first one of that name counts, whatever
the table. -/
def evalColumn (column : Bytes) (row : Row) (columns : List ColumnDef) : Except EvalErr Datum :=
  match colIndex columns column with
  | none => .error (.columnNotFound column)
  | some index =>
    match row[index]?, columns[index]? with
    | some v, some col => .ok (cell v col.type)
    | _, _ => .error (.columnOutOfRange index row.length)

def evalExpr (expr : Expr) (row : Row) (columns : List ColumnDef) : Except EvalErr Datum :=
  match expr with
  | .literal kind value => evalLiteral kind value
  | .columnRef _ column => evalColumn column row columns
  | .binaryExpr left op right => do
      let left ← evalExpr left row columns
      let right ← evalExpr right row columns
      applyBinaryOp op left right
  | .unaryExpr op operand => do applyUnaryOp op (← evalExpr operand row columns)
  | .funcCall name _ _ => .error (.aggregateOutside name)
  | .starExpr => .error .starNotValid

/-- `toValue`. -/
def toValue : Datum → Value
  | .int i => { intVal := i }
  | .float x => { floatVal := x }
  | .text s => { textVal := s }
  | .blob b => { blobVal := b }
  | _ => .null

inductive StoreErr
  | eval (e : EvalErr)
  | cannotStore (d : Datum) (type : DataType)
deriving DecidableEq

/-- `evalExprToValue`: a constant expression for a column of a type. -/
def evalExprToValue (expr : Expr) (type : DataType) : Except StoreErr Value :=
  match evalExpr expr [] [] with
  | .error e => .error (.eval e)
  | .ok .null => .ok .null
  | .ok d =>
    match type, d with
    | .typeInt, .int i => .ok { intVal := i }
    | .typeInt, .float x => .ok { intVal := x.toInt64 }
    | .typeFloat, .float x => .ok { floatVal := x }
    | .typeFloat, .int i => .ok { floatVal := Float64.ofInt i.toInt }
    | .typeText, .text s => .ok { textVal := s }
    | .typeBlob, .blob b => .ok { blobVal := b }
    | type, d => .error (.cannotStore d type)

end MySQLight.Sql
