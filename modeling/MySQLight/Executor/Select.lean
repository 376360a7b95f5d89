import Mathlib.Data.List.Sort
import MySQLight.Effect.Stream
import MySQLight.Executor.Statements

/-!
`SELECT` (`executor/scan.go`, `executor/filter.go`, `executor/join.go`,
`executor/project.go`, `executor/aggregate.go`, `executor/executor.go`).

An operator is its `Open`: a procedure that returns what `Next` is going to
deliver. A join opens both sides at once, takes the first row of the left
side, and opens the right side again for every other one; a sort and an
aggregate read their input to the end when they are opened; a limit does
not ask for the rows it does not need.
-/

namespace MySQLight.Sql

open MySQLight.Data MySQLight.Schema MySQLight.Effect MySQLight.Txn

/-- The rows an opened operator delivers. -/
abbrev Rows : Type := Stream DbI ExecErr Row

/-- `Open` of an operator. -/
abbrev Operator : Type := Exec Rows

/-- Read all rows of an opened operator. -/
def drain (rows : Rows) : Exec (List Row) :=
  Proc.ofProg (rows.fold (fun rows row => .ok (rows ++ [row])) [])

/-! ### Scan, filter, join -/

/-- `TableScan`, with the lock of the transaction in progress. -/
def tableScan (table : Bytes) (d : TableDef) : Operator := do
  acquire table .lockShared
  let values : List Bytes ← perform (.scan d)
  return (Stream.ofList values).filterMap fun value =>
    ((decodeRow value d.columns).mapError .row).map some

def filter (input : Operator) (predicate : Expr) (columns : List ColumnDef) : Operator := do
  return (← input).filterMap fun row => do
    return if ← holds predicate columns row then some row else none

/-- A row of the left side with a row of the right side, if the condition
holds for them. -/
def combine (condition : Option Expr) (columns : List ColumnDef) (leftRow rightRow : Row) :
    Except ExecErr (Option Row) :=
  match condition with
  | none => .ok (some (leftRow ++ rightRow))
  | some predicate => do
      return if ← holds predicate columns (leftRow ++ rightRow) then some (leftRow ++ rightRow)
        else none

def nestedLoopJoin (left right : Operator) (condition : Option Expr) (columns : List ColumnDef) :
    Operator := do
  let leftRows ← left
  let rightRows ← right
  let first ← Proc.ofProg leftRows.next
  let session ← get
  match first with
  | none => return .done
  | some (leftRow, rest) =>
    return (rightRows.filterMap (combine condition columns leftRow)).append
      (rest.flatMap fun leftRow =>
        (Stream.ofProg (right session)).filterMap (combine condition columns leftRow))

/-! ### Project, sort, limit -/

def project (input : Operator) (exprs : List Expr) (columns : List ColumnDef) : Operator := do
  return (← input).filterMap fun row => do
    let values ← exprs.mapM fun expr => (evalExpr expr row columns).mapError .eval
    return some (values.map toValue)

/-- `compareValues`: NULL comes first. -/
def compareValues (left right : Datum) : Ordering :=
  match left, right with
  | .null, .null => .eq
  | .null, _ => .lt
  | _, .null => .gt
  | left, right =>
    match toFloat64 left, toFloat64 right with
    | some x, some y => if x.lt y then .lt else if y.lt x then .gt else .eq
    | _, _ => compareBytes left.print right.print

/-- A sort key; an expression that cannot be evaluated counts as NULL. -/
def sortKey (expr : Expr) (columns : List ColumnDef) (row : Row) : Datum :=
  match evalExpr expr row columns with
  | .error _ => .null
  | .ok d => d

/-- The comparison of `Sort`. -/
def sortLess (columns : List ColumnDef) (a b : Row) : List OrderClause → Bool
  | [] => false
  | clause :: clauses =>
    match compareValues (sortKey clause.expr columns a) (sortKey clause.expr columns b) with
    | .eq => sortLess columns a b clauses
    | .lt => !clause.desc
    | .gt => clause.desc

def sort (input : Operator) (orderBy : List OrderClause) (columns : List ColumnDef) :
    Operator := do
  let rows ← drain (← input)
  return .ofList (rows.mergeSort fun a b => !sortLess columns b a orderBy)

def limit (input : Operator) (n : Int) : Operator := do return (← input).take n.toNat

/-! ### Aggregate -/

structure AggState where
  count : Int64 := 0
  sum : Float64 := 0
  minVal : Datum := .null
  maxVal : Datum := .null
  hasValue : Bool := false

/-- The groups in the order of their first rows, each with its key, the
state of every expression of the select list and its first row. -/
abbrev Groups : Type := List (Bytes × List AggState × Row)

def groupKey (groupBy : List Expr) (columns : List ColumnDef) (row : Row) :
    Except ExecErr Bytes :=
  if groupBy = [] then .ok (ascii "__all__")
  else do
    let values ← groupBy.mapM fun expr => (evalExpr expr row columns).mapError .eval
    return (values.map fun d => d.print ++ [0]).flatten

/-- The value of an aggregate's argument, NULL if there is none. -/
def argument (args : List Expr) (columns : List ColumnDef) (row : Row) : Except ExecErr Datum :=
  match args with
  | [] => .ok .null
  | arg :: _ => (evalExpr arg row columns).mapError .eval

/-- The switch of `updateAggState`, for a value that is not NULL. -/
def accumulate (state : AggState) (name : Bytes) (value : Datum) : AggState :=
  if name = ascii "COUNT" then { state with count := state.count + 1 }
  else if name = ascii "SUM" ∨ name = ascii "AVG" then
    match toFloat64 value with
    | none => state
    | some number => { state with sum := state.sum.add number, count := state.count + 1 }
  else if name = ascii "MIN" then
    if !state.hasValue || compareValues value state.minVal = .lt then
      { state with minVal := value, hasValue := true }
    else state
  else if name = ascii "MAX" then
    if !state.hasValue || compareValues value state.maxVal = .gt then
      { state with maxVal := value, hasValue := true }
    else state
  else state

/-- `updateAggState`, for an expression of the select list. -/
def updateAggState (columns : List ColumnDef) (row : Row) (state : AggState) (expr : Expr) :
    Except ExecErr AggState :=
  match expr with
  | .funcCall name args star =>
    if star then .ok { state with count := state.count + 1 }
    else do
      let value ← argument args columns row
      return if value = .null then state else accumulate state name value
  | _ => .ok state

/-- One row, which opens a group if it is the first of its key. -/
def addToGroups (exprs : List Expr) (columns : List ColumnDef) (row : Row) (key : Bytes) :
    Groups → Except ExecErr Groups
  | [] => do
      let states ← exprs.mapM fun expr => updateAggState columns row {} expr
      return [(key, states, row)]
  | group :: groups =>
    if group.1 = key then do
      let states ← (group.2.1.zip exprs).mapM fun p => updateAggState columns row p.1 p.2
      return (key, states, group.2.2) :: groups
    else do return group :: (← addToGroups exprs columns row key groups)

def finalizeAgg (name : Bytes) (state : AggState) : Value :=
  if name = ascii "COUNT" then { intVal := state.count }
  else if name = ascii "SUM" then
    if state.count = 0 then .null else { floatVal := state.sum }
  else if name = ascii "AVG" then
    if state.count = 0 then .null
    else { floatVal := state.sum.div (Float64.ofInt state.count.toInt) }
  else if name = ascii "MIN" then if state.hasValue then toValue state.minVal else .null
  else if name = ascii "MAX" then if state.hasValue then toValue state.maxVal else .null
  else .null

/-- The output row of a group. -/
def groupRow (exprs : List Expr) (columns : List ColumnDef) (states : List AggState)
    (firstRow : Row) : Except ExecErr Row :=
  (states.zip exprs).mapM fun p =>
    match p.2 with
    | .funcCall name _ _ => .ok (finalizeAgg name p.1)
    | expr => do return toValue (← (evalExpr expr firstRow columns).mapError .eval)

def aggregate (input : Operator) (groupBy exprs : List Expr) (columns : List ColumnDef) :
    Operator := do
  let rows ← input
  let groups ← Proc.ofProg (rows.fold (fun groups row => do
    addToGroups exprs columns row (← groupKey groupBy columns row) groups) [])
  let results ← Proc.ofExcept (groups.mapM fun group =>
    groupRow exprs columns group.2.1 group.2.2)
  return .ofList results

/-! ### The pipeline -/

def containsAggregate : Expr → Bool
  | .funcCall .. => true
  | .binaryExpr left _ right => containsAggregate left || containsAggregate right
  | .unaryExpr _ operand => containsAggregate operand
  | _ => false

def hasAggregates (exprs : List Expr) : Bool := exprs.any containsAggregate

def isSelectStar : List Expr → Bool
  | [.starExpr] => true
  | _ => false

/-- The loop over the joins; `columns` are those of the pipeline. -/
def joinTables (pipeline : Operator) (columns : List ColumnDef) :
    List JoinClause → Exec (Operator × List ColumnDef)
  | [] => return (pipeline, columns)
  | join :: joins => do
      let rightDef ← getTable join.table (.joinedTableNotFound join.table)
      joinTables (nestedLoopJoin pipeline (tableScan join.table rightDef) join.on
        (columns ++ rightDef.columns)) (columns ++ rightDef.columns) joins

/-- `NewSort`, if there is an `ORDER BY`. -/
def sorted (stmt : SelectStmt) (columns : List ColumnDef) (pipeline : Operator) : Operator :=
  if stmt.orderBy.isEmpty then pipeline else sort pipeline stmt.orderBy columns

/-- `NewProject`, except for `SELECT *`. -/
def projected (stmt : SelectStmt) (columns : List ColumnDef) (pipeline : Operator) : Operator :=
  if isSelectStar stmt.columns then pipeline else project pipeline stmt.columns columns

/-- The operators over the joins. -/
def overJoins (stmt : SelectStmt) (pipeline : Operator) (columns : List ColumnDef) : Operator :=
  let filtered := stmt.where.elim pipeline fun predicate => filter pipeline predicate columns
  let shaped :=
    if !stmt.groupBy.isEmpty || hasAggregates stmt.columns then
      aggregate filtered stmt.groupBy stmt.columns columns
    else projected stmt columns (sorted stmt columns filtered)
  stmt.limit.elim shaped fun n => limit shaped n

def buildSelectPipeline (stmt : SelectStmt) : Exec Operator := do
  let d ← getTable stmt.from (.tableNotFound stmt.from)
  let (pipeline, columns) ← joinTables (tableScan stmt.from d) d.columns stmt.joins
  return overJoins stmt pipeline columns

def collectRows (op : Operator) : Exec (List Row) := do drain (← op)

def executeSelect (stmt : SelectStmt) : Exec (List Row) := do
  collectRows (← buildSelectPipeline stmt)

end MySQLight.Sql
