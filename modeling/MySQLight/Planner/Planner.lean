import MySQLight.Executor.Execute

/-!
Logical plans (`planner/planner.go`).

A plan is built from a `SELECT` bottom-up: the scan, the filter of the
`WHERE`, the joins, the aggregate or the projection, the sort, the limit.
-/

namespace MySQLight.Planner

open MySQLight.Data MySQLight.Schema MySQLight.Sql

/-- `LogicalNode`. -/
inductive LogicalNode
  | scan (table : Bytes) (columns : List ColumnDef)
  | indexScan (table index column : Bytes) (columns : List ColumnDef) (exact low high : Option Expr)
  | filter (child : LogicalNode) (predicate : Expr)
  | project (child : LogicalNode) (columns : List Expr)
  | join (left right : LogicalNode) (condition : Option Expr)
  | aggregate (child : LogicalNode) (groupBy aggs : List Expr)
  | sort (child : LogicalNode) (orderBy : List OrderClause)
  | limit (child : LogicalNode) (n : Int)

inductive PlanErr
  | fromRequired
  | tableNotFound (name : Bytes) (e : CatalogErr)
  | joinTableNotFound (name : Bytes) (e : CatalogErr)
  | cannotPlan
deriving DecidableEq

def hasAggregateFuncCall : Expr → Bool
  | .funcCall name _ _ =>
    toUpper name ∈ [ascii "COUNT", ascii "SUM", ascii "MIN", ascii "MAX", ascii "AVG"]
  | .binaryExpr left _ right => hasAggregateFuncCall left || hasAggregateFuncCall right
  | .unaryExpr _ operand => hasAggregateFuncCall operand
  | _ => false

def containsAggregate (exprs : List Expr) : Bool := exprs.any hasAggregateFuncCall

/-- The loop over the joins. -/
def planJoins (catalog : Catalog) (current : LogicalNode) :
    List JoinClause → Except PlanErr LogicalNode
  | [] => .ok current
  | join :: joins => do
      let joinedDef ← (catalog.getTable join.table).mapError (.joinTableNotFound join.table)
      planJoins catalog (.join current (.scan join.table joinedDef.columns) join.on) joins

/-- The scan of a table, under the filter of the `WHERE`. -/
def planFrom (stmt : SelectStmt) (tableDef : TableDef) : LogicalNode :=
  let scan := .scan stmt.from tableDef.columns
  stmt.where.elim scan fun predicate => .filter scan predicate

/-- The nodes over the joins. -/
def planOutput (stmt : SelectStmt) (current : LogicalNode) : LogicalNode :=
  let shaped :=
    if !stmt.groupBy.isEmpty || containsAggregate stmt.columns then
      let aggregate := .aggregate current stmt.groupBy stmt.columns
      stmt.having.elim aggregate fun predicate => .filter aggregate predicate
    else .project current stmt.columns
  let sorted := if stmt.orderBy.isEmpty then shaped else .sort shaped stmt.orderBy
  stmt.limit.elim sorted fun n => .limit sorted n

def planSelect (catalog : Catalog) (stmt : SelectStmt) : Except PlanErr LogicalNode := do
  if stmt.from = [] then throw .fromRequired
  let tableDef ← (catalog.getTable stmt.from).mapError (.tableNotFound stmt.from)
  let joined ← planJoins catalog (planFrom stmt tableDef) stmt.joins
  return planOutput stmt joined

/-- `Plan`. -/
def plan (catalog : Catalog) : Statement → Except PlanErr LogicalNode
  | .selectStmt stmt => planSelect catalog stmt
  | _ => .error .cannotPlan

end MySQLight.Planner
