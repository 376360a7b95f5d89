import MySQLight.Executor.Cursor
import MySQLight.Planner.Optimizer

/-!
What a logical plan delivers.

The nodes are read as the operators of the executor, each over the columns
of its child. A scan delivers the rows of its table with the columns that
the node lists; an index scan keeps of them what meets its bounds, as the
fields of the node are documented.
-/

namespace MySQLight.Planner

open MySQLight.Data MySQLight.Schema MySQLight.Effect MySQLight.Sql

/-- The column of a value that has been computed: no text can refer to it. -/
def unnamed : ColumnDef := { name := [], type := .typeInt }

/-- The column of an expression of a select list. -/
def outputColumn (columns : List ColumnDef) : Expr → ColumnDef
  | .columnRef _ column => (columns.find? (·.name = column)).getD unnamed
  | _ => unnamed

/-- The conditions of an index scan. -/
def indexConditions (column : Bytes) (exact low high : Option Expr) : List Expr :=
  (exact.map (.binaryExpr (.columnRef [] column) .eq)).toList ++
    (low.map (.binaryExpr (.columnRef [] column) .ge)).toList ++
    (high.map (.binaryExpr (.columnRef [] column) .le)).toList

/-- The values of some columns of a row: `columns` are those of the row, and
`kept` is a part of them in the same order. -/
def restrict : (columns kept : List ColumnDef) → Row → Row
  | column :: columns, k :: kept, v :: row =>
    if column = k then v :: restrict columns kept row else restrict columns (k :: kept) row
  | _, _, _ => []

namespace LogicalNode

/-- The columns of the rows that a node delivers. -/
def columns : LogicalNode → List ColumnDef
  | .scan _ columns => columns
  | .indexScan _ _ _ columns _ _ _ => columns
  | .filter child _ | .sort child _ | .limit child _ => child.columns
  | .project child exprs =>
    if isSelectStar exprs then child.columns else exprs.map (outputColumn child.columns)
  | .join left right _ => left.columns ++ right.columns
  | .aggregate child _ aggs => aggs.map (outputColumn child.columns)

/-- What a node delivers, from what the scans deliver. -/
def opened (scan : Bytes → List ColumnDef → Cursor) : LogicalNode → Cursor
  | .scan table columns => scan table columns
  | .indexScan table _ column columns exact low high =>
    (indexConditions column exact low high).foldl (fun o condition => o.filter condition columns)
      (scan table columns)
  | .filter child predicate => (child.opened scan).filter predicate child.columns
  | .project child exprs =>
    if isSelectStar exprs then child.opened scan
    else (child.opened scan).project exprs child.columns
  | .join left right condition =>
    (left.opened scan).join (right.opened scan) condition (left.columns ++ right.columns)
  | .aggregate child groupBy aggs => (child.opened scan).aggregate groupBy aggs child.columns
  | .sort child orderBy => (child.opened scan).sort orderBy child.columns
  | .limit child n => (child.opened scan).limit n

end LogicalNode

/-- The columns of a table; a table that is not there has none. -/
def tableColumns (catalog : Catalog) (table : Bytes) : List ColumnDef :=
  match catalog.getTable table with
  | .ok d => d.columns
  | .error _ => []

/-- The contents of the tables of a catalog. -/
structure Contents (catalog : Catalog) where
  rows : Bytes → List Row
  parallel : ∀ table, ∀ row ∈ rows table, row.length = (tableColumns catalog table).length

namespace Contents

variable {catalog : Catalog} (tables : Contents catalog)

/-- The rows of a table, with some of its columns. -/
def scanned (table : Bytes) (columns : List ColumnDef) : List Row :=
  (tables.rows table).map (restrict (tableColumns catalog table) columns)

def scan (table : Bytes) (columns : List ColumnDef) : Cursor :=
  .ok (.ofList (tables.scanned table columns))

end Contents

end MySQLight.Planner
