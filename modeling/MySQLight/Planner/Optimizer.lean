import MySQLight.Planner.Planner

/-!
The passes over a logical plan (`planner/optimizer.go`).

A set of names is the list of the names put into it. A division by the
integer zero, at which the program stops, is `none`.
-/

namespace MySQLight.Planner

open MySQLight.Data MySQLight.Schema MySQLight.Sql

/-! ### Predicate pushdown -/

def tablesInSubtree : LogicalNode → List Bytes
  | .scan table _ => [table]
  | .indexScan table .. => [table]
  | .filter child _ | .project child _ | .aggregate child _ _ | .sort child _ | .limit child _ =>
    tablesInSubtree child
  | .join left right _ => tablesInSubtree left ++ tablesInSubtree right

mutual

/-- `collectColumnRefTables`: the tables of the qualified references. -/
def collectColumnRefTables : Expr → List Bytes
  | .columnRef table _ => if table = [] then [] else [table]
  | .binaryExpr left _ right => collectColumnRefTables left ++ collectColumnRefTables right
  | .unaryExpr _ operand => collectColumnRefTables operand
  | .funcCall _ args _ => collectArgTables args
  | .literal .. | .starExpr => []

def collectArgTables : List Expr → List Bytes
  | [] => []
  | arg :: args => collectColumnRefTables arg ++ collectArgTables args

end

/-- The case of a filter, over the rewritten child. -/
def pushFilter (child : LogicalNode) (predicate : Expr) : LogicalNode :=
  match child with
  | .join left right condition =>
    let refs := collectColumnRefTables predicate
    if refs = [] then .filter child predicate
    else if refs ⊆ tablesInSubtree left then .join (.filter left predicate) right condition
    else if refs ⊆ tablesInSubtree right then .join left (.filter right predicate) condition
    else .filter child predicate
  | child => .filter child predicate

def predicatePushdown : LogicalNode → LogicalNode
  | .filter child predicate => pushFilter (predicatePushdown child) predicate
  | .join left right condition =>
    .join (predicatePushdown left) (predicatePushdown right) condition
  | .project child columns => .project (predicatePushdown child) columns
  | .aggregate child groupBy aggs => .aggregate (predicatePushdown child) groupBy aggs
  | .sort child orderBy => .sort (predicatePushdown child) orderBy
  | .limit child n => .limit (predicatePushdown child) n
  | node => node

/-! ### Constant folding -/

def boolLiteral (value : Bool) : Expr :=
  .literal .integer (if value then ascii "1" else ascii "0")

def numericLiteral (value : Float64) (isInteger : Bool) : Expr :=
  if isInteger then .literal .integer (Float64.showInt value.toInt64.toInt)
  else .literal .float value.printFixed

/-- The switch of `evalConstantBinary` over two numbers; an operator
without a case stays. -/
def foldNumbers (op : BinaryOp) (left right : Float64) (bothInt : Bool) (unfolded : Expr) :
    Option Expr :=
  match op with
  | .add => some (numericLiteral (left.add right) bothInt)
  | .sub => some (numericLiteral (left.sub right) bothInt)
  | .mul => some (numericLiteral (left.mul right) bothInt)
  | .div =>
    if right.eq 0 then some unfolded
    else some (numericLiteral (left.div right) bothInt)
  | .mod =>
    if right.eq 0 then some unfolded
    else if right.toInt64 = 0 then none
    else some (numericLiteral (Float64.ofInt (left.toInt64 % right.toInt64).toInt) bothInt)
  | .eq => some (boolLiteral (left.eq right))
  | .ne => some (boolLiteral !(left.eq right))
  | .lt => some (boolLiteral (left.lt right))
  | .gt => some (boolLiteral (right.lt left))
  | .le => some (boolLiteral (left.le right))
  | .ge => some (boolLiteral (right.le left))
  | _ => some unfolded

def isNumeric (kind : LiteralKind) : Bool := kind = .integer || kind = .float

/-- `evalConstantBinary`; the operands are literals. -/
def evalConstantBinary (leftKind : LiteralKind) (left : Bytes) (op : BinaryOp)
    (rightKind : LiteralKind) (right : Bytes) : Option Expr :=
  let unfolded := .binaryExpr (.literal leftKind left) op (.literal rightKind right)
  let bothInt : Bool := leftKind = .integer && rightKind = .integer
  if leftKind = .null ∨ rightKind = .null then some (.literal .null (ascii "null"))
  else if op = .and ∨ op = .or then
    if bothInt then
      let leftBool : Bool := left ≠ ascii "0"
      let rightBool : Bool := right ≠ ascii "0"
      some (boolLiteral (if op = .and then leftBool && rightBool else leftBool || rightBool))
    else some unfolded
  else if isNumeric leftKind && isNumeric rightKind then
    match Float64.parse left, Float64.parse right with
    | some leftVal, some rightVal => foldNumbers op leftVal rightVal bothInt unfolded
    | _, _ => some unfolded
  else if leftKind = .string ∧ rightKind = .string then
    match op with
    | .eq => some (boolLiteral (left = right))
    | .ne => some (boolLiteral (left ≠ right))
    | _ => some unfolded
  else some unfolded

def foldExpr : Expr → Option Expr
  | .binaryExpr left op right => do
      match ← foldExpr left, ← foldExpr right with
      | .literal leftKind left, .literal rightKind right =>
        evalConstantBinary leftKind left op rightKind right
      | left, right => return .binaryExpr left op right
  | expr => some expr

def constantFolding : LogicalNode → Option LogicalNode
  | .filter child predicate => do
      return .filter (← constantFolding child) (← foldExpr predicate)
  | .project child columns => do
      return .project (← constantFolding child) (← columns.mapM foldExpr)
  | .join left right condition => do
      return .join (← constantFolding left) (← constantFolding right)
        (← condition.mapM foldExpr)
  | .aggregate child groupBy aggs => do
      return .aggregate (← constantFolding child) (← groupBy.mapM foldExpr) aggs
  | .sort child orderBy => do
      return .sort (← constantFolding child) (← orderBy.mapM fun clause => do
        return { clause with expr := ← foldExpr clause.expr })
  | .limit child n => do return .limit (← constantFolding child) n
  | node => some node

/-! ### Column pruning -/

mutual

/-- `collectColumnNamesInto`; the star is put in as a name. -/
def collectColumnNames : Expr → List Bytes
  | .columnRef _ column => [column]
  | .binaryExpr left _ right => collectColumnNames left ++ collectColumnNames right
  | .unaryExpr _ operand => collectColumnNames operand
  | .funcCall _ args _ => collectArgNames args
  | .starExpr => [ascii "*"]
  | .literal .. => []

def collectArgNames : List Expr → List Bytes
  | [] => []
  | arg :: args => collectColumnNames arg ++ collectArgNames args

end

def gatherReferencedColumns : LogicalNode → List Bytes
  | .filter child predicate => collectColumnNames predicate ++ gatherReferencedColumns child
  | .project child columns => columns.flatMap collectColumnNames ++ gatherReferencedColumns child
  | .join left right condition =>
    condition.elim [] collectColumnNames ++ gatherReferencedColumns left ++
      gatherReferencedColumns right
  | .aggregate child groupBy aggs =>
    groupBy.flatMap collectColumnNames ++ aggs.flatMap collectColumnNames ++
      gatherReferencedColumns child
  | .sort child orderBy =>
    orderBy.flatMap (fun clause => collectColumnNames clause.expr) ++
      gatherReferencedColumns child
  | .limit child _ => gatherReferencedColumns child
  | .scan .. | .indexScan .. => []

/-- The columns of a scan that stay; the first one, if there would be none. -/
def keptColumns (referenced : List Bytes) (columns : List ColumnDef) : List ColumnDef :=
  let kept := columns.filter fun col => col.primaryKey || col.name ∈ referenced
  if kept = [] then columns.take 1 else kept

def pruneScans (referenced : List Bytes) : LogicalNode → LogicalNode
  | .scan table columns => .scan table (keptColumns referenced columns)
  | .filter child predicate => .filter (pruneScans referenced child) predicate
  | .project child columns => .project (pruneScans referenced child) columns
  | .join left right condition =>
    .join (pruneScans referenced left) (pruneScans referenced right) condition
  | .aggregate child groupBy aggs => .aggregate (pruneScans referenced child) groupBy aggs
  | .sort child orderBy => .sort (pruneScans referenced child) orderBy
  | .limit child n => .limit (pruneScans referenced child) n
  | node => node

def columnPruning (node : LogicalNode) : LogicalNode :=
  let referenced := gatherReferencedColumns node
  if ascii "*" ∈ referenced then node else pruneScans referenced node

/-! ### Index selection -/

/-- What `extractIndexPredicate` returns: the name of a column, empty if the
predicate does not fit, and the bounds. -/
structure IndexPredicate where
  columnName : Bytes := []
  exact : Option Expr := none
  low : Option Expr := none
  high : Option Expr := none

/-- The comparison with its operands exchanged. -/
def flipped : BinaryOp → BinaryOp
  | .lt => .gt
  | .gt => .lt
  | .le => .ge
  | .ge => .le
  | op => op

/-- The last switch of `extractIndexPredicate`. -/
def indexBounds (column : Bytes) (op : BinaryOp) (literal : Expr) : IndexPredicate :=
  match op with
  | .eq => { columnName := column, exact := literal }
  | .gt | .ge => { columnName := column, low := literal }
  | .lt | .le => { columnName := column, high := literal }
  | _ => {}

def extractIndexPredicate : Expr → IndexPredicate
  | .binaryExpr (.columnRef _ column) op (.literal kind value) =>
    indexBounds column op (.literal kind value)
  | .binaryExpr (.literal kind value) op (.columnRef _ column) =>
    indexBounds column (flipped op) (.literal kind value)
  | _ => {}

/-- The case of a filter, over the rewritten child. -/
def selectIndex (catalog : Catalog) (child : LogicalNode) (predicate : Expr) : LogicalNode :=
  match child with
  | .scan table columns =>
    let bounds := extractIndexPredicate predicate
    if bounds.columnName = [] then .filter child predicate
    else
      match catalog.indexesForTable table with
      | .error _ => .filter child predicate
      | .ok indexes =>
        match indexes.find? (·.columnName = bounds.columnName) with
        | none => .filter child predicate
        | some indexDef =>
          .indexScan table indexDef.name bounds.columnName columns bounds.exact bounds.low
            bounds.high
  | child => .filter child predicate

def indexSelection (catalog : Catalog) : LogicalNode → LogicalNode
  | .filter child predicate => selectIndex catalog (indexSelection catalog child) predicate
  | .join left right condition =>
    .join (indexSelection catalog left) (indexSelection catalog right) condition
  | .project child columns => .project (indexSelection catalog child) columns
  | .aggregate child groupBy aggs => .aggregate (indexSelection catalog child) groupBy aggs
  | .sort child orderBy => .sort (indexSelection catalog child) orderBy
  | .limit child n => .limit (indexSelection catalog child) n
  | node => node

/-! ### All passes -/

def optimize (catalog : Catalog) (root : LogicalNode) : Option LogicalNode := do
  let root ← constantFolding (predicatePushdown root)
  return indexSelection catalog (columnPruning root)

end MySQLight.Planner
