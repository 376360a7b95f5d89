import MySQLight.Executor.Database

/-!
`INSERT`, `UPDATE` and `DELETE` (`executor/insert.go`, `executor/update.go`,
`executor/delete.go`, `executor/fk.go`).

A statement first asks for its lock, then for the definitions it needs, and
then goes through its rows one by one. A row that is deleted or gets another
primary key takes the rows that refer to it along, as the foreign keys of
the other tables say.

Deleting rows and looking for the rows that refer to them call each other;
the depth of that recursion is bounded by the stack.
-/

namespace MySQLight.Sql

open MySQLight.Data MySQLight.Schema MySQLight.Effect MySQLight.Txn

/-- The executor's own state. -/
structure Session where
  currentTxn : Option Nat := none
deriving DecidableEq

/-- A procedure of the executor. -/
abbrev Exec (α : Type) : Type := Proc DbI Session ExecErr α

/-- A call of the database. -/
def perform (o : DbOp) : Exec o.Resp := Proc.call (I := DbI) o

/-- `GetTable`, with the error for a table that is not there. -/
def getTable (name : Bytes) (wrap : CatalogErr → ExecErr) : Exec TableDef := do
  let r : Except CatalogErr TableDef ← perform (.getTable name)
  Proc.ofExcept (r.mapError wrap)

def indexesForTable (name : Bytes) : Exec (List IndexDef) := do
  let r : Except CatalogErr (List IndexDef) ← perform (.indexesForTable name)
  Proc.ofExcept (r.mapError .catalog)

/-- `findColumnIndex` for the primary key, with the error of its callers. -/
def primaryKey (columns : List ColumnDef) (table : Bytes) : Exec Nat :=
  Proc.orThrow (.noPrimaryKey table) (pkIndex columns)

/-- `Acquire` for the transaction in progress, if there is one. -/
def acquire (table : Bytes) (mode : LockMode) : Exec Unit := do
  match (← get).currentTxn with
  | none => pure ()
  | some txnID =>
    let granted : Bool ← perform (.acquire txnID table mode)
    if granted then pure () else throw .blocked

/-! ### Rows of a table -/

/-- The rows a scan delivers, as far as they are kept. -/
def collect (columns : List ColumnDef) (keep : Row → Except ExecErr Bool) :
    List Bytes → Except ExecErr (List Row)
  | [] => .ok []
  | value :: values => do
      let row ← (decodeRow value columns).mapError .row
      let kept ← keep row
      let rows ← collect columns keep values
      return if kept then row :: rows else rows

/-- What `Filter` asks of a row: a predicate that is anything but true
drops it. -/
def holds (predicate : Expr) (columns : List ColumnDef) (row : Row) : Except ExecErr Bool :=
  match evalExpr predicate row columns with
  | .error e => .error (.eval e)
  | .ok d => .ok (d = .bool true)

/-- The scan of `executeUpdate` and `executeDelete`. -/
def matchingRows (d : TableDef) (condition : Option Expr) : Exec (List Row) := do
  let values : List Bytes ← perform (.scan d)
  Proc.ofExcept (collect d.columns (fun row =>
    match condition with
    | none => .ok true
    | some predicate => holds predicate d.columns row) values)

def findRowsMatchingValue (d : TableDef) (columnName : Bytes) (value : Value) :
    Exec (List Row) := do
  match colIndex d.columns columnName with
  | none => throw (.columnNotFound columnName d.name)
  | some i =>
    let values : List Bytes ← perform (.scan d)
    Proc.ofExcept (collect d.columns (fun row =>
      .ok ((d.columns[i]?).any fun c => valuesEqual (row.getD i .null) value c.type)) values)

def columnContainsValue (d : TableDef) (columnName : Bytes) (value : Value) : Exec Bool := do
  return !(← findRowsMatchingValue d columnName value).isEmpty

/-- The loop over the columns that are `NOT NULL`. -/
def checkNotNull (columns : List ColumnDef) (row : Row) : Except ExecErr Unit :=
  match (columns.zip row).find? fun p => p.1.notNull && p.2.isNull with
  | none => .ok ()
  | some p => .error (.notNullViolation p.1.name)

/-! ### Foreign keys -/

/-- One foreign key of `verifyFKParents`. -/
def verifyParent (row : Row) (d : TableDef) (fk : ForeignKeyDef) : Exec Unit := do
  match colIndex d.columns fk.columnName with
  | none => pure ()
  | some i =>
    if (row.getD i .null).isNull then pure ()
    else
      let parentDef ← getTable fk.refTable (.parentTableNotFound fk.refTable)
      let found ← columnContainsValue parentDef fk.refColumn (row.getD i .null)
      if found then pure ()
      else throw (.foreignKeyViolation d.name fk.columnName fk.refTable fk.refColumn)

def verifyFKParents (row : Row) (d : TableDef) : Exec Unit :=
  Proc.forEach (verifyParent row d) d.foreignKeys

/-- The loop body of `updateColumnInRows`. -/
def setOne (d : TableDef) (indexes : List IndexDef) (columnName : Bytes) (i : Nat)
    (newValue : Value) (pk : Nat) (oldRow : Row) : Exec Unit := do
  let key ← Proc.ofExcept ((columnKey d.columns pk (oldRow.getD pk .null)).mapError .key)
  let r : Except ExecErr Unit ← perform (.setColumn d indexes columnName i oldRow newValue key)
  Proc.ofExcept r

def updateColumnInRows (d : TableDef) (columnName : Bytes) (newValue : Value) (rows : List Row) :
    Exec Unit := do
  match colIndex d.columns columnName with
  | none => throw (.columnNotFound columnName d.name)
  | some i =>
    if newValue.isNull && (d.columns[i]?).any (·.notNull) then
      throw (.cannotSetNull d.name columnName)
    else
      let pk ← primaryKey d.columns d.name
      let indexes ← indexesForTable d.name
      Proc.forEach (setOne d indexes columnName i newValue pk) rows

/-- The loop body of `applyOnDelete`; `delete` is the call of
`deleteRowsFromTable`. -/
def onDelete (delete : TableDef → List Row → Exec Unit) (parentTable : Bytes) (pkValue : Value)
    (childDef : TableDef) (fk : ForeignKeyDef) : Exec Unit := do
  if fk.refTable = parentTable then
    let rows ← findRowsMatchingValue childDef fk.columnName pkValue
    if rows.isEmpty then pure ()
    else match fk.onDelete with
      | .fkRestrict => throw (.cannotDelete parentTable rows.length childDef.name)
      | .fkCascade => delete childDef rows
      | .fkSetNull => updateColumnInRows childDef fk.columnName .null rows
  else pure ()

def applyOnDelete (delete : TableDef → List Row → Exec Unit) (parentTable : Bytes)
    (pkValue : Value) : Exec Unit := do
  let tables : List TableDef ← perform .listTables
  Proc.forEach (fun childDef =>
    Proc.forEach (onDelete delete parentTable pkValue childDef) childDef.foreignKeys) tables

/-- The loop body of `applyOnUpdate`. -/
def onUpdate (parentTable : Bytes) (oldPKValue newPKValue : Value) (childDef : TableDef)
    (fk : ForeignKeyDef) : Exec Unit := do
  if fk.refTable = parentTable then
    let rows ← findRowsMatchingValue childDef fk.columnName oldPKValue
    if rows.isEmpty then pure ()
    else match fk.onUpdate with
      | .fkRestrict => throw (.cannotUpdate parentTable rows.length childDef.name)
      | .fkCascade => updateColumnInRows childDef fk.columnName newPKValue rows
      | .fkSetNull => updateColumnInRows childDef fk.columnName .null rows
  else pure ()

def applyOnUpdate (parentTable : Bytes) (oldPKValue newPKValue : Value) : Exec Unit := do
  let tables : List TableDef ← perform .listTables
  Proc.forEach (fun childDef =>
    Proc.forEach (onUpdate parentTable oldPKValue newPKValue childDef) childDef.foreignKeys) tables

/-- The loop body of `deleteRowsFromTable`. -/
def deleteOne (delete : TableDef → List Row → Exec Unit) (d : TableDef) (pk : Nat)
    (indexes : List IndexDef) (row : Row) : Exec Unit := do
  applyOnDelete delete d.name (row.getD pk .null)
  let key ← Proc.ofExcept
    ((columnKey d.columns pk (row.getD pk .null)).mapError .encodingKeyForDelete)
  let r : Except ExecErr Unit ← perform (.deleteRow d indexes row key)
  Proc.ofExcept r

/-- `deleteRowsFromTable`, on a stack with room for `depth` calls of it. -/
def deleteRowsFromTable : Nat → TableDef → List Row → Exec Unit
  | 0, _, _ => throw .stackOverflow
  | depth + 1, d, rows => do
      let pk ← primaryKey d.columns d.name
      let indexes ← indexesForTable d.name
      Proc.forEach (deleteOne (deleteRowsFromTable depth) d pk indexes) rows

/-! ### The statements -/

/-- One name of the column list of an `INSERT`, with its value. -/
def setNamed (columns : List ColumnDef) (row : Row) (item : Bytes × Expr) : Except ExecErr Row :=
  match colIndex columns item.1 with
  | none => .error (.columnNotFoundInTable item.1)
  | some i => do
      let value ← (columns[i]?).elim (.ok .null) fun c =>
        (evalExprToValue item.2 c.type).mapError .store
      return row.set i value

def buildInsertRow (valueExprs : List Expr) (columnNames : List Bytes) (d : TableDef) :
    Except ExecErr Row :=
  if columnNames = [] then
    if valueExprs.length ≠ d.columns.length then
      .error (.valueCount d.columns.length valueExprs.length)
    else (valueExprs.zip d.columns).mapM fun p =>
      (evalExprToValue p.1 p.2.type).mapError .store
  else if columnNames.length ≠ valueExprs.length then
    .error (.columnCount columnNames.length valueExprs.length)
  else (columnNames.zip valueExprs).foldlM (setNamed d.columns)
    (d.columns.map fun c => c.default.getD .null)

/-- The loop body of `executeInsert`. -/
def insertOne (d : TableDef) (columnNames : List Bytes) (pk : Nat) (indexes : List IndexDef)
    (valueExprs : List Expr) : Exec Unit := do
  let row ← Proc.ofExcept (buildInsertRow valueExprs columnNames d)
  Proc.ofExcept (checkNotNull d.columns row)
  verifyFKParents row d
  let key ← Proc.ofExcept
    ((columnKey d.columns pk (row.getD pk .null)).mapError .encodingPrimaryKey)
  let r : Except ExecErr Unit ← perform (.insertRow d indexes row key)
  Proc.ofExcept r

def executeInsert (statement : InsertStmt) : Exec Unit := do
  acquire statement.table .lockExclusive
  let d ← getTable statement.table (.tableNotFound statement.table)
  let pk ← primaryKey d.columns statement.table
  let indexes ← indexesForTable statement.table
  Proc.forEach (insertOne d statement.columns pk indexes) statement.values

/-- One assignment of an `UPDATE`. -/
def assign (d : TableDef) (table : Bytes) (row : Row) (a : Assignment) : Except ExecErr Row :=
  match colIndex d.columns a.column with
  | none => .error (.columnNotFound a.column table)
  | some i => do
      let value ← (d.columns[i]?).elim (.ok .null) fun c =>
        (evalExprToValue a.value c.type).mapError .store
      return row.set i value

/-- The call of `applyOnUpdate`, which is made only if the key changes. -/
def propagateKey (d : TableDef) (table : Bytes) (pk : Nat) (oldRow newRow : Row) : Exec Unit :=
  if (d.columns[pk]?).any fun c =>
      valuesEqual (oldRow.getD pk .null) (newRow.getD pk .null) c.type then pure ()
  else applyOnUpdate table (oldRow.getD pk .null) (newRow.getD pk .null)

/-- The loop body of `executeUpdate`. -/
def updateOne (statement : UpdateStmt) (d : TableDef) (pk : Nat) (indexes : List IndexDef)
    (oldRow : Row) : Exec Unit := do
  let newRow ← Proc.ofExcept (statement.set.foldlM (assign d statement.table) oldRow)
  Proc.ofExcept (checkNotNull d.columns newRow)
  let oldPK ← Proc.ofExcept
    ((columnKey d.columns pk (oldRow.getD pk .null)).mapError .encodingOldPrimaryKey)
  let newPK ← Proc.ofExcept
    ((columnKey d.columns pk (newRow.getD pk .null)).mapError .encodingNewPrimaryKey)
  verifyFKParents newRow d
  propagateKey d statement.table pk oldRow newRow
  let r : Except ExecErr Unit ← perform (.updateRow d indexes oldRow newRow oldPK newPK)
  Proc.ofExcept r

def executeUpdate (statement : UpdateStmt) : Exec Unit := do
  acquire statement.table .lockExclusive
  let d ← getTable statement.table (.tableNotFound statement.table)
  let rows ← matchingRows d statement.where
  let pk ← primaryKey d.columns statement.table
  let indexes ← indexesForTable statement.table
  Proc.forEach (updateOne statement d pk indexes) rows

def executeDelete (depth : Nat) (statement : DeleteStmt) : Exec Unit := do
  acquire statement.table .lockExclusive
  let d ← getTable statement.table (.tableNotFound statement.table)
  let rows ← matchingRows d statement.where
  deleteRowsFromTable depth d rows

end MySQLight.Sql
