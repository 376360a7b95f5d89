import MySQLight.Executor.Select

/-!
`Execute` (`executor/executor.go`): one statement after the other on a
database.

A statement that waits for a lock, or whose recursion is too deep, does not
return; the session takes no other statement after it.
-/

namespace MySQLight.Sql

open MySQLight.Data MySQLight.Schema MySQLight.Effect

/-! ### Definitions of tables -/

/-- `strings.ToUpper`, as far as it decides whether the result is a word of
ASCII letters: the only other letters that become such are the dotless i and
the long s. -/
def toUpper : Bytes → Bytes
  | 0xC4 :: 0xB1 :: bs => 73 :: toUpper bs
  | 0xC5 :: 0xBF :: bs => 83 :: toUpper bs
  | b :: bs => (if 97 ≤ b ∧ b ≤ 122 then b - 32 else b) :: toUpper bs
  | [] => []

def parseDataType (typeName : Bytes) : Except ExecErr DataType :=
  if toUpper typeName ∈ [ascii "INTEGER", ascii "INT"] then .ok .typeInt
  else if toUpper typeName ∈ [ascii "FLOAT", ascii "REAL", ascii "DOUBLE"] then .ok .typeFloat
  else if toUpper typeName ∈ [ascii "TEXT", ascii "VARCHAR", ascii "CHAR"] then .ok .typeText
  else if toUpper typeName = ascii "BLOB" then .ok .typeBlob
  else .error (.unknownDataType typeName)

def parseFKAction (action : Bytes) : FKAction :=
  if toUpper action = ascii "CASCADE" then .fkCascade
  else if toUpper action = ascii "SET NULL" then .fkSetNull
  else .fkRestrict

def astToColumnDef (c : ColumnDefAST) : Except ExecErr ColumnDef := do
  let type ← parseDataType c.typeName
  return { name := c.name, type := type, primaryKey := c.primaryKey, notNull := c.notNull }

def astToForeignKey (fk : ForeignKeyAST) : ForeignKeyDef where
  columnName := fk.column
  refTable := fk.refTable
  refColumn := fk.refColumn
  onDelete := parseFKAction fk.onDelete
  onUpdate := parseFKAction fk.onUpdate

def astToTableDef (stmt : CreateTableStmt) : Except ExecErr TableDef := do
  let columns ← stmt.columns.mapM astToColumnDef
  return { name := stmt.table, columns := columns,
           foreignKeys := stmt.foreignKeys.map astToForeignKey }

/-! ### Statements -/

/-- The outcome of a call of the catalog. -/
def ddl (r : Except CatalogErr Unit) : Exec (List Row) := do
  Proc.ofExcept (r.mapError .catalog)
  return []

def executeBegin : Exec (List Row) := do
  if (← get).currentTxn.isSome then throw .transactionAlreadyInProgress
  else
    let r : Option Nat ← perform .beginTxn
    match r with
    | none => throw .log
    | some txnID =>
      set { currentTxn := some txnID : Session }
      return []

def executeCommit : Exec (List Row) := do
  match (← get).currentTxn with
  | none => throw .noTransactionInProgress
  | some txnID =>
    let r : Bool ← perform (.commitTxn txnID)
    if r then
      set { currentTxn := none : Session }
      return []
    else throw .log

def executeRollback : Exec (List Row) := do
  match (← get).currentTxn with
  | none => throw .noTransactionInProgress
  | some txnID =>
    let r : Bool ← perform (.rollbackTxn txnID)
    if r then
      set { currentTxn := none : Session }
      return []
    else throw .log

/-- `Execute`, on a stack with room for `depth` nested deletions. -/
def execute (depth : Nat) : Statement → Exec (List Row)
  | .selectStmt stmt => executeSelect stmt
  | .deleteStmt stmt => do
      executeDelete depth stmt
      return []
  | .createTableStmt stmt => do
      let d ← Proc.ofExcept (astToTableDef stmt)
      ddl (← perform (.createTable d))
  | .dropTableStmt table => do ddl (← perform (.dropTable table))
  | .createIndexStmt stmt => do
      ddl (← perform (.createIndex
        { name := stmt.index, tableName := stmt.table, columnName := stmt.column,
          unique := stmt.unique }))
  | .dropIndexStmt index => do ddl (← perform (.dropIndex index))
  | .insertStmt stmt => do
      executeInsert stmt
      return []
  | .updateStmt stmt => do
      executeUpdate stmt
      return []
  | .beginStmt => executeBegin
  | .commitStmt => executeCommit
  | .rollbackStmt => executeRollback
  | .analyzeStmt _ => throw .analyzeNotYetImplemented

/-- The session and the database; a statement that does not return stops
the session. -/
structure World where
  session : Session := {}
  db : Database
  stopped : Bool := false

namespace World

/-- A session on a new database. -/
def new (env : Env) : World := { db := .new env }

/-- What a statement returns. -/
def outcome (depth : Nat) (w : World) (stmt : Statement) : Except ExecErr (List Row) :=
  (Prog.run Database.handler (execute depth stmt w.session) w.db).1.1

def step (depth : Nat) (w : World) (stmt : Statement) : World :=
  if w.stopped then w
  else
    let r := Prog.run Database.handler (execute depth stmt w.session) w.db
    { session := r.1.2
      db := r.2
      stopped := match r.1.1 with
        | .error .blocked | .error .stackOverflow => true
        | _ => false }

end World

/-! ### Small databases -/

/-- An environment in which nothing goes wrong. -/
def plainEnv : Env where
  order _ := 0
  root n := .ok (UInt32.ofNat (n + 1))
  logFails _ := false
  restored _ _ := .empty

def intColumn (name : String) : ColumnDefAST := { name := ascii name, typeName := ascii "INT" }

/-- `id INT PRIMARY KEY`. -/
def idColumn : ColumnDefAST := { intColumn "id" with primaryKey := true }

def integer (digits : String) : Expr := .literal .integer (ascii digits)

/-- `INSERT INTO table VALUES (...), ...` with integers. -/
def insertInto (table : String) (rows : List (List String)) : Statement :=
  .insertStmt { table := ascii table, values := rows.map (·.map integer) }

/-- `UPDATE table SET column = digits`. -/
def updateAll (table column digits : String) : Statement :=
  .updateStmt { table := ascii table, set := [⟨ascii column, integer digits⟩] }

end MySQLight.Sql
