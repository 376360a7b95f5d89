import MySQLight.Executor.Similar
import MySQLight.Parser.Beginning

/-!
`DB.Exec` (`db.go`): from the text of a statement to its result.

The parser goes by the types of the tokens, which do not depend on the case
of a keyword. But the name of an aggregate is kept as it is spelled, and only
the upper-case names are known later. So texts that differ in the case of
keywords end alike and leave the same database, and they return the same rows
unless an aggregate in the select list, known in one of the texts only, has a
value.
-/

namespace MySQLight.Sql

open MySQLight.Data MySQLight.Schema MySQLight.Effect MySQLight.Effect.Descent

/-! ### Results -/

structure Result where
  columns : List Bytes := []
  columnTypes : List DataType := []
  rows : List Row := []
deriving DecidableEq

inductive DbErr
  | parse (e : ParseErr)
  | exec (e : ExecErr)

/-- The columns of a table, none if there is no such table. -/
def tableColumns (c : Catalog) (table : Bytes) : List ColumnDef :=
  (c.tables.lookup table).elim [] TableDef.columns

/-- The name that `resolveColumns` gives to an expression. -/
def resolvedName : Expr → Bytes
  | .columnRef _ column => column
  | .funcCall name _ star => if star then name ++ ascii "(*)" else name
  | _ => ascii "expr"

/-- The type that it gives: a column is looked up in the table of the `FROM`
clause only. -/
def resolvedType (c : Catalog) (table : Bytes) : Expr → DataType
  | .columnRef _ column =>
    ((tableColumns c table).find? fun col => col.name = column).elim .typeText ColumnDef.type
  | .funcCall .. => .typeInt
  | _ => .typeText

/-- One expression of the select list. -/
def resolveColumn (c : Catalog) (table : Bytes) : Expr → List (Bytes × DataType)
  | .starExpr => (tableColumns c table).map fun col => (col.name, col.type)
  | expr => [(resolvedName expr, resolvedType c table expr)]

def resolveColumns (c : Catalog) (stmt : SelectStmt) : List (Bytes × DataType) :=
  stmt.columns.flatMap (resolveColumn c stmt.from)

/-- The result for the rows of a statement. -/
def toResult (c : Catalog) : Statement → List Row → Result
  | _, [] => {}
  | .selectStmt stmt, rows =>
    { columns := (resolveColumns c stmt).map Prod.fst
      columnTypes := (resolveColumns c stmt).map Prod.snd
      rows := rows }
  | _, _ => {}

/-- What `Exec` returns. -/
def World.exec (depth : Nat) (w : World) (sql : Bytes) : Except DbErr Result :=
  match parseText sql with
  | .error e => .error (.parse e)
  | .ok (stmt, _) =>
    match w.outcome depth stmt with
    | .error e => .error (.exec e)
    | .ok rows => .ok (toResult (w.step depth stmt).db.catalog stmt rows)

def TokenType.isKeyword (type : TokenType) : Bool := keywords.any (·.2 = type)

/-- The tokens differ in the case of a keyword at most. -/
structure CaseVariant (t t' : Token) : Prop where
  type : t.type = t'.type
  literal : t.type.isKeyword = false → t.literal = t'.literal
  folded : toUpper t.literal = toUpper t'.literal

instance (t t' : Token) : Decidable (CaseVariant t t') :=
  decidable_of_iff (t.type = t'.type ∧ (t.type.isKeyword = false → t.literal = t'.literal) ∧
    toUpper t.literal = toUpper t'.literal)
    ⟨fun ⟨h, h', h''⟩ => ⟨h, h', h''⟩, fun ⟨h, h', h''⟩ => ⟨h, h', h''⟩⟩

theorem CaseVariant.refl (t : Token) : CaseVariant t t := ⟨rfl, fun _ => rfl, rfl⟩

theorem CaseVariant.symm {t t' : Token} (h : CaseVariant t t') : CaseVariant t' t where
  type := h.type.symm
  literal hkeyword := (h.literal (h.type ▸ hkeyword)).symm
  folded := h.folded.symm

theorem rows_toResult_select (c : Catalog) (stmt : SelectStmt) (rows : List Row) :
    (toResult c (.selectStmt stmt) rows).rows = rows := by
  cases rows <;> rfl

theorem SameRows.toResult {c : Catalog} {stmt stmt' : Statement} {rows rows' : List Row}
    (hstmt : stmt.respell toUpper = stmt'.respell toUpper)
    (h : SameRows stmt.selectList stmt'.selectList rows rows') :
    SameRows stmt.selectList stmt'.selectList (toResult c stmt rows).rows
      (toResult c stmt' rows').rows := by
  cases stmt with
  | selectStmt stmt =>
    cases stmt' with
    | selectStmt stmt' =>
      rw [rows_toResult_select, rows_toResult_select]
      exact h
    | _ => cases hstmt
  | _ =>
    cases stmt' with
    | selectStmt stmt' => cases hstmt
    | _ => cases rows <;> cases rows' <;> exact sameRows_nil []

deriving instance DecidableEq for Lexer, Parser

end MySQLight.Sql
