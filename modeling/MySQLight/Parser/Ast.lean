import MySQLight.Data.Bytes

/-!
Statements and expressions (`parser/ast.go`).

Operators and kinds of literals, which the source has as strings, are the
ones its lexer knows. Names and texts are byte strings.
-/

namespace MySQLight.Sql

open MySQLight.Data

inductive BinaryOp
  | eq
  | ne
  | lt
  | gt
  | le
  | ge
  | add
  | sub
  | mul
  | div
  | mod
  | and
  | or
  | like
deriving DecidableEq, Repr

inductive UnaryOp
  | neg
  | not
deriving DecidableEq, Repr

inductive LiteralKind
  | integer
  | float
  | string
  | null
deriving DecidableEq, Repr

inductive Expr
  | binaryExpr (left : Expr) (op : BinaryOp) (right : Expr)
  | unaryExpr (op : UnaryOp) (operand : Expr)
  | columnRef (table column : Bytes)
  | literal (kind : LiteralKind) (value : Bytes)
  | funcCall (name : Bytes) (args : List Expr) (star : Bool)
  | starExpr

structure JoinClause where
  table : Bytes
  «alias» : Bytes
  on : Option Expr

structure OrderClause where
  expr : Expr
  desc : Bool

structure SelectStmt where
  columns : List Expr
  «from» : Bytes
  joins : List JoinClause := []
  «where» : Option Expr := none
  groupBy : List Expr := []
  having : Option Expr := none
  orderBy : List OrderClause := []
  limit : Option Int := none

structure InsertStmt where
  table : Bytes
  columns : List Bytes := []
  values : List (List Expr)

structure Assignment where
  column : Bytes
  value : Expr

structure UpdateStmt where
  table : Bytes
  set : List Assignment
  «where» : Option Expr := none

structure DeleteStmt where
  table : Bytes
  «where» : Option Expr := none

structure ColumnDefAST where
  name : Bytes
  typeName : Bytes
  primaryKey : Bool := false
  notNull : Bool := false
  default : Option Expr := none

structure ForeignKeyAST where
  column : Bytes
  refTable : Bytes
  refColumn : Bytes
  onDelete : Bytes := []
  onUpdate : Bytes := []

structure CreateTableStmt where
  table : Bytes
  columns : List ColumnDefAST
  foreignKeys : List ForeignKeyAST := []

structure CreateIndexStmt where
  index : Bytes
  table : Bytes
  column : Bytes
  unique : Bool := false

inductive Statement
  | selectStmt (stmt : SelectStmt)
  | insertStmt (stmt : InsertStmt)
  | updateStmt (stmt : UpdateStmt)
  | deleteStmt (stmt : DeleteStmt)
  | createTableStmt (stmt : CreateTableStmt)
  | createIndexStmt (stmt : CreateIndexStmt)
  | dropTableStmt (table : Bytes)
  | dropIndexStmt (index : Bytes)
  | beginStmt
  | commitStmt
  | rollbackStmt
  | analyzeStmt (table : Bytes)

end MySQLight.Sql
