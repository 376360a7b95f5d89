import MySQLight.Effect.Descent
import MySQLight.Executor.Expr
import MySQLight.Parser.Lexer

/-!
The parser (`parser/parser.go`): recursive descent with one token of
lookahead.

Where the source looks at the type of the current token and, in the same
step, takes it, this is a `branch` or a `choose`. The loops of the source and
the recursion through parentheses have a bound here, which is larger than the
number of the tokens and never reached.
-/

namespace MySQLight.Sql

open MySQLight.Data MySQLight.Effect MySQLight.Effect.Descent

inductive ParseErr
  /-- There is no token. -/
  | eofFirst
  /-- The first token is a `TokenErr`. -/
  | errFirst
  /-- The second token is a `TokenErr`. -/
  | errPeek
  | unreadable
  | expected (line : Nat)
  | expectedTableOrIndex (after : TokenType) (line : Nat)
  | expectedDeleteOrUpdate (line : Nat)
  | unexpected (literal : Bytes) (line : Nat)
  | invalidLimit (literal : Bytes)
  | outOfFuel
deriving DecidableEq

structure Parser where
  lexer : Lexer
  current : Token
  peek : Token

namespace Parser

/-- The parser whose current token is the next one of the lexer. -/
def ofLexer (l : Lexer) : Parser where
  lexer := l.nextToken.2.nextToken.2
  current := l.nextToken.1
  peek := l.nextToken.2.nextToken.1

/-- `advance`. -/
def shift (p : Parser) : Parser where
  lexer := p.lexer.nextToken.2
  current := p.peek
  peek := p.lexer.nextToken.1

/-- The tokens that are not the end, with one for each character that is
left. -/
def remaining (p : Parser) : Nat :=
  p.lexer.rest.length + (if p.peek.type = .tokenEOF then 0 else 1) +
    if p.current.type = .tokenEOF then 0 else 1

theorem remaining_shift_le (p : Parser) :
    p.shift.remaining ≤ p.lexer.rest.length + if p.peek.type = .tokenEOF then 0 else 1 := by
  have h := p.lexer.length_nextToken
  rw [remaining, shift]
  dsimp only
  omega

instance : Source Parser Token where
  current := current
  advance := shift
  eof t := t.type = .tokenEOF
  remaining := remaining
  remaining_advance_le p := by
    refine p.remaining_shift_le.trans ?_
    rw [remaining]
    omega
  remaining_advance_lt p h := by
    refine Nat.lt_of_le_of_lt p.remaining_shift_le ?_
    rw [remaining, if_neg h]
    omega

end Parser

/-- `NewParser`. -/
def newParser (input : Bytes) : Except ParseErr Parser := do
  let p := Parser.ofLexer (newLexer input)
  if p.current.type = .tokenEOF then throw .eofFirst
  if p.current.type = .tokenErr then throw .errFirst
  if p.peek.type = .tokenErr then throw .errPeek
  return p

abbrev Parse (α : Type) : Type := Descent Parser ParseErr α

/-- Fail with the line that the lexer has got to. -/
def failAt {α : Type} (e : Nat → ParseErr) : Parse α := fail fun p => e p.lexer.line

def expect (type : TokenType) : Parse Token :=
  branch (·.type = type) pure (failAt .expected)

/-- A part that begins with a token of its own, if it is there. -/
def optional {α : Type} (type : TokenType) (x : Parse α) : Parse (Option α) :=
  branch (·.type = type) (fun _ => some <$> x) (pure none)

/-- Whether there is a part that begins with a token of its own. -/
def flag (type : TokenType) (x : Parse Unit) : Parse Bool :=
  branch (·.type = type) (fun _ => do x; return true) (pure false)

/-- Items with commas between them. -/
def commaList {α : Type} (fuel : Nat) (item : Parse α) : Parse (List α) :=
  sepBy .outOfFuel (·.type = .tokenComma) item fuel

/-! ### Expressions -/

section Expressions

-- `parseExpr` is what the parentheses and the arguments call
variable (fuel : Nat) (parseExpr : Parse Expr)

/-- The arguments of a call, behind the parenthesis. -/
def parseArgs (name : Bytes) : Parse Expr :=
  branch (·.type = .tokenStar)
    (fun _ => do
      let _ ← expect .tokenRParen
      return .funcCall name [] true)
    (branch (·.type = .tokenRParen) (fun _ => return .funcCall name [] false)
      (do
        let args ← commaList fuel parseExpr
        let _ ← expect .tokenRParen
        return .funcCall name args false))

/-- A call or a column, behind its first name. -/
def parseName (name : Bytes) : Parse Expr :=
  branch (·.type = .tokenLParen) (fun _ => parseArgs fuel parseExpr name)
    (branch (·.type = .tokenDot)
      (fun _ => do
        let column ← expect .tokenIdent
        return .columnRef name column.literal)
      (return .columnRef [] name))

def parsePrimary : Parse Expr :=
  choose
    (fun token =>
      match token.type with
      | .tokenInteger => some (return .literal .integer token.literal)
      | .tokenFloat => some (return .literal .float token.literal)
      | .tokenString => some (return .literal .string token.literal)
      | .tokenNull => some (return .literal .null (ascii "NULL"))
      | .tokenStar => some (return .starExpr)
      | .tokenLParen => some do
          let expr ← parseExpr
          let _ ← expect .tokenRParen
          return expr
      | .tokenCount | .tokenSum | .tokenMin | .tokenMax | .tokenAvg => some do
          let _ ← expect .tokenLParen
          parseArgs fuel parseExpr token.literal
      | .tokenIdent => some (parseName fuel parseExpr token.literal)
      | _ => none)
    (fail fun p => .unexpected p.current.literal p.lexer.line)

def parseUnary : Parse Expr :=
  branch (·.type = .tokenMinus) (fun _ => do return .unaryExpr .neg (← parsePrimary fuel parseExpr))
    (parsePrimary fuel parseExpr)

/-- Operands with operators of one level between them, from left to right. -/
def leftAssoc (operator : TokenType → Option BinaryOp) (operand : Parse Expr) : Parse Expr := do
  let left ← operand
  loop .outOfFuel
    (fun left token => (operator token.type).map fun op => do
      return .binaryExpr left op (← operand))
    fuel left

def mulDivOp : TokenType → Option BinaryOp
  | .tokenStar => some .mul
  | .tokenSlash => some .div
  | .tokenPercent => some .mod
  | _ => none

def addSubOp : TokenType → Option BinaryOp
  | .tokenPlus => some .add
  | .tokenMinus => some .sub
  | _ => none

def comparisonOp : TokenType → Option BinaryOp
  | .tokenEq => some .eq
  | .tokenNotEq => some .ne
  | .tokenLt => some .lt
  | .tokenGt => some .gt
  | .tokenLtEq => some .le
  | .tokenGtEq => some .ge
  | .tokenLike => some .like
  | _ => none

def andOp : TokenType → Option BinaryOp
  | .tokenAnd => some .and
  | _ => none

def orOp : TokenType → Option BinaryOp
  | .tokenOr => some .or
  | _ => none

def parseMulDiv : Parse Expr := leftAssoc fuel mulDivOp (parseUnary fuel parseExpr)

def parseAddSub : Parse Expr := leftAssoc fuel addSubOp (parseMulDiv fuel parseExpr)

def parseComparison : Parse Expr := do
  let left ← parseAddSub fuel parseExpr
  choose
    (fun token => (comparisonOp token.type).map fun op => do
      return .binaryExpr left op (← parseAddSub fuel parseExpr))
    (return left)

def parseNot : Parse Expr :=
  branch (·.type = .tokenNot)
    (fun _ => do return .unaryExpr .not (← parseComparison fuel parseExpr))
    (parseComparison fuel parseExpr)

def parseAnd : Parse Expr := leftAssoc fuel andOp (parseNot fuel parseExpr)

def parseOr : Parse Expr := leftAssoc fuel orOp (parseAnd fuel parseExpr)

end Expressions

def parseExpr : Nat → Parse Expr
  | 0 => fail fun _ => .outOfFuel
  | fuel + 1 => parseOr (fuel + 1) (parseExpr fuel)

/-! ### Statements -/

/-- A table with its alias and condition, behind the `JOIN`. -/
def parseJoin (fuel : Nat) : Parse JoinClause := do
  let table ← expect .tokenIdent
  let name ← branch (·.type = .tokenIdent) (fun token => return token.literal) (return [])
  let _ ← expect .tokenOn
  let on ← parseExpr fuel
  return { table := table.literal, «alias» := name, on := some on }

/-- The loop over the joins. -/
def parseJoins (fuel : Nat) : Parse (List JoinClause) :=
  loop .outOfFuel
    (fun joins token =>
      match token.type with
      | .tokenJoin => some do return joins ++ [← parseJoin fuel]
      | .tokenInner | .tokenLeft => some do
          let _ ← expect .tokenJoin
          return joins ++ [← parseJoin fuel]
      | _ => none)
    fuel []

def parseOrderClause (fuel : Nat) : Parse OrderClause := do
  let expr ← parseExpr fuel
  let desc ← flag .tokenDesc (return ())
  return { expr, desc }

def parseLimit : Parse Int := do
  let token ← expect .tokenInteger
  match parseInt token.literal with
  | none => fail fun _ => .invalidLimit token.literal
  | some n => return n.toInt

/-- `parseSelect`, behind the `SELECT`; so are the other statements. -/
def parseSelect (fuel : Nat) : Parse SelectStmt := do
  let columns ← branch (·.type = .tokenStar) (fun _ => return [.starExpr])
    (commaList fuel (parseExpr fuel))
  let _ ← expect .tokenFrom
  let table ← expect .tokenIdent
  let joins ← parseJoins fuel
  let condition ← optional .tokenWhere (parseExpr fuel)
  let groupBy ← optional .tokenGroup do
    let _ ← expect .tokenBy
    commaList fuel (parseExpr fuel)
  let having ← optional .tokenHaving (parseExpr fuel)
  let orderBy ← optional .tokenOrder do
    let _ ← expect .tokenBy
    commaList fuel (parseOrderClause fuel)
  let limit ← optional .tokenLimit parseLimit
  return { columns, «from» := table.literal, joins, «where» := condition,
           groupBy := groupBy.getD [], having, orderBy := orderBy.getD [], limit }

def parseInsert (fuel : Nat) : Parse InsertStmt := do
  let _ ← expect .tokenInto
  let table ← expect .tokenIdent
  let columns ← optional .tokenLParen do
    let columns ← commaList fuel (expect .tokenIdent)
    let _ ← expect .tokenRParen
    return columns.map (·.literal)
  let _ ← expect .tokenValues
  let values ← commaList fuel do
    let _ ← expect .tokenLParen
    let row ← commaList fuel (parseExpr fuel)
    let _ ← expect .tokenRParen
    return row
  return { table := table.literal, columns := columns.getD [], values }

def parseAssignment (fuel : Nat) : Parse Assignment := do
  let column ← expect .tokenIdent
  let _ ← expect .tokenEq
  let value ← parseExpr fuel
  return { column := column.literal, value }

def parseUpdate (fuel : Nat) : Parse UpdateStmt := do
  let table ← expect .tokenIdent
  let _ ← expect .tokenSet
  let assignments ← commaList fuel (parseAssignment fuel)
  let condition ← optional .tokenWhere (parseExpr fuel)
  return { table := table.literal, set := assignments, «where» := condition }

def parseDelete (fuel : Nat) : Parse DeleteStmt := do
  let _ ← expect .tokenFrom
  let table ← expect .tokenIdent
  let condition ← optional .tokenWhere (parseExpr fuel)
  return { table := table.literal, «where» := condition }

/-- `SET NULL`, where the `NULL` may be missing, or any other token. -/
def parseReferentialAction : Parse Bytes :=
  branch (·.type = .tokenSet)
    (fun _ => branch (·.type = .tokenNull) (fun _ => return ascii "SET NULL")
      (return ascii "SET NULL"))
    (do return (← next).literal)

/-- An action of a foreign key, behind the `ON`. -/
def parseAction (fk : ForeignKeyAST) : Parse ForeignKeyAST :=
  branch (·.type = .tokenDelete)
    (fun _ => do return { fk with onDelete := ← parseReferentialAction })
    (branch (·.type = .tokenUpdate)
      (fun _ => do return { fk with onUpdate := ← parseReferentialAction })
      (failAt .expectedDeleteOrUpdate))

def parseForeignKey (fuel : Nat) : Parse ForeignKeyAST := do
  let _ ← expect .tokenKey
  let _ ← expect .tokenLParen
  let column ← expect .tokenIdent
  let _ ← expect .tokenRParen
  let _ ← expect .tokenReferences
  let refTable ← expect .tokenIdent
  let _ ← expect .tokenLParen
  let refColumn ← expect .tokenIdent
  let _ ← expect .tokenRParen
  loop .outOfFuel (fun fk token => if token.type = .tokenOn then some (parseAction fk) else none)
    fuel { column := column.literal, refTable := refTable.literal, refColumn := refColumn.literal }

def parseColumnDef (fuel : Nat) : Parse ColumnDefAST := do
  let name ← expect .tokenIdent
  let typeName ← expect .tokenIdent
  let primaryKey ← flag .tokenPrimary do let _ ← expect .tokenKey
  let notNull ← flag .tokenNot do let _ ← expect .tokenNull
  let default ← optional .tokenDefault (parseExpr fuel)
  return { name := name.literal, typeName := typeName.literal, primaryKey, notNull, default }

/-- A column or a foreign key. -/
def parseTableItem (fuel : Nat) : Parse (ColumnDefAST ⊕ ForeignKeyAST) :=
  branch (·.type = .tokenForeign) (fun _ => .inr <$> parseForeignKey fuel)
    (.inl <$> parseColumnDef fuel)

def parseCreateTable (fuel : Nat) : Parse CreateTableStmt := do
  let name ← expect .tokenIdent
  let _ ← expect .tokenLParen
  let items ← commaList fuel (parseTableItem fuel)
  let _ ← expect .tokenRParen
  return { table := name.literal, columns := items.filterMap Sum.getLeft?,
           foreignKeys := items.filterMap Sum.getRight? }

def parseCreateIndex (unique : Bool) : Parse CreateIndexStmt := do
  let index ← expect .tokenIdent
  let _ ← expect .tokenOn
  let table ← expect .tokenIdent
  let _ ← expect .tokenLParen
  let column ← expect .tokenIdent
  let _ ← expect .tokenRParen
  return { index := index.literal, table := table.literal, column := column.literal, unique }

def parseCreate (fuel : Nat) : Parse Statement :=
  choose
    (fun token =>
      match token.type with
      | .tokenTable => some (.createTableStmt <$> parseCreateTable fuel)
      | .tokenUnique => some do
          let _ ← expect .tokenIndex
          .createIndexStmt <$> parseCreateIndex true
      | .tokenIndex => some (.createIndexStmt <$> parseCreateIndex false)
      | _ => none)
    (failAt (.expectedTableOrIndex .tokenCreate))

def parseDrop : Parse Statement :=
  choose
    (fun token =>
      match token.type with
      | .tokenTable => some do return .dropTableStmt (← expect .tokenIdent).literal
      | .tokenIndex => some do return .dropIndexStmt (← expect .tokenIdent).literal
      | _ => none)
    (failAt (.expectedTableOrIndex .tokenDrop))

def parseAnalyze : Parse Bytes :=
  branch (·.type = .tokenIdent) (fun token => return token.literal) (return [])

/-- `Parse`. -/
def parseStatement (fuel : Nat) : Parse Statement :=
  choose
    (fun token =>
      match token.type with
      | .tokenSelect => some (.selectStmt <$> parseSelect fuel)
      | .tokenInsert => some (.insertStmt <$> parseInsert fuel)
      | .tokenUpdate => some (.updateStmt <$> parseUpdate fuel)
      | .tokenDelete => some (.deleteStmt <$> parseDelete fuel)
      | .tokenCreate => some (parseCreate fuel)
      | .tokenDrop => some parseDrop
      | .tokenBegin => some (return .beginStmt)
      | .tokenCommit => some (return .commitStmt)
      | .tokenRollback => some (return .rollbackStmt)
      | .tokenAnalyze => some (.analyzeStmt <$> parseAnalyze)
      | _ => none)
    (fail fun _ => .unreadable)

/-- `NewParser` and `Parse`: the statement, and the parser behind it. -/
def parseText (input : Bytes) : Except ParseErr (Statement × Parser) := do
  let p ← newParser input
  parseStatement (input.length + 1) p

end MySQLight.Sql
