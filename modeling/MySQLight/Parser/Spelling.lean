import MySQLight.Parser.Parser

/-!
Texts whose tokens are spelled differently.

The parser goes by the types of the tokens. The literal of a token becomes
part of the statement for names, numbers and strings only, for the names of
the aggregates, and for the action of a foreign key. So texts that differ in
other literals give the same statement, and texts that differ in those of
aggregates and actions too give statements that are equal once these are
respelled. The parsers are compared with different bounds for their loops
too, so that a bound that is large enough can be replaced by another one.
-/

namespace MySQLight.Sql

open MySQLight.Data MySQLight.Effect MySQLight.Effect.Descent

/-- The tokens whose literals become part of a statement as they are. -/
def carriesLiteral : TokenType → Bool
  | .tokenIdent | .tokenInteger | .tokenFloat | .tokenString => true
  | _ => false

/-- A way to spell tokens differently, and a common spelling. -/
structure Spelling where
  tokens : Token → Token → Prop
  respell : Bytes → Bytes
  type : ∀ {t t'}, tokens t t' → t.type = t'.type
  literal : ∀ {t t'}, tokens t t' → carriesLiteral t.type = true → t.literal = t'.literal
  respelled : ∀ {t t'}, tokens t t' → respell t.literal = respell t'.literal

/-! ### Respelled statements -/

section Respell

variable (f : Bytes → Bytes)

mutual

/-- The names of the functions are respelled. -/
def Expr.respell : Expr → Expr
  | .binaryExpr left op right => .binaryExpr left.respell op right.respell
  | .unaryExpr op operand => .unaryExpr op operand.respell
  | .funcCall name args star => .funcCall (f name) (Expr.respellAll args) star
  | .columnRef table column => .columnRef table column
  | .literal kind value => .literal kind value
  | .starExpr => .starExpr

def Expr.respellAll : List Expr → List Expr
  | [] => []
  | e :: es => e.respell :: Expr.respellAll es

end

def JoinClause.respell (j : JoinClause) : JoinClause := { j with on := j.on.map (.respell f) }

def OrderClause.respell (c : OrderClause) : OrderClause := { c with expr := c.expr.respell f }

def SelectStmt.respell (stmt : SelectStmt) : SelectStmt :=
  { stmt with
    columns := stmt.columns.map (.respell f)
    joins := stmt.joins.map (.respell f)
    «where» := stmt.where.map (.respell f)
    groupBy := stmt.groupBy.map (.respell f)
    having := stmt.having.map (.respell f)
    orderBy := stmt.orderBy.map (.respell f) }

def InsertStmt.respell (stmt : InsertStmt) : InsertStmt :=
  { stmt with values := stmt.values.map (List.map (Expr.respell f)) }

def Assignment.respell (a : Assignment) : Assignment := { a with value := a.value.respell f }

def UpdateStmt.respell (stmt : UpdateStmt) : UpdateStmt :=
  { stmt with set := stmt.set.map (.respell f), «where» := stmt.where.map (.respell f) }

def DeleteStmt.respell (stmt : DeleteStmt) : DeleteStmt :=
  { stmt with «where» := stmt.where.map (.respell f) }

def ColumnDefAST.respell (c : ColumnDefAST) : ColumnDefAST :=
  { c with default := c.default.map (.respell f) }

def ForeignKeyAST.respell (fk : ForeignKeyAST) : ForeignKeyAST :=
  { fk with onDelete := f fk.onDelete, onUpdate := f fk.onUpdate }

def CreateTableStmt.respell (stmt : CreateTableStmt) : CreateTableStmt :=
  { stmt with
    columns := stmt.columns.map (.respell f)
    foreignKeys := stmt.foreignKeys.map (.respell f) }

def Statement.respell : Statement → Statement
  | .selectStmt stmt => .selectStmt (stmt.respell f)
  | .insertStmt stmt => .insertStmt (stmt.respell f)
  | .updateStmt stmt => .updateStmt (stmt.respell f)
  | .deleteStmt stmt => .deleteStmt (stmt.respell f)
  | .createTableStmt stmt => .createTableStmt (stmt.respell f)
  | stmt => stmt

theorem Expr.respellAll_eq_map (es : List Expr) :
    Expr.respellAll f es = es.map (Expr.respell f) := by
  induction es with
  | nil => rfl
  | cons e es ih => rw [Expr.respellAll, ih, List.map_cons]

end Respell

variable {S : Spelling} {α β γ δ : Type} {R : α → β → Prop} {n m : Nat}

/-- On texts that are spelled differently the parsers return related
results. -/
abbrev Same (S : Spelling) (R : α → β → Prop) (x : Parse α) (y : Parse β) : Prop :=
  Related .outOfFuel S.tokens R x y

/-- They return results that are equal once they are respelled. -/
abbrev SameBy (S : Spelling) (f : (Bytes → Bytes) → α → γ) (x y : Parse α) : Prop :=
  Same S (fun a b => f S.respell a = f S.respell b) x y

/-! ### Parts of statements -/

theorem same_branch {type : TokenType} {yes : Token → Parse α} {yes' : Token → Parse β}
    {no : Parse α} {no' : Parse β}
    (hyes : ∀ t t', S.tokens t t' → t.type = type → Same S R (yes t) (yes' t'))
    (hno : Same S R no no') :
    Same S R (branch (·.type = type) yes no) (branch (·.type = type) yes' no') :=
  .branch (fun t t' ht => by rw [S.type ht])
    (fun t t' ht htype => hyes t t' ht (of_decide_eq_true htype)) hno

theorem same_expect (type : TokenType) : Same S (fun _ _ => True) (expect type) (expect type) :=
  same_branch (fun _ _ _ _ => .pure trivial) (.fail _ _)

theorem same_literal {type : TokenType} (htype : carriesLiteral type = true) :
    Same S (fun t t' => t.literal = t'.literal) (expect type) (expect type) :=
  same_branch (fun _ _ ht hthis => .pure (S.literal ht (by rw [hthis, htype]))) (.fail _ _)

theorem Same.map {x : Parse α} {y : Parse β} (h : Same S R x y) {f : α → γ} {g : β → δ}
    {Q : γ → δ → Prop} (hfg : ∀ a b, R a b → Q (f a) (g b)) : Same S Q (f <$> x) (g <$> y) :=
  Related.bind h fun a b hab => .pure (hfg a b hab)

theorem same_optional {x y : Parse α} {f : α → γ} (type : TokenType)
    (h : Same S (fun a b => f a = f b) x y) :
    Same S (fun a b => a.map f = b.map f) (optional type x) (optional type y) :=
  same_branch (fun _ _ _ _ => h.map fun _ _ => congrArg some) (.pure rfl)

theorem same_flag {x y : Parse Unit} (type : TokenType) (h : Same S (fun _ _ => True) x y) :
    Same S Eq (flag type x) (flag type y) :=
  same_branch (fun _ _ _ _ => h.bind fun _ _ _ => .pure rfl) (.pure rfl)

theorem same_commaList {x : Parse α} {y : Parse β} (h : Same S R x y) (hnm : n ≤ m) :
    Same S (List.Forall₂ R) (commaList n x) (commaList m y) :=
  .sepBy (fun t t' ht => by rw [S.type ht]) h hnm

theorem same_list {x y : Parse α} {f : α → γ} (h : Same S (fun a b => f a = f b) x y)
    (hnm : n ≤ m) : Same S (fun as bs => as.map f = bs.map f) (commaList n x) (commaList m y) :=
  (same_commaList h hnm).mono fun as bs has => by
    have hmap := List.forall₂_map_left_iff.mpr (List.forall₂_map_right_iff.mpr has)
    rwa [List.forall₂_eq_eq_eq] at hmap

/-! ### Expressions -/

section Expressions

variable {e e' operand operand' : Parse Expr}

theorem same_parseArgs (he : SameBy S Expr.respell e e') (hnm : n ≤ m) {name name' : Bytes}
    (hname : S.respell name = S.respell name') :
    SameBy S Expr.respell (parseArgs n e name) (parseArgs m e' name') := by
  have hcall : ∀ {args args' : List Expr} (star : Bool),
      args.map (Expr.respell S.respell) = args'.map (Expr.respell S.respell) →
      Expr.respell S.respell (.funcCall name args star) =
        Expr.respell S.respell (.funcCall name' args' star) := by
    intro args args' star hargs
    rw [Expr.respell, Expr.respell, Expr.respellAll_eq_map, Expr.respellAll_eq_map, hname, hargs]
  refine same_branch (fun _ _ _ _ => (same_expect _).bind fun _ _ _ => .pure (hcall _ rfl))
    (same_branch (fun _ _ _ _ => .pure (hcall _ rfl)) ?_)
  exact (same_list he hnm).bind fun _ _ hargs => (same_expect _).bind fun _ _ _ =>
    .pure (hcall _ hargs)

theorem same_parseName (he : SameBy S Expr.respell e e') (hnm : n ≤ m) (name : Bytes) :
    SameBy S Expr.respell (parseName n e name) (parseName m e' name) := by
  refine same_branch (fun _ _ _ _ => same_parseArgs he hnm rfl) (same_branch (fun _ _ _ _ => ?_)
    (.pure rfl))
  exact (same_literal rfl).bind fun column column' hcolumn => .pure (by rw [hcolumn])

theorem same_parsePrimary (he : SameBy S Expr.respell e e') (hnm : n ≤ m) :
    SameBy S Expr.respell (parsePrimary n e) (parsePrimary m e') := by
  refine .choose (fun t t' ht => ?_) (.fail _ _)
  have hliteral := S.literal ht
  rw [← S.type ht]
  cases htype : t.type
  all_goals dsimp only
  all_goals first
    | exact .none
    | exact .some (.pure rfl)
    | exact .some (.pure (by rw [hliteral (by rw [htype]; rfl)]))
    | exact .some (he.bind fun a b hab => (same_expect _).bind fun _ _ _ => .pure hab)
    | (rw [hliteral (by rw [htype]; rfl)]; exact .some (same_parseName he hnm _))
    | exact .some ((same_expect _).bind fun _ _ _ => same_parseArgs he hnm (S.respelled ht))

theorem same_unary {op : UnaryOp} (h : SameBy S Expr.respell operand operand') :
    SameBy S Expr.respell (do return .unaryExpr op (← operand))
      (do return .unaryExpr op (← operand')) :=
  h.bind fun _ _ h => .pure (by rw [Expr.respell, h, Expr.respell])

theorem same_parseUnary (he : SameBy S Expr.respell e e') (hnm : n ≤ m) :
    SameBy S Expr.respell (parseUnary n e) (parseUnary m e') :=
  same_branch (fun _ _ _ _ => same_unary (same_parsePrimary he hnm)) (same_parsePrimary he hnm)

theorem same_binary {op : BinaryOp} {left left' : Expr}
    (hleft : left.respell S.respell = left'.respell S.respell)
    (h : SameBy S Expr.respell operand operand') :
    SameBy S Expr.respell (do return .binaryExpr left op (← operand))
      (do return .binaryExpr left' op (← operand')) :=
  h.bind fun _ _ hright => .pure (by rw [Expr.respell, hleft, hright, Expr.respell])

theorem same_leftAssoc (operator : TokenType → Option BinaryOp)
    (h : SameBy S Expr.respell operand operand') (hnm : n ≤ m) :
    SameBy S Expr.respell (leftAssoc n operator operand) (leftAssoc m operator operand') := by
  refine h.bind fun left left' hleft => .loop (fun left left' hleft t t' ht => ?_) hnm hleft
  rw [S.type ht]
  cases operator t'.type with
  | none => exact .none
  | some op => exact .some (same_binary hleft h)

theorem same_parseMulDiv (he : SameBy S Expr.respell e e') (hnm : n ≤ m) :
    SameBy S Expr.respell (parseMulDiv n e) (parseMulDiv m e') :=
  same_leftAssoc _ (same_parseUnary he hnm) hnm

theorem same_parseAddSub (he : SameBy S Expr.respell e e') (hnm : n ≤ m) :
    SameBy S Expr.respell (parseAddSub n e) (parseAddSub m e') :=
  same_leftAssoc _ (same_parseMulDiv he hnm) hnm

theorem same_parseComparison (he : SameBy S Expr.respell e e') (hnm : n ≤ m) :
    SameBy S Expr.respell (parseComparison n e) (parseComparison m e') := by
  have h := same_parseAddSub he hnm
  refine h.bind fun left left' hleft => .choose (fun t t' ht => ?_) (.pure hleft)
  rw [S.type ht]
  cases comparisonOp t'.type with
  | none => exact .none
  | some op => exact .some (same_binary hleft h)

theorem same_parseNot (he : SameBy S Expr.respell e e') (hnm : n ≤ m) :
    SameBy S Expr.respell (parseNot n e) (parseNot m e') :=
  same_branch (fun _ _ _ _ => same_unary (same_parseComparison he hnm))
    (same_parseComparison he hnm)

theorem same_parseAnd (he : SameBy S Expr.respell e e') (hnm : n ≤ m) :
    SameBy S Expr.respell (parseAnd n e) (parseAnd m e') :=
  same_leftAssoc _ (same_parseNot he hnm) hnm

theorem same_parseOr (he : SameBy S Expr.respell e e') (hnm : n ≤ m) :
    SameBy S Expr.respell (parseOr n e) (parseOr m e') :=
  same_leftAssoc _ (same_parseAnd he hnm) hnm

end Expressions

theorem same_parseExpr (hnm : n ≤ m) : SameBy S Expr.respell (parseExpr n) (parseExpr m) := by
  induction n generalizing m with
  | zero => exact .fail_out _
  | succ n ih =>
    obtain ⟨m, rfl⟩ := Nat.exists_eq_add_of_le' (Nat.le_trans (Nat.le_add_left 1 n) hnm)
    exact same_parseOr (ih (Nat.le_of_succ_le_succ hnm)) hnm

/-! ### Statements -/

theorem same_parseJoin (hnm : n ≤ m) : SameBy S JoinClause.respell (parseJoin n) (parseJoin m) := by
  have hname : Same S Eq
      (branch (·.type = .tokenIdent) (fun token => return token.literal) (return [] : Parse Bytes))
      (branch (·.type = .tokenIdent) (fun token => return token.literal) (return [])) :=
    same_branch (fun _ _ ht htype => .pure (S.literal ht (by rw [htype]; rfl))) (.pure rfl)
  refine (same_literal rfl).bind fun _ _ htable => hname.bind fun _ _ hname =>
    (same_expect _).bind fun _ _ _ => (same_parseExpr hnm).bind fun _ _ hon => .pure ?_
  simp only [JoinClause.respell, Option.map_some, htable, hname, hon]

theorem same_parseJoins (hnm : n ≤ m) :
    SameBy S (fun f => List.map (JoinClause.respell f)) (parseJoins n) (parseJoins m) := by
  refine .loop (fun joins joins' hjoins t t' ht => ?_) hnm rfl
  rw [← S.type ht]
  have hjoin : SameBy S (fun f => List.map (JoinClause.respell f))
      (do return joins ++ [← parseJoin n]) (do return joins' ++ [← parseJoin m]) :=
    (same_parseJoin hnm).bind fun j j' hj => .pure (by simp [hjoins, hj])
  cases t.type
  all_goals first
    | exact .none
    | exact .some hjoin
    | exact .some ((same_expect _).bind fun _ _ _ => hjoin)

theorem same_parseOrderClause (hnm : n ≤ m) :
    SameBy S OrderClause.respell (parseOrderClause n) (parseOrderClause m) :=
  (same_parseExpr hnm).bind fun _ _ hexpr => (same_flag _ (.pure trivial)).bind fun _ _ hdesc =>
    .pure (by simp only [OrderClause.respell, hexpr, hdesc])

theorem same_parseLimit : Same S Eq parseLimit parseLimit := by
  refine (same_literal rfl).bind fun t t' ht => ?_
  rw [ht]
  cases parseInt t'.literal with
  | none => exact .fail _ _
  | some limit => exact .pure rfl

theorem same_parseSelect (hnm : n ≤ m) :
    SameBy S SelectStmt.respell (parseSelect n) (parseSelect m) := by
  have hexpr : SameBy S Expr.respell (parseExpr n) (parseExpr m) := same_parseExpr hnm
  have hexprs := same_list hexpr hnm
  have horders := same_list (same_parseOrderClause (S := S) hnm) hnm
  have hgetD {α : Type} {f : α → α} {as bs : Option (List α)}
      (h : as.map (List.map f) = bs.map (List.map f)) :
      (as.getD []).map f = (bs.getD []).map f := by
    have := congrArg (Option.getD · []) h
    cases as <;> cases bs <;> simp_all
  have hcolumns : SameBy S (fun f => List.map (Expr.respell f))
      (branch (·.type = .tokenStar) (fun _ => return [.starExpr]) (commaList n (parseExpr n)))
      (branch (·.type = .tokenStar) (fun _ => return [.starExpr]) (commaList m (parseExpr m))) :=
    same_branch (fun _ _ _ _ => .pure rfl) hexprs
  refine hcolumns.bind fun _ _ hcolumns => (same_expect _).bind fun _ _ _ =>
    (same_literal rfl).bind fun _ _ htable => (same_parseJoins hnm).bind fun _ _ hjoins =>
    (same_optional _ hexpr).bind fun _ _ hwhere =>
    (same_optional _ ((same_expect _).bind fun _ _ _ => hexprs)).bind fun _ _ hgroupBy =>
    (same_optional _ hexpr).bind fun _ _ hhaving =>
    (same_optional _ ((same_expect _).bind fun _ _ _ => horders)).bind fun _ _ horderBy =>
    (same_optional (f := id) _ same_parseLimit).bind fun _ _ hlimit => .pure ?_
  simp only [Option.map_id_fun, id] at hlimit
  simp only [SelectStmt.respell, hcolumns, htable, hjoins, hwhere, hgetD hgroupBy, hhaving,
    hgetD horderBy, hlimit]

theorem same_parseInsert (hnm : n ≤ m) :
    SameBy S InsertStmt.respell (parseInsert n) (parseInsert m) := by
  refine (same_expect _).bind fun _ _ _ => (same_literal rfl).bind fun _ _ htable =>
    (same_optional (f := id) _ ?_).bind fun _ _ hcolumns => (same_expect _).bind fun _ _ _ =>
    (same_list (f := List.map (Expr.respell S.respell)) ?_ hnm).bind fun _ _ hvalues => .pure ?_
  · exact (same_list (same_literal rfl) hnm).bind fun ts ts' hts =>
      (same_expect _).bind fun _ _ _ => .pure hts
  · exact (same_expect _).bind fun _ _ _ => (same_list (same_parseExpr hnm) hnm).bind
      fun _ _ hrow => (same_expect _).bind fun _ _ _ => .pure hrow
  · simp only [Option.map_id_fun, id] at hcolumns
    simp only [InsertStmt.respell, htable, hcolumns, hvalues]

theorem same_parseAssignment (hnm : n ≤ m) :
    SameBy S Assignment.respell (parseAssignment n) (parseAssignment m) :=
  (same_literal rfl).bind fun _ _ hcolumn => (same_expect _).bind fun _ _ _ =>
    (same_parseExpr hnm).bind fun _ _ hvalue =>
    .pure (by simp only [Assignment.respell, hcolumn, hvalue])

theorem same_parseUpdate (hnm : n ≤ m) :
    SameBy S UpdateStmt.respell (parseUpdate n) (parseUpdate m) :=
  (same_literal rfl).bind fun _ _ htable => (same_expect _).bind fun _ _ _ =>
    (same_list (same_parseAssignment hnm) hnm).bind fun _ _ hset =>
    (same_optional _ (same_parseExpr hnm)).bind fun _ _ hwhere =>
    .pure (by simp only [UpdateStmt.respell, htable, hset, hwhere])

theorem same_parseDelete (hnm : n ≤ m) :
    SameBy S DeleteStmt.respell (parseDelete n) (parseDelete m) :=
  (same_expect _).bind fun _ _ _ => (same_literal rfl).bind fun _ _ htable =>
    (same_optional _ (same_parseExpr hnm)).bind fun _ _ hwhere =>
    .pure (by simp only [DeleteStmt.respell, htable, hwhere])

theorem same_parseReferentialAction :
    Same S (fun a b => S.respell a = S.respell b) parseReferentialAction
      parseReferentialAction := by
  refine same_branch (fun _ _ _ _ => ?_) ?_
  · exact same_branch (fun _ _ _ _ => .pure rfl) (.pure rfl)
  · exact Related.next.bind fun t t' ht => .pure (S.respelled ht)

theorem same_parseAction {fk fk' : ForeignKeyAST}
    (h : fk.respell S.respell = fk'.respell S.respell) :
    SameBy S ForeignKeyAST.respell (parseAction fk) (parseAction fk') := by
  simp only [ForeignKeyAST.respell, ForeignKeyAST.mk.injEq] at h ⊢
  refine same_branch (fun _ _ _ _ => ?_) (same_branch (fun _ _ _ _ => ?_) (.fail _ _))
  all_goals
    exact same_parseReferentialAction.bind fun a b hab =>
      .pure (by simp [ForeignKeyAST.respell, h, hab])

theorem same_parseForeignKey (hnm : n ≤ m) :
    SameBy S ForeignKeyAST.respell (parseForeignKey n) (parseForeignKey m) := by
  refine (same_expect _).bind fun _ _ _ => (same_expect _).bind fun _ _ _ =>
    (same_literal rfl).bind fun _ _ hcolumn => (same_expect _).bind fun _ _ _ =>
    (same_expect _).bind fun _ _ _ => (same_literal rfl).bind fun _ _ hrefTable =>
    (same_expect _).bind fun _ _ _ => (same_literal rfl).bind fun _ _ hrefColumn =>
    (same_expect _).bind fun _ _ _ => .loop (fun fk fk' hfk t t' ht => ?_) hnm
      (by rw [hcolumn, hrefTable, hrefColumn])
  rw [S.type ht]
  split_ifs
  · exact .some (same_parseAction hfk)
  · exact .none

theorem same_parseColumnDef (hnm : n ≤ m) :
    SameBy S ColumnDefAST.respell (parseColumnDef n) (parseColumnDef m) := by
  refine (same_literal rfl).bind fun _ _ hname => (same_literal rfl).bind fun _ _ htype =>
    (same_flag _ ?_).bind fun _ _ hprimary => (same_flag _ ?_).bind fun _ _ hnull =>
    (same_optional _ (same_parseExpr hnm)).bind fun _ _ hdefault => .pure ?_
  · exact (same_expect _).bind fun _ _ _ => .pure trivial
  · exact (same_expect _).bind fun _ _ _ => .pure trivial
  · simp only [ColumnDefAST.respell, hname, htype, hprimary, hnull, hdefault]

theorem same_parseTableItem (hnm : n ≤ m) :
    SameBy S (fun f => Sum.map (ColumnDefAST.respell f) (ForeignKeyAST.respell f))
      (parseTableItem n) (parseTableItem m) :=
  same_branch (fun _ _ _ _ => (same_parseForeignKey hnm).map fun _ _ => congrArg Sum.inr)
    ((same_parseColumnDef hnm).map fun _ _ => congrArg Sum.inl)

theorem same_parseCreateTable (hnm : n ≤ m) :
    SameBy S CreateTableStmt.respell (parseCreateTable n) (parseCreateTable m) := by
  have hsplit {γ : Type} (get : ColumnDefAST ⊕ ForeignKeyAST → Option γ) (g : γ → γ)
      (hget : ∀ a, get (Sum.map (.respell S.respell) (.respell S.respell) a) = (get a).map g)
      (items : List (ColumnDefAST ⊕ ForeignKeyAST)) :
      (items.filterMap get).map g =
        (items.map (Sum.map (.respell S.respell) (.respell S.respell))).filterMap get := by
    rw [List.filterMap_map, List.map_filterMap]
    exact congrArg (List.filterMap · items) (funext fun a => (hget a).symm)
  refine (same_literal rfl).bind fun _ _ hname => (same_expect _).bind fun _ _ _ =>
    (same_list (same_parseTableItem hnm) hnm).bind fun items items' hitems =>
    (same_expect _).bind fun _ _ _ => .pure ?_
  simp only [CreateTableStmt.respell, hname]
  rw [hsplit _ _ (by rintro (_ | _) <;> rfl), hsplit _ _ (by rintro (_ | _) <;> rfl), hitems,
    ← hsplit _ _ (by rintro (_ | _) <;> rfl), ← hsplit _ _ (by rintro (_ | _) <;> rfl)]

theorem same_parseCreateIndex (unique : Bool) :
    Same S Eq (parseCreateIndex unique) (parseCreateIndex unique) :=
  (same_literal rfl).bind fun _ _ hindex => (same_expect _).bind fun _ _ _ =>
    (same_literal rfl).bind fun _ _ htable => (same_expect _).bind fun _ _ _ =>
    (same_literal rfl).bind fun _ _ hcolumn => (same_expect _).bind fun _ _ _ =>
    .pure (by rw [hindex, htable, hcolumn])

/-- A statement without such names. -/
theorem Same.statement {x y : Parse α} (h : Same S Eq x y) (f : α → Statement) :
    SameBy S Statement.respell (f <$> x) (f <$> y) :=
  h.map fun a b hab => by rw [hab]

theorem same_parseCreate (hnm : n ≤ m) :
    SameBy S Statement.respell (parseCreate n) (parseCreate m) := by
  refine .choose (fun t t' ht => ?_) (.fail _ _)
  rw [← S.type ht]
  cases t.type
  all_goals first
    | exact .none
    | exact .some ((same_parseCreateTable hnm).map fun _ _ => congrArg Statement.createTableStmt)
    | exact .some ((same_parseCreateIndex _).statement _)
    | exact .some ((same_expect _).bind fun _ _ _ => (same_parseCreateIndex _).statement _)

theorem same_parseDrop : Same S Eq parseDrop parseDrop := by
  refine .choose (fun t t' ht => ?_) (.fail _ _)
  rw [← S.type ht]
  cases t.type
  all_goals first
    | exact .none
    | exact .some ((same_literal rfl).bind fun _ _ h => .pure (by rw [h]))

theorem same_parseAnalyze : Same S Eq parseAnalyze parseAnalyze :=
  same_branch (fun _ _ ht htype => .pure (S.literal ht (by rw [htype]; rfl))) (.pure rfl)

/-- Texts that are spelled differently give statements that are equal once
they are respelled. -/
theorem same_parseStatement (hnm : n ≤ m) :
    SameBy S Statement.respell (parseStatement n) (parseStatement m) := by
  refine .choose (fun t t' ht => ?_) (.fail _ _)
  rw [← S.type ht]
  cases t.type
  all_goals first
    | exact .none
    | exact .some (.pure rfl)
    | exact .some ((same_parseSelect hnm).map fun _ _ => congrArg Statement.selectStmt)
    | exact .some ((same_parseInsert hnm).map fun _ _ => congrArg Statement.insertStmt)
    | exact .some ((same_parseUpdate hnm).map fun _ _ => congrArg Statement.updateStmt)
    | exact .some ((same_parseDelete hnm).map fun _ _ => congrArg Statement.deleteStmt)
    | exact .some (same_parseCreate hnm)
    | exact .some (same_parseDrop.mono fun a b hab => by rw [hab])
    | exact .some (same_parseAnalyze.statement _)

end MySQLight.Sql
