import MySQLight.Parser.Printing

/-!
The parser gives back the term that a text was made of.

The functions of the parser are numbered by the levels of the precedence. At
each level the lexemes of a term are read as that term if the token behind
them does not go on with an operator of that level or a higher one
(`Stops`). A term that has another level than the function passes through to
the next function; in a term of the level itself, the operands are read by
the functions that their levels call for. In the loops, which build their
trees from the left, the invariant is that after the lexemes of a left
operand the loop goes on with that operand (`Chains`).
-/

namespace MySQLight.Sql

open MySQLight.Data MySQLight.Effect MySQLight.Effect.Descent

/-! ### Levels of the parser -/

/-- The functions of the parser by their levels. -/
def parseAt (fuel : Nat) (parseExpr : Parse Expr) : Nat → Parse Expr
  | 0 | 1 => parseOr fuel parseExpr
  | 2 => parseAnd fuel parseExpr
  | 3 => parseNot fuel parseExpr
  | 4 => parseComparison fuel parseExpr
  | 5 => parseAddSub fuel parseExpr
  | 6 => parseMulDiv fuel parseExpr
  | 7 => parseUnary fuel parseExpr
  | _ => parsePrimary fuel parseExpr

/-- The operators of a level. -/
def operatorAt : Nat → TokenType → Option BinaryOp
  | 1 => orOp
  | 2 => andOp
  | 4 => comparisonOp
  | 5 => addSubOp
  | 6 => mulDivOp
  | _ => fun _ => none

/-- The token does not go on with a term of the level. -/
def Stops (k : Nat) (type : TokenType) : Prop :=
  type ≠ .tokenLParen ∧ type ≠ .tokenDot ∧ ∀ j, k ≤ j → operatorAt j type = none

theorem Stops.mono {k k' : Nat} {type : TokenType} (h : Stops k type) (hk : k ≤ k') :
    Stops k' type :=
  ⟨h.1, h.2.1, fun j hj => h.2.2 j (hk.trans hj)⟩

theorem operatorAt_level (op : BinaryOp) : operatorAt op.level op.lexeme.type = some op := by
  cases op <;> decide

theorem operatorAt_of_high {j : Nat} (hj : 7 ≤ j) (type : TokenType) :
    operatorAt j type = none := by
  rw [operatorAt.eq_def]
  split <;> first | omega | rfl

theorem stops_of_le {k : Nat} {type : TokenType} (hparen : type ≠ .tokenLParen)
    (hdot : type ≠ .tokenDot) (h : ∀ j < 7, k ≤ j → operatorAt j type = none) :
    Stops k type := by
  refine ⟨hparen, hdot, fun j hj => ?_⟩
  by_cases hj' : j < 7
  · exact h j hj' hj
  · exact operatorAt_of_high (by omega) type

theorem stops_operator (op : BinaryOp) : Stops (op.level + 1) op.lexeme.type := by
  refine stops_of_le ?_ ?_ ?_ <;> cases op <;> decide

theorem stops_rparen : Stops 1 rparen.type := stops_of_le (by decide) (by decide) (by decide)

theorem stops_comma : Stops 1 comma.type := stops_of_le (by decide) (by decide) (by decide)

theorem stops_eof : Stops 1 .tokenEOF := stops_of_le (by decide) (by decide) (by decide)

theorem BinaryOp.level_bounds (op : BinaryOp) : 1 ≤ op.level ∧ op.level ≤ 6 := by
  cases op <;> decide

theorem BinaryOp.level_le_leftLevel (op : BinaryOp) : op.level ≤ op.leftLevel := by
  cases op <;> decide

namespace Term

theorem one_le_level (t : Term) : 1 ≤ t.level := by
  cases t with
  | binary l op r => exact op.level_bounds.1
  | _ => simp [level]

variable {t : Term} {k : Nat}

theorem lexemesAt_of_le (h : k ≤ t.level) : t.lexemesAt k = t.lexemes := by
  rw [lexemesAt, parens, if_neg (by simpa using h)]

theorem lexemesAt_of_lt (h : t.level < k) : t.lexemesAt k = lparen :: (t.lexemes ++ [rparen]) := by
  rw [lexemesAt, parens, if_pos (by simpa using h)]

/-- Between two levels parentheses are added only at the level of the term. -/
theorem lexemesAt_succ (h : t.level ≠ k) : t.lexemesAt k = t.lexemesAt (k + 1) := by
  obtain h | h := Nat.lt_or_gt_of_ne h
  · rw [lexemesAt_of_lt h, lexemesAt_of_lt (by omega)]
  · rw [lexemesAt_of_le h.le, lexemesAt_of_le h]

/-- What a term can begin with where an operand of some level is expected. -/
def Begins (k : Nat) (type : TokenType) : Prop :=
  (type = .tokenNot → k ≤ 3) ∧ (type = .tokenMinus → k ≤ 7) ∧ type ≠ .tokenStar ∧
    type ≠ .tokenRParen

theorem Begins.mono {k' : Nat} {type : TokenType} (h : Begins k' type) (hk : k ≤ k') :
    Begins k type :=
  ⟨fun ht => hk.trans (h.1 ht), fun ht => hk.trans (h.2.1 ht), h.2.2⟩

theorem begins_lparen (k : Nat) : Begins k lparen.type := ⟨nofun, nofun, nofun, nofun⟩

theorem begins_word {w : List Char} (hw : isFunction (wordType w)) (k : Nat) :
    Begins k (wordType w) := by
  rw [isFunction, decide_eq_true_eq] at hw
  generalize wordType w = type at hw
  refine ⟨?_, ?_, ?_, ?_⟩ <;> rintro rfl <;> exact absurd hw (by decide)

theorem isFunction_name (name : Name) : isFunction (wordType name) := by
  rw [name.2.2]
  decide

theorem begins_lexemesAt (h : ∃ x xs, t.lexemes = x :: xs ∧ Begins t.level x.type) (k : Nat) :
    ∃ x xs, t.lexemesAt k = x :: xs ∧ Begins k x.type := by
  obtain hk | hk := Nat.lt_or_ge t.level k
  · exact ⟨_, _, lexemesAt_of_lt hk, begins_lparen k⟩
  · obtain ⟨x, xs, hx, hbegins⟩ := h
    exact ⟨x, xs, (lexemesAt_of_le hk).trans hx, hbegins.mono hk⟩

theorem begins_lexemes : (t : Term) → ∃ x xs, t.lexemes = x :: xs ∧ Begins t.level x.type
  | .integer _ | .float _ _ | .string _ => ⟨_, _, rfl, nofun, nofun, nofun, nofun⟩
  | .null => ⟨_, _, rfl, by decide, by decide, by decide, by decide⟩
  | .column name => ⟨_, _, rfl, begins_word (isFunction_name name) 8⟩
  | .qualified table _ => ⟨_, _, rfl, begins_word (isFunction_name table) 8⟩
  | .call name _ | .callStar name => ⟨_, _, rfl, begins_word name.2.2 8⟩
  | .neg _ => ⟨_, _, rfl, nofun, fun _ => Nat.le_refl 7, nofun, nofun⟩
  | .not _ => ⟨_, _, rfl, fun _ => Nat.le_refl 3, fun h => absurd h (by decide), by decide,
      by decide⟩
  | .binary l op r => by
      obtain ⟨x, xs, hx, hbegins⟩ := begins_lexemesAt l.begins_lexemes op.leftLevel
      have hlexemes : (Term.binary l op r).lexemes =
          x :: (xs ++ op.lexeme :: r.lexemesAt op.rightLevel) := by
        rw [← List.cons_append, ← hx, lexemes]
        rfl
      exact ⟨x, _, hlexemes, hbegins.mono op.level_le_leftLevel⟩

end Term

/-! ### Single tokens -/

variable {p : Parser}

theorem Shows.type {q : Parser} {x : Lexeme} {xs : List Lexeme} (h : Shows p (x :: xs) q) :
    p.current.type = x.type := h.1.1

theorem Shows.begins {q : Parser} {t : Term} {k : Nat} (h : Shows p (t.lexemesAt k) q) :
    Term.Begins k p.current.type := by
  obtain ⟨x, xs, hx, hbegins⟩ := Term.begins_lexemesAt t.begins_lexemes k
  rw [hx] at h
  rwa [h.type]

theorem branch_of_type {α : Type} {type : TokenType} {yes : Token → Parse α} {no : Parse α}
    (h : p.current.type = type) : branch (·.type = type) yes no p = yes p.current p.shift :=
  branch_of_accept (decide_eq_true h)

theorem branch_of_type_ne {α : Type} {type : TokenType} {yes : Token → Parse α} {no : Parse α}
    (h : p.current.type ≠ type) : branch (·.type = type) yes no p = no p :=
  branch_of_not (decide_eq_false h)

theorem expect_of_type {type : TokenType} (h : p.current.type = type) :
    expect type p = .ok (p.current, p.shift) :=
  branch_of_type h

/-! ### Arguments -/

/-- What the parentheses and the arguments call reads the terms of up to `n`
lexemes. -/
def Inner (n : Nat) (parseExpr : Parse Expr) : Prop :=
  ∀ (t : Term) p q, t.lexemes.length ≤ n → Shows p t.lexemes q → Stops 1 q.current.type →
    parseExpr p = .ok (t.expr, q)

section Levels

variable {n : Nat} {parseExpr : Parse Expr} {t : Term} {p q : Parser}

theorem stops_argLexemes {ts : List Term} (h : Shows p (Term.argLexemes [comma] ts) q)
    (hq : q.current.type = .tokenRParen) : Stops 1 p.current.type := by
  cases ts with
  | nil =>
    obtain rfl : q = p := h
    rw [hq]
    exact stops_rparen
  | cons t ts =>
    rw [Term.argLexemes, List.singleton_append] at h
    rw [h.type]
    exact stops_comma

theorem loop_args (he : Inner n parseExpr) (ts : List Term) (items : List Expr) (fuel : Nat)
    (hfuel : ts.length < fuel) (hn : (Term.argLexemes [comma] ts).length ≤ n)
    (h : Shows p (Term.argLexemes [comma] ts) q) (hq : q.current.type = .tokenRParen) :
    loop .outOfFuel
      (fun items (token : Token) =>
        if decide (token.type = .tokenComma) = true then some do return items ++ [← parseExpr]
        else none)
      fuel items p = .ok (items ++ Term.exprs ts, q) := by
  induction ts generalizing items fuel p with
  | nil =>
    obtain rfl : q = p := h
    obtain _ | fuel := fuel
    · cases hfuel
    have hstop : q.current.type ≠ .tokenComma := by rw [hq]; decide
    rw [loop_of_none (if_neg (mt of_decide_eq_true hstop)), Term.exprs, List.append_nil]
  | cons t ts ih =>
    obtain _ | fuel := fuel
    · cases hfuel
    rw [Term.argLexemes, List.singleton_append] at h hn
    rw [List.length_cons, List.length_append] at hn
    rw [List.length_cons] at hfuel
    have hcomma : p.current.type = .tokenComma := h.type
    obtain ⟨m, ht, hts⟩ := h.2.split
    have hitem : parseExpr p.shift = .ok (t.expr, m) :=
      he t _ _ (by omega) ht (stops_argLexemes hts hq)
    have hmore : (do return items ++ [← parseExpr] : Parse (List Expr)) p.shift =
        .ok (items ++ [t.expr], m) := by
      rw [bind_of_ok hitem, pure_apply]
    rw [loop_of_some (if_pos (decide_eq_true hcomma))]
    refine (bind_of_ok hmore).trans ?_
    rw [ih (items ++ [t.expr]) fuel (by omega) (by omega) hts, Term.exprs, List.append_assoc,
      List.singleton_append]

theorem length_le_argLexemes (ts : List Term) :
    ts.length ≤ (Term.argLexemes [comma] ts).length := by
  induction ts with
  | nil => exact Nat.zero_le _
  | cons t ts ih =>
    rw [Term.argLexemes, List.singleton_append, List.length_cons, List.length_cons,
      List.length_append]
    omega

theorem parseArgs_of_shows (he : Inner n parseExpr) (name : Bytes) {ts : List Term}
    (hn : (Term.argLexemes [] ts).length ≤ n)
    (h : Shows p (Term.argLexemes [] ts ++ [rparen]) q) :
    parseArgs (n + 1) parseExpr name p = .ok (.funcCall name (Term.exprs ts) false, q) := by
  cases ts with
  | nil =>
    have hparen : p.current.type = .tokenRParen := h.type
    obtain rfl : q = p.shift := h.2
    rw [parseArgs, branch_of_type_ne (by rw [hparen]; decide), branch_of_type hparen, pure_apply]
    rfl
  | cons t ts =>
    rw [Term.argLexemes, List.nil_append] at h hn
    rw [List.length_append] at hn
    rw [List.append_assoc] at h
    obtain ⟨m, ht, h⟩ := h.split
    obtain ⟨m', hts, hparen⟩ := h.split
    have htype : m'.current.type = .tokenRParen := hparen.type
    obtain rfl : q = m'.shift := hparen.2
    have hbegins : Term.Begins 1 p.current.type := by
      rw [← Term.lexemesAt_of_le t.one_le_level] at ht
      exact ht.begins
    have hargs : commaList (n + 1) parseExpr p = .ok (Term.exprs (t :: ts), m') := by
      rw [commaList, sepBy, bind_of_ok (he t p m (by omega) ht (stops_argLexemes hts htype)),
        loop_args he ts [t.expr] (n + 1) ?_ (by omega) hts htype]
      · rfl
      · have hlength := length_le_argLexemes ts
        omega
    rw [parseArgs, branch_of_type_ne hbegins.2.2.1, branch_of_type_ne hbegins.2.2.2,
      bind_of_ok hargs,
      bind_of_ok (expect_of_type htype), pure_apply]

/-! ### One level after the other -/

/-- The function of the level reads the term. -/
def ParsesAt (n : Nat) (parseExpr : Parse Expr) (k : Nat) (t : Term) : Prop :=
  ∀ p q, (t.lexemesAt k).length ≤ n + 1 → Shows p (t.lexemesAt k) q → Stops k q.current.type →
    parseAt (n + 1) parseExpr k p = .ok (t.expr, q)

theorem parsePrimary_call (name : FunctionName) {m : Parser}
    (h : Shows p [.word name name.2.1, lparen] m) :
    parsePrimary (n + 1) parseExpr p = parseArgs (n + 1) parseExpr (utf8 name) m := by
  obtain ⟨⟨htype, hliteral⟩, hparen, rfl⟩ := h
  have hparen : p.shift.current.type = .tokenLParen := hparen.1
  have hname := name.2.2
  change p.current.type = wordType name at htype
  rw [← htype, isFunction, decide_eq_true_eq] at hname
  have hfunction : parsePrimary (n + 1) parseExpr p =
        parseName (n + 1) parseExpr p.current.literal p.shift ∨
      parsePrimary (n + 1) parseExpr p = (do
        let _ ← expect .tokenLParen
        Sql.parseArgs (n + 1) parseExpr p.current.literal) p.shift := by
    simp only [List.mem_cons, List.not_mem_nil, or_false] at hname
    obtain h | h | h | h | h | h := hname
    · refine .inl (choose_of_some ?_)
      simp only [Source.current, h]
    all_goals
      refine .inr (choose_of_some ?_)
      simp only [Source.current, h]
  obtain hcall | hcall := hfunction
  · rw [hcall, parseName, branch_of_type hparen, hliteral]
    rfl
  · rw [hcall, bind_of_ok (expect_of_type hparen), hliteral]
    rfl

theorem parsePrimary_parens (he : Inner n parseExpr) (hn : t.lexemes.length ≤ n)
    (h : Shows p (lparen :: (t.lexemes ++ [rparen])) q) :
    parsePrimary (n + 1) parseExpr p = .ok (t.expr, q) := by
  have hlparen : p.current.type = .tokenLParen := h.type
  obtain ⟨m, ht, hrparen⟩ := h.2.split
  have htype : m.current.type = .tokenRParen := hrparen.type
  obtain rfl : q = m.shift := hrparen.2
  have hinner : parseExpr p.shift = .ok (t.expr, m) :=
    he t _ _ hn ht (by rw [htype]; exact stops_rparen)
  have hchoose : parsePrimary (n + 1) parseExpr p = (do
      let expr ← parseExpr
      let _ ← expect .tokenRParen
      return expr : Parse Expr) p.shift := by
    refine choose_of_some ?_
    simp only [Source.current, hlparen]
  rw [hchoose, bind_of_ok hinner, bind_of_ok (expect_of_type htype), pure_apply]

theorem parsePrimary_name {name : Name} (htype : p.current.type = wordType name) :
    parsePrimary (n + 1) parseExpr p =
      parseName (n + 1) parseExpr p.current.literal p.shift := by
  rw [name.2.2] at htype
  refine choose_of_some ?_
  simp only [Source.current, htype]

theorem parsePrimary_literal (type : TokenType) (kind : LiteralKind)
    (hkind : (type, kind) ∈
      [(.tokenInteger, .integer), (.tokenFloat, .float), (.tokenString, .string)])
    (htype : p.current.type = type) :
    parsePrimary (n + 1) parseExpr p = .ok (.literal kind p.current.literal, p.shift) := by
  have hchoose : parsePrimary (n + 1) parseExpr p =
      (pure (.literal kind p.current.literal) : Parse Expr) p.shift := by
    refine choose_of_some ?_
    simp only [List.mem_cons, Prod.mk.injEq, List.not_mem_nil, or_false] at hkind
    obtain ⟨rfl, rfl⟩ | ⟨rfl, rfl⟩ | ⟨rfl, rfl⟩ := hkind <;> simp only [Source.current, htype]
  rw [hchoose, pure_apply]

theorem parsePrimary_null (htype : p.current.type = .tokenNull) :
    parsePrimary (n + 1) parseExpr p = .ok (.literal .null (ascii "NULL"), p.shift) := by
  have hchoose : parsePrimary (n + 1) parseExpr p =
      (pure (.literal .null (ascii "NULL")) : Parse Expr) p.shift := by
    refine choose_of_some ?_
    simp only [Source.current, htype]
  rw [hchoose, pure_apply]

theorem parsesAt_primary (he : Inner n parseExpr) : ParsesAt n parseExpr 8 t := by
  intro p q hn h hstops
  show parsePrimary (n + 1) parseExpr p = _
  obtain hlevel | hlevel := Nat.lt_or_ge t.level 8
  · rw [Term.lexemesAt_of_lt hlevel] at h hn
    rw [List.length_cons, List.length_append] at hn
    exact parsePrimary_parens he (by omega) h
  rw [Term.lexemesAt_of_le hlevel] at h hn
  cases t with
  | integer digits =>
    obtain ⟨⟨htype, hliteral⟩, rfl⟩ := h
    rw [parsePrimary_literal .tokenInteger .integer (by decide) htype, hliteral]
    rfl
  | float digits fraction =>
    obtain ⟨⟨htype, hliteral⟩, rfl⟩ := h
    rw [parsePrimary_literal .tokenFloat .float (by decide) htype, hliteral]
    rfl
  | string s =>
    obtain ⟨⟨htype, hliteral⟩, rfl⟩ := h
    rw [parsePrimary_literal .tokenString .string (by decide) htype, hliteral]
    rfl
  | null =>
    obtain ⟨⟨htype, -⟩, rfl⟩ := h
    rw [parsePrimary_null (htype.trans (by decide)), Term.expr]
  | column name =>
    obtain ⟨⟨htype, hliteral⟩, rfl⟩ := h
    rw [parsePrimary_name htype, parseName, branch_of_type_ne hstops.1,
      branch_of_type_ne hstops.2.1, pure_apply, hliteral]
    rfl
  | qualified table name =>
    obtain ⟨⟨htype, hliteral⟩, hdot, ⟨hname, hcolumn⟩, rfl⟩ := h
    have hdot : p.shift.current.type = .tokenDot := hdot.1
    have hname : p.shift.shift.current.type = .tokenIdent := hname.trans name.2.2
    rw [parsePrimary_name htype, parseName, branch_of_type_ne (by rw [hdot]; decide),
      branch_of_type hdot, bind_of_ok (expect_of_type hname), pure_apply, hliteral, hcolumn]
    rfl
  | call name args =>
    have h : Shows p ([.word name name.2.1, lparen] ++ (Term.argLexemes [] args ++ [rparen])) q :=
      by rwa [Term.lexemes] at h
    obtain ⟨m, hcall, hargs⟩ := h.split
    rw [Term.lexemes, List.length_cons, List.length_cons, List.length_append] at hn
    rw [parsePrimary_call name hcall, parseArgs_of_shows he _ (by omega) hargs, Term.expr]
  | callStar name =>
    have h : Shows p ([.word name name.2.1, lparen] ++
        [.operator '*' (by decide) (by decide), rparen]) q := by rwa [Term.lexemes] at h
    obtain ⟨m, hcall, hstar, hrparen, rfl⟩ := h.split
    have hstar : m.current.type = .tokenStar := hstar.1
    have hrparen : m.shift.current.type = .tokenRParen := hrparen.1
    rw [parsePrimary_call name hcall, parseArgs, branch_of_type hstar,
      bind_of_ok (expect_of_type hrparen), pure_apply, Term.expr]
  | neg operand | not operand => exact absurd hlevel (by rw [Term.level]; decide)
  | binary l op r =>
    have hbounds := op.level_bounds
    rw [Term.level] at hlevel
    omega

variable {k : Nat}

/-- A term that has another level is read by the next function. -/
theorem ParsesAt.pass (h : ParsesAt n parseExpr (k + 1) t) (hlevel : t.level ≠ k)
    (hpass : ∀ p q, Term.Begins (k + 1) p.current.type → Stops k q.current.type →
      parseAt (n + 1) parseExpr (k + 1) p = .ok (t.expr, q) →
      parseAt (n + 1) parseExpr k p = .ok (t.expr, q)) : ParsesAt n parseExpr k t := by
  intro p q hn hshows hstops
  rw [Term.lexemesAt_succ hlevel] at hn hshows
  exact hpass p q hshows.begins hstops (h p q hn hshows (hstops.mono (Nat.le_succ k)))

theorem parsesAt_unary (h : ParsesAt n parseExpr 8 t)
    (hneg : ∀ operand, t = .neg operand → ParsesAt n parseExpr 8 operand) :
    ParsesAt n parseExpr 7 t := by
  by_cases hlevel : t.level = 7
  · obtain ⟨operand, rfl⟩ : ∃ operand, t = .neg operand := by
      cases t with
      | neg operand => exact ⟨operand, rfl⟩
      | binary l op r =>
        have hbounds := op.level_bounds
        rw [Term.level] at hlevel
        omega
      | _ => simp [Term.level] at hlevel
    intro p q hn hshows hstops
    rw [Term.lexemesAt_of_le (by rw [hlevel]), Term.lexemes] at hn hshows
    rw [List.length_cons] at hn
    have hminus : p.current.type = .tokenMinus := hshows.type
    have hoperand : parsePrimary (n + 1) parseExpr p.shift = .ok (operand.expr, q) :=
      hneg operand rfl _ q (by rw [Term.lexemesAt]; omega) hshows.2 (hstops.mono (by decide))
    show parseUnary (n + 1) parseExpr p = _
    rw [parseUnary, branch_of_type hminus, bind_of_ok hoperand, pure_apply, Term.expr]
  · refine h.pass hlevel fun p q hbegins _ hoperand => ?_
    show parseUnary (n + 1) parseExpr p = _
    rw [parseUnary, branch_of_type_ne fun hminus => absurd (hbegins.2.1 hminus) (by decide)]
    exact hoperand

theorem parsesAt_not (h : ParsesAt n parseExpr 4 t)
    (hnot : ∀ operand, t = .not operand → ParsesAt n parseExpr 4 operand) :
    ParsesAt n parseExpr 3 t := by
  by_cases hlevel : t.level = 3
  · obtain ⟨operand, rfl⟩ : ∃ operand, t = .not operand := by
      cases t with
      | not operand => exact ⟨operand, rfl⟩
      | binary l op r => cases op <;> cases hlevel
      | _ => simp [Term.level] at hlevel
    intro p q hn hshows hstops
    rw [Term.lexemesAt_of_le (by rw [hlevel]), Term.lexemes] at hn hshows
    rw [List.length_cons] at hn
    have hword : p.current.type = .tokenNot := hshows.type.trans (by decide)
    have hoperand : parseComparison (n + 1) parseExpr p.shift = .ok (operand.expr, q) :=
      hnot operand rfl _ q (by rw [Term.lexemesAt]; omega) hshows.2 (hstops.mono (by decide))
    show parseNot (n + 1) parseExpr p = _
    rw [parseNot, branch_of_type hword, bind_of_ok hoperand, pure_apply, Term.expr]
  · refine h.pass hlevel fun p q hbegins _ hoperand => ?_
    show parseNot (n + 1) parseExpr p = _
    rw [parseNot, branch_of_type_ne fun hword => absurd (hbegins.1 hword) (by decide)]
    exact hoperand

/-- The operators of a level are between terms. -/
theorem binary_of_level (hk : k = 1 ∨ k = 2 ∨ k = 4 ∨ k = 5 ∨ k = 6) (hlevel : t.level = k) :
    ∃ l op r, t = .binary l op r ∧ op.level = k := by
  cases t with
  | binary l op r => exact ⟨l, op, r, rfl, hlevel⟩
  | _ =>
    subst hlevel
    simp [Term.level] at hk

theorem lexemesAt_binary (l r : Term) (op : BinaryOp) :
    (Term.binary l op r).lexemesAt op.level =
      l.lexemesAt op.leftLevel ++ op.lexeme :: r.lexemesAt op.rightLevel := by
  have hlexemes : (Term.binary l op r).lexemesAt op.level = (Term.binary l op r).lexemes :=
    Term.lexemesAt_of_le (Nat.le_refl op.level)
  rw [hlexemes, Term.lexemes]
  rfl

theorem shows_binary {l r : Term} {op : BinaryOp}
    (h : Shows p ((Term.binary l op r).lexemesAt op.level) q) :
    ∃ m, Shows p (l.lexemesAt op.leftLevel) m ∧ m.current.type = op.lexeme.type ∧
      Shows m.shift (r.lexemesAt op.rightLevel) q := by
  rw [lexemesAt_binary] at h
  obtain ⟨m, hl, hr⟩ := h.split
  exact ⟨m, hl, hr.type, hr.2⟩

theorem length_binary (l r : Term) (op : BinaryOp) :
    ((Term.binary l op r).lexemesAt op.level).length =
      (l.lexemesAt op.leftLevel).length + (r.lexemesAt op.rightLevel).length + 1 := by
  rw [lexemesAt_binary, List.length_append, List.length_cons, Nat.add_assoc]

theorem parsesAt_comparison (h : ParsesAt n parseExpr 5 t)
    (hbinary : ∀ l op r, t = .binary l op r →
      ParsesAt n parseExpr 5 l ∧ ParsesAt n parseExpr 5 r) :
    ParsesAt n parseExpr 4 t := by
  by_cases hlevel : t.level = 4
  · obtain ⟨l, op, r, rfl, hop⟩ := binary_of_level (by decide) hlevel
    obtain ⟨hl, hr⟩ := hbinary l op r rfl
    have hleft : op.leftLevel = 5 := by rw [BinaryOp.leftLevel, if_pos hop]
    have hright : op.rightLevel = 5 := by rw [BinaryOp.rightLevel, hop]
    have hoperator := operatorAt_level op
    have hstop := stops_operator op
    intro p q hn hshows hstops
    have hlength := length_binary l r op
    rw [hop, hleft, hright] at hlength
    rw [hop] at hoperator hstop
    rw [← hop] at hshows
    obtain ⟨m, hml, hm, hmr⟩ := shows_binary hshows
    rw [hleft] at hml
    rw [hright] at hmr
    rw [← hm] at hoperator hstop
    have hparsel : parseAddSub (n + 1) parseExpr p = .ok (l.expr, m) :=
      hl p m (by omega) hml hstop
    have hparser : parseAddSub (n + 1) parseExpr m.shift = .ok (r.expr, q) :=
      hr _ q (by omega) hmr (hstops.mono (by decide))
    show parseComparison (n + 1) parseExpr p = _
    have hsome : (comparisonOp m.current.type).map (fun op => (do
        return .binaryExpr l.expr op (← parseAddSub (n + 1) parseExpr) : Parse Expr)) =
        some (do return .binaryExpr l.expr op (← parseAddSub (n + 1) parseExpr)) :=
      congrArg (Option.map _) hoperator
    rw [parseComparison, bind_of_ok hparsel, choose_of_some hsome]
    exact (bind_of_ok hparser).trans rfl
  · refine h.pass hlevel fun p q _ hstops hoperand => ?_
    have hoperand : parseAddSub (n + 1) parseExpr p = .ok (t.expr, q) := hoperand
    have hnone : comparisonOp q.current.type = none := hstops.2.2 4 (Nat.le_refl 4)
    show parseComparison (n + 1) parseExpr p = _
    rw [parseComparison, bind_of_ok hoperand, choose_of_none (congrArg (Option.map _) hnone),
      pure_apply]

/-! ### Chains of operators -/

/-- The rounds of a loop over operators. -/
def round (operator : TokenType → Option BinaryOp) (operand : Parse Expr) (left : Expr)
    (token : Token) : Option (Parse Expr) :=
  (operator token.type).map fun op => do return .binaryExpr left op (← operand)

/-- After the lexemes of a term the loop of the level goes on with the term. -/
def Chains (n : Nat) (parseExpr : Parse Expr) (k : Nat) (t : Term) : Prop :=
  ∀ p q, (t.lexemesAt k).length ≤ n + 1 → Shows p (t.lexemesAt k) q →
    Stops (k + 1) q.current.type →
    ∃ rounds < (t.lexemesAt k).length, ∀ fuel,
      (parseAt (n + 1) parseExpr (k + 1) >>=
          loop .outOfFuel (round (operatorAt k) (parseAt (n + 1) parseExpr (k + 1)))
            (fuel + rounds)) p =
        loop .outOfFuel (round (operatorAt k) (parseAt (n + 1) parseExpr (k + 1))) fuel t.expr q

theorem length_lexemesAt_pos (t : Term) (k : Nat) : 0 < (t.lexemesAt k).length := by
  obtain ⟨x, xs, hx, -⟩ := Term.begins_lexemesAt t.begins_lexemes k
  rw [hx]
  exact Nat.succ_pos _

theorem chains_of_level (hk : k = 1 ∨ k = 2 ∨ k = 5 ∨ k = 6) (h : ParsesAt n parseExpr (k + 1) t)
    (hbinary : ∀ l op r, t = .binary l op r → Chains n parseExpr k l ∧
      ParsesAt n parseExpr (k + 1) r) : Chains n parseExpr k t := by
  intro p q hn hshows hstops
  by_cases hlevel : t.level = k
  · obtain ⟨l, op, r, rfl, rfl⟩ := binary_of_level (by tauto) hlevel
    obtain ⟨hl, hr⟩ := hbinary l op r rfl
    have hleft : op.leftLevel = op.level := by
      rw [BinaryOp.leftLevel, if_neg (by omega)]
    have hlength := length_binary l r op
    obtain ⟨m, hml, hm, hmr⟩ := shows_binary hshows
    rw [hleft] at hml hlength
    rw [BinaryOp.rightLevel] at hmr hlength
    have hoperator := operatorAt_level op
    rw [← hm] at hoperator
    obtain ⟨rounds, hrounds, hchain⟩ := hl p m (by omega) hml (hm ▸ stops_operator op)
    have hparser := hr _ q (by omega) hmr hstops
    refine ⟨rounds + 1, by omega, fun fuel => ?_⟩
    rw [show fuel + (rounds + 1) = fuel + 1 + rounds by omega, hchain (fuel + 1),
      loop_of_some (congrArg (Option.map _) hoperator)]
    refine bind_of_ok ?_
    exact (bind_of_ok hparser).trans rfl
  · rw [Term.lexemesAt_succ hlevel] at hn hshows
    refine ⟨0, length_lexemesAt_pos t k, fun fuel => ?_⟩
    exact bind_of_ok (h p q hn hshows hstops)

theorem Chains.parsesAt (h : Chains n parseExpr k t)
    (hk : parseAt (n + 1) parseExpr k =
      leftAssoc (n + 1) (operatorAt k) (parseAt (n + 1) parseExpr (k + 1))) :
    ParsesAt n parseExpr k t := by
  intro p q hn hshows hstops
  obtain ⟨rounds, hrounds, hchain⟩ := h p q hn hshows (hstops.mono (Nat.le_succ k))
  obtain ⟨fuel, hfuel⟩ := Nat.exists_eq_add_of_lt (Nat.lt_of_lt_of_le hrounds hn)
  have hnone : operatorAt k q.current.type = none := hstops.2.2 k (Nat.le_refl k)
  have hloop := hchain (fuel + 1)
  rw [loop_of_none (congrArg (Option.map _) hnone)] at hloop
  rw [hk, leftAssoc, ← hloop, show n + 1 = fuel + 1 + rounds by omega]
  rfl

/-! ### All levels -/

/-- The functions of all levels read the term. -/
structure Readable (n : Nat) (parseExpr : Parse Expr) (t : Term) : Prop where
  parses : ∀ k, 1 ≤ k → k ≤ 8 → ParsesAt n parseExpr k t
  chains : ∀ k, k = 1 ∨ k = 2 ∨ k = 5 ∨ k = 6 → Chains n parseExpr k t

/-- From the highest level down, with the operands given. -/
theorem readable_of_operands (he : Inner n parseExpr)
    (hneg : ∀ operand, t = .neg operand → Readable n parseExpr operand)
    (hnot : ∀ operand, t = .not operand → Readable n parseExpr operand)
    (hbinary : ∀ l op r, t = .binary l op r →
      Readable n parseExpr l ∧ Readable n parseExpr r) :
    Readable n parseExpr t := by
  have hchains : ∀ k, k = 1 ∨ k = 2 ∨ k = 5 ∨ k = 6 → ParsesAt n parseExpr (k + 1) t →
      Chains n parseExpr k t := by
    intro k hk h
    refine chains_of_level hk h fun l op r ht => ?_
    obtain ⟨hl, hr⟩ := hbinary l op r ht
    exact ⟨hl.chains k hk, hr.parses (k + 1) (by omega) (by omega)⟩
  have h8 : ParsesAt n parseExpr 8 t := parsesAt_primary he
  have h7 : ParsesAt n parseExpr 7 t :=
    parsesAt_unary h8 fun operand ht => (hneg operand ht).parses 8 (by decide) (by decide)
  have c6 := hchains 6 (by decide) h7
  have h6 := c6.parsesAt rfl
  have c5 := hchains 5 (by decide) h6
  have h5 := c5.parsesAt rfl
  have h4 : ParsesAt n parseExpr 4 t := by
    refine parsesAt_comparison h5 fun l op r ht => ?_
    obtain ⟨hl, hr⟩ := hbinary l op r ht
    exact ⟨hl.parses 5 (by decide) (by decide), hr.parses 5 (by decide) (by decide)⟩
  have h3 : ParsesAt n parseExpr 3 t :=
    parsesAt_not h4 fun operand ht => (hnot operand ht).parses 4 (by decide) (by decide)
  have c2 := hchains 2 (by decide) h3
  have h2 := c2.parsesAt rfl
  have c1 := hchains 1 (by decide) h2
  have h1 := c1.parsesAt rfl
  refine ⟨fun k hlow hhigh => ?_, ?_⟩
  · interval_cases k <;> assumption
  · rintro k (rfl | rfl | rfl | rfl) <;> assumption

theorem readable (he : Inner n parseExpr) : (t : Term) → Readable n parseExpr t
  | .neg operand =>
    readable_of_operands he (by rintro _ ⟨⟩; exact readable he operand) nofun nofun
  | .not operand =>
    readable_of_operands he nofun (by rintro _ ⟨⟩; exact readable he operand) nofun
  | .binary l _ r =>
    readable_of_operands he nofun nofun
      (by rintro _ _ _ ⟨⟩; exact ⟨readable he l, readable he r⟩)
  | .integer _ | .float _ _ | .string _ | .null | .column _ | .qualified _ _ | .call _ _
  | .callStar _ => readable_of_operands he nofun nofun nofun

end Levels

theorem inner_parseExpr (n : Nat) : Inner n (parseExpr n) := by
  induction n with
  | zero =>
    intro t p q hn h
    have hpos := length_lexemesAt_pos t 1
    rw [Term.lexemesAt_of_le t.one_le_level] at hpos
    omega
  | succ n ih =>
    intro t p q hn h hstops
    rw [← Term.lexemesAt_of_le t.one_le_level] at hn h
    exact (readable ih t).parses 1 (Nat.le_refl 1) (by decide) p q hn h hstops

/-! ### Texts -/

/-- `NewParser` on a text, then `parseExpr`. -/
def parseExprText (input : Bytes) : Except ParseErr (Expr × Parser) := do
  let p ← newParser input
  parseExpr (input.length + 1) p

theorem newParser_of_shows {text : List Char} {xs : List Lexeme} {q : Parser} (hne : xs ≠ [])
    (h : Shows (.ofLexer ⟨text, 1⟩) xs q) (heof : q.current.type = .tokenEOF) :
    newParser (utf8 text) = .ok (.ofLexer ⟨text, 1⟩) := by
  obtain ⟨x, xs, rfl⟩ := List.exists_cons_of_ne_nil hne
  have hcurrent : (Parser.ofLexer ⟨text, 1⟩).current.type = x.type := h.type
  have hpeek : (Parser.ofLexer ⟨text, 1⟩).peek.type ≠ .tokenErr := by
    show (Parser.ofLexer ⟨text, 1⟩).shift.current.type ≠ .tokenErr
    cases xs with
    | nil =>
      obtain rfl : q = (Parser.ofLexer ⟨text, 1⟩).shift := h.2
      rw [heof]
      decide
    | cons y ys =>
      rw [h.2.type]
      exact y.ne_err
  rw [newParser, newLexer, runes_utf8]
  dsimp only
  rw [if_neg (by rw [hcurrent]; exact x.ne_eof), if_neg (by rw [hcurrent]; exact x.ne_err),
    if_neg hpeek]
  rfl

theorem parseExprText_of_writes {t : Term} {text : List Char} (h : Writes t.lexemes text) :
    ∃ q, parseExprText (utf8 text) = .ok (t.expr, q) ∧ q.current.type = .tokenEOF := by
  obtain ⟨q, hshows, heof⟩ := h.shows 1
  have hne : t.lexemes ≠ [] := by
    obtain ⟨x, xs, hx, -⟩ := t.begins_lexemes
    rw [hx]
    exact List.cons_ne_nil x xs
  have hlength : t.lexemes.length ≤ (utf8 text).length + 1 := by
    have hrunes : text.length ≤ (utf8 text).length := by
      have hle := length_runesFrom_le 0 (utf8 text)
      rwa [← runes, runes_utf8] at hle
    have hwrites := h.length_le
    omega
  refine ⟨q, ?_, heof⟩
  rw [parseExprText, newParser_of_shows hne hshows heof]
  exact inner_parseExpr _ t _ q hlength hshows (by rw [heof]; exact stops_eof)

/-- The text of a term is parsed as that term and consumed up to its end, as
it is printed and in every other layout. -/
theorem parseExprText_print (t : Term) :
    (∃ q, parseExprText (utf8 t.print) = .ok (t.expr, q) ∧ q.current.type = .tokenEOF) ∧
      ∀ text, Writes t.lexemes text →
        ∃ q, parseExprText (utf8 text) = .ok (t.expr, q) ∧ q.current.type = .tokenEOF :=
  ⟨parseExprText_of_writes (writes_layOut t.lexemes), fun _ h => parseExprText_of_writes h⟩

theorem parseExprText_print_parens :
    ∃ q, parseExprText (ascii "(a OR b)AND NOT a<=-1") =
      .ok (.binaryExpr (.binaryExpr (.columnRef [] (ascii "a")) .or (.columnRef [] (ascii "b")))
        .and (.unaryExpr .not (.binaryExpr (.columnRef [] (ascii "a")) .le
          (.unaryExpr .neg (.literal .integer (ascii "1"))))), q) ∧
      q.current.type = .tokenEOF := by
  let a : Term := .column ⟨['a'], by decide⟩
  let b : Term := .column ⟨['b'], by decide⟩
  let one : Term := .integer ⟨['1'], by decide⟩
  exact (parseExprText_print (.binary (.binary a .or b) .and (.not (.binary a .le (.neg one))))).1

end MySQLight.Sql
