import MySQLight.Parser.Reading
import MySQLight.Parser.Spelling

/-!
Accepted texts.

A text is accepted if it begins with a statement. The rest is not looked at:
the characters from the last token of the statement on can be taken away.
-/

namespace MySQLight.Sql

open MySQLight.Data MySQLight.Effect MySQLight.Effect.Descent

variable {l : Lexer} {ts : List Token} {q : Parser} {input : Bytes} {stmt : Statement} {n : Nat}

theorem advance_ofLexer (l : Lexer) :
    Source.advance (Parser.ofLexer l) = Parser.ofLexer l.nextToken.2 := rfl

theorem remaining_ofLexer (l : Lexer) : (Parser.ofLexer l).remaining ≤ l.rest.length := by
  have hone := l.length_nextToken
  have htwo := l.nextToken.2.length_nextToken
  rw [Parser.remaining, Parser.ofLexer]
  dsimp only
  omega

theorem newParser_eq_ok {p : Parser} :
    newParser input = .ok p ↔ p = .ofLexer (newLexer input) ∧ p.current.type ≠ .tokenEOF ∧
      p.current.type ≠ .tokenErr ∧ p.peek.type ≠ .tokenErr := by
  have hnew : newParser input =
      if (Parser.ofLexer (newLexer input)).current.type = .tokenEOF then .error .eofFirst
      else if (Parser.ofLexer (newLexer input)).current.type = .tokenErr then .error .errFirst
      else if (Parser.ofLexer (newLexer input)).peek.type = .tokenErr then .error .errPeek
      else .ok (.ofLexer (newLexer input)) := by
    rw [newParser]
    split_ifs <;> rfl
  rw [hnew]
  split_ifs with heof herr hpeek
  · refine iff_of_false nofun ?_
    rintro ⟨rfl, h, -⟩
    exact h heof
  · refine iff_of_false nofun ?_
    rintro ⟨rfl, -, h, -⟩
    exact h herr
  · refine iff_of_false nofun ?_
    rintro ⟨rfl, -, -, h⟩
    exact h hpeek
  · refine ⟨fun h => ?_, fun h => by rw [h.1]⟩
    obtain rfl := Except.ok.inj h
    exact ⟨rfl, heof, herr, hpeek⟩

theorem parseText_of_newParser {p : Parser} (h : newParser input = .ok p) :
    parseText input = parseStatement (input.length + 1) p := by
  rw [parseText, h]
  rfl

theorem remaining_newParser {p : Parser} (h : newParser input = .ok p) :
    p.remaining < input.length + 1 := by
  obtain ⟨rfl, -⟩ := newParser_eq_ok.mp h
  have hrunes : (runes input).length ≤ input.length := length_runesFrom_le 0 input
  have hremaining := remaining_ofLexer (newLexer input)
  rw [newLexer] at hremaining ⊢
  exact Nat.lt_succ_of_le (hremaining.trans hrunes)

/-- Tokens that have been read can be read from their characters alone. -/
theorem reads_cut (h : Reads (.ofLexer l) ts q) :
    ∃ w l' line, q = .ofLexer l' ∧ l.rest = w ++ l'.rest ∧
      Reads (.ofLexer ⟨w, l.line⟩) ts (Parser.ofLexer ⟨[], line⟩) := by
  induction ts generalizing l with
  | nil =>
    obtain rfl := h
    exact ⟨[], l, l.line, rfl, rfl, rfl⟩
  | cons t ts ih =>
    obtain ⟨ht, hts⟩ := h
    rw [advance_ofLexer] at hts
    obtain ⟨w, l', line, rfl, hrest, hreads⟩ := ih hts
    obtain ⟨-, hnil⟩ | ⟨-, v, -, hv, hcut⟩ := l.nextToken_spec
    · -- at the end nothing is cut off
      obtain ⟨-, hl'⟩ := List.append_eq_nil_iff.mp (hrest.symm.trans hnil)
      have hl' : l' = ⟨[], l'.line⟩ := by rw [← hl']
      exact ⟨l.rest, l', l'.line, rfl, by rw [hl', List.append_nil], ht, hl' ▸ hts⟩
    · have hreplaces : Replaces w l.nextToken.2.rest := by
        cases w with
        | nil => exact .inr rfl
        | cons c w => exact .inl (by rw [hrest]; rfl)
      refine ⟨v ++ w, l', line, rfl, by rw [hv, hrest, List.append_assoc], ?_⟩
      rw [Descent.Reads, advance_ofLexer, hcut w hreplaces]
      exact ⟨(congrArg Prod.fst (hcut w hreplaces)).trans ht, hreads⟩

/-- The same spelling. -/
def Spelling.exact : Spelling where
  tokens := Eq
  respell := id
  type h := congrArg _ h
  literal h _ := congrArg _ h
  respelled h := congrArg Token.literal h

mutual

theorem Expr.respell_id : (e : Expr) → e.respell id = e
  | .binaryExpr left op right => by rw [Expr.respell, Expr.respell_id left, Expr.respell_id right]
  | .unaryExpr op operand => by rw [Expr.respell, Expr.respell_id operand]
  | .funcCall name args star => by rw [Expr.respell, Expr.respellAll_id args]; rfl
  | .columnRef .. | .literal .. | .starExpr => by rw [Expr.respell]

theorem Expr.respellAll_id : (es : List Expr) → Expr.respellAll id es = es
  | [] => by rw [Expr.respellAll]
  | e :: es => by rw [Expr.respellAll, Expr.respell_id e, Expr.respellAll_id es]

end

theorem Statement.respell_id (stmt : Statement) : stmt.respell id = stmt := by
  have hexpr : Expr.respell id = id := funext Expr.respell_id
  have hjoin : JoinClause.respell id = id := by
    funext j
    simp [JoinClause.respell, hexpr]
  have horder : OrderClause.respell id = id := by
    funext c
    simp [OrderClause.respell, hexpr]
  have hassign : Assignment.respell id = id := by
    funext a
    simp [Assignment.respell, hexpr]
  have hcolumn : ColumnDefAST.respell id = id := by
    funext c
    simp [ColumnDefAST.respell, hexpr]
  have hkey : ForeignKeyAST.respell id = id := rfl
  cases stmt <;> simp [Statement.respell, SelectStmt.respell, InsertStmt.respell,
    UpdateStmt.respell, DeleteStmt.respell, CreateTableStmt.respell, hexpr, hjoin, horder,
    hassign, hcolumn, hkey]

/-- A bound that is large enough can be replaced by another one. -/
theorem parseStatement_of_lt {m : Nat} {p : Parser}
    (h : parseStatement n p = .ok (stmt, q)) (hm : p.remaining < m + 1) :
    ∃ q', parseStatement (m + 1) p = .ok (stmt, q') ∧ q'.current = q.current := by
  have hrefl : SimilarSources Spelling.exact.tokens p p := .refl (fun _ => rfl) p
  obtain hnm | hmn := Nat.le_total n (m + 1)
  · obtain hout | halike := same_parseStatement hnm p p hrefl
    · rw [h] at hout
      cases hout
    · rw [h] at halike
      obtain ⟨r, hr, hstmt, hq⟩ := halike.exists_of_left
      rw [Spelling.exact, Statement.respell_id, Statement.respell_id] at hstmt
      exact ⟨r.2, hr.trans (congrArg Except.ok (Prod.ext hstmt.symm rfl)), (hq 0).symm⟩
  · obtain hout | halike := same_parseStatement hmn p p hrefl
    · exact absurd hout (sound_parseStatement.returns hm)
    · rw [h] at halike
      obtain ⟨r, hr, hstmt, hq⟩ := halike.exists_of_right
      rw [Spelling.exact, Statement.respell_id, Statement.respell_id] at hstmt
      exact ⟨r.2, hr.trans (congrArg Except.ok (Prod.ext hstmt rfl)), hq 0⟩

/-- At the end of the input. -/
theorem type_ofLexer_nil (line : Nat) :
    (Parser.ofLexer ⟨[], line⟩).current.type = .tokenEOF := rfl

/-- A statement takes a token. -/
theorem ne_nil_of_parseStatement
    (h : ∀ t t' : Parser, Descent.Reads t ts t' → StopsLike t' q →
      parseStatement n t = .ok (stmt, t')) :
    ts ≠ [] := by
  rintro rfl
  have hend := h (.ofLexer ⟨[], 1⟩) _ rfl (.inr (type_ofLexer_nil 1))
  rw [parseStatement, choose_of_none rfl] at hend
  cases hend

/-- A parser on the characters of the tokens alone. -/
theorem newParser_cut {w : List Char} {line : Nat} {p : Parser} (hp : newParser input = .ok p)
    (hne : ts ≠ []) (hreads : Descent.Reads p ts q)
    (hcut : Descent.Reads (.ofLexer ⟨w, 1⟩) ts (Parser.ofLexer ⟨[], line⟩)) :
    newParser (utf8 w) = .ok (.ofLexer ⟨w, 1⟩) := by
  obtain ⟨-, heof, herr, hpeek⟩ := newParser_eq_ok.mp hp
  have hlexer : newLexer (utf8 w) = ⟨w, 1⟩ := by rw [newLexer, runes_utf8]
  match ts, hne with
  | t :: ts, _ =>
    have hcurrent : (Parser.ofLexer ⟨w, 1⟩).current = p.current := hcut.1.trans hreads.1.symm
    have hpeek' : (Parser.ofLexer ⟨w, 1⟩).peek.type ≠ .tokenErr := by
      match ts, hcut.2, hreads.2 with
      | [], hnil, _ =>
        have hnil : (Parser.ofLexer ⟨w, 1⟩).shift = .ofLexer ⟨[], line⟩ := hnil.symm
        have htype : (Parser.ofLexer ⟨w, 1⟩).peek.type = .tokenEOF :=
          (congrArg (·.current.type) hnil).trans (type_ofLexer_nil line)
        rw [htype]
        decide
      | u :: us, hu, hu' =>
        have hsame : (Parser.ofLexer ⟨w, 1⟩).peek = p.peek := hu.1.trans hu'.1.symm
        rwa [hsame]
    rw [newParser_eq_ok, hlexer, hcurrent]
    exact ⟨rfl, heof, herr, hpeek'⟩

/-- The tokens of a text that its parser has taken. -/
def Taken (input : Bytes) (tokens : List Token) (q : Parser) : Prop :=
  Descent.Reads (.ofLexer (newLexer input)) tokens q

/-- The statement of an accepted text is read from a beginning of the text,
which gives the same statement alone and is read to its end then. The tokens
that have been taken hold a `TokenErr` only as the action of a foreign key. -/
theorem parseText_beginning (h : parseText input = .ok (stmt, q)) :
    ∃ tokens, Taken input tokens q ∧ ErrsAreActions tokens ∧
      ∃ w rest q', runes input = w ++ rest ∧ parseText (utf8 w) = .ok (stmt, q') ∧
        q'.current.type = .tokenEOF := by
  cases hp : newParser input with
  | error e =>
    rw [parseText, hp] at h
    cases h
  | ok p =>
    rw [parseText_of_newParser hp] at h
    obtain ⟨tokens, herrs, hreads, hlocal⟩ := sound_parseStatement.reads h
    obtain ⟨hofLexer, -⟩ := newParser_eq_ok.mp hp
    have htaken : Taken input tokens q := by rwa [Taken, ← hofLexer]
    obtain ⟨w, l', line, -, hrest, hcut⟩ := reads_cut htaken
    rw [newLexer] at hrest hcut
    have hp' := newParser_cut hp (ne_nil_of_parseStatement hlocal) hreads hcut
    have hstmt := hlocal _ _ hcut (.inr (type_ofLexer_nil line))
    obtain ⟨q', hq', hcurrent⟩ := parseStatement_of_lt hstmt (remaining_newParser hp')
    refine ⟨tokens, htaken, herrs, w, l'.rest, q', hrest, ?_, ?_⟩
    · rw [parseText_of_newParser hp', hq']
    · rw [hcurrent, type_ofLexer_nil]

theorem parseText_beginning_begin :
    ∃ stmt q, parseText (ascii "BEGIN now") = .ok (stmt, q) ∧
      ∃ tokens, Taken (ascii "BEGIN now") tokens q ∧ ErrsAreActions tokens ∧
        ∃ w rest q', runes (ascii "BEGIN now") = w ++ rest ∧
          parseText (utf8 w) = .ok (stmt, q') ∧ q'.current.type = .tokenEOF := by
  have hok : (parseText (ascii "BEGIN now")).toOption.isSome := by decide +kernel
  cases h : parseText (ascii "BEGIN now") with
  | error e =>
    rw [h] at hok
    cases hok
  | ok r => exact ⟨r.1, r.2, rfl, parseText_beginning h⟩

/-- A `DELETE` ends at a misspelt `WHERE`, and the name of an action may be
a `TokenErr`. -/
theorem parseText_misspelt :
    (∃ stmt q, parseText (ascii "DELETE FROM t WHRE id = 1") = .ok (.deleteStmt stmt, q) ∧
      stmt.where.isNone ∧ q.current.type = .tokenIdent) ∧
    ∃ stmt q, parseText (ascii
        "CREATE TABLE t (id INT, FOREIGN KEY (id) REFERENCES u (id) ON DELETE @)") =
      .ok (.createTableStmt stmt, q) ∧ stmt.foreignKeys.map (·.onDelete) = [ascii "@"] := by
  constructor
  · have h : (match parseText (ascii "DELETE FROM t WHRE id = 1") with
        | .ok (.deleteStmt stmt, q) => decide (stmt.where.isNone ∧ q.current.type = .tokenIdent)
        | _ => false) = true := by
      decide +kernel
    split at h
    · next stmt q hparse => exact ⟨stmt, q, hparse, of_decide_eq_true h⟩
    · cases h
  · have h : (match parseText (ascii
          "CREATE TABLE t (id INT, FOREIGN KEY (id) REFERENCES u (id) ON DELETE @)") with
        | .ok (.createTableStmt stmt, _) =>
          decide (stmt.foreignKeys.map (·.onDelete) = [ascii "@"])
        | _ => false) = true := by
      decide +kernel
    split at h
    · next stmt q hparse => exact ⟨stmt, q, hparse, of_decide_eq_true h⟩
    · cases h

end MySQLight.Sql
