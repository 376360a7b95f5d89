import MySQLight.Parser.Parser

/-!
Expressions as texts.

A `Term` is an expression that can be written down: its names are words that
the lexer takes as names, its strings have no quotes in them. The text of a
term is a row of lexemes, with parentheses where the precedence of the
operators asks for them and nowhere else, and with blanks between the
lexemes at least where two of them would run together.
-/

namespace MySQLight.Sql

open MySQLight.Data MySQLight.Effect

/-! ### Lexemes -/

/-- Whether the lexer would take a character together with the text before
it. -/
def runsOn : List Char → Char → Bool
  | [], _ => false
  | first :: more, c =>
    if isDigit first then isDigit c || c = '.'
    else if isLetter first || first = '_' then isWordChar c
    else more.isEmpty && (operatorEqType first).isSome && c = '='

/-- The text ends before the rest, for the lexer. -/
def EndsBefore (text rest : List Char) : Prop := ∀ c ∈ rest.head?, runsOn text c = false

/-- A text that the lexer takes as one token. -/
structure Lexeme where
  type : TokenType
  literal : List Char
  text : List Char
  first : ∃ c cs, text = c :: cs ∧ isBlank c = false
  ne_err : type ≠ .tokenErr
  scans : ∀ rest, EndsBefore text rest → scan (text ++ rest) = (type, literal, rest)

/-- A letter or an underscore, then letters, digits and underscores. -/
def isWord : List Char → Bool
  | [] => false
  | c :: cs => (isLetter c || c = '_') && cs.all isWordChar

variable {c : Char} {rest text : List Char} {xs : List Lexeme}

theorem isDigit_eq_false (h : isLetter c || c = '_') : isDigit c = false := by
  simp only [isLetter, isDigit, Bool.or_eq_true, Bool.and_eq_true, decide_eq_true_eq,
    Char.le_def, Bool.and_eq_false_iff, decide_eq_false_iff_not] at h ⊢
  obtain (⟨h, -⟩ | ⟨h, -⟩) | rfl := h
  · exact .inr fun h' => absurd (UInt32.le_trans h h') (by decide)
  · exact .inr fun h' => absurd (UInt32.le_trans h h') (by decide)
  · exact .inr (by decide)

theorem isBlank_eq_false (h : isWordChar c) : isBlank c = false := by
  refine decide_eq_false ?_
  rintro (rfl | rfl | rfl | rfl) <;> exact absurd h (by decide)

theorem scan_word {w : List Char} (hw : isWord w) (h : EndsBefore w rest) :
    scan (w ++ rest) = (wordType w, w, rest) := by
  obtain _ | ⟨c, cs⟩ := w
  · cases hw
  · rw [isWord, Bool.and_eq_true] at hw
    obtain ⟨hc, hcs⟩ := hw
    have hdigit := isDigit_eq_false hc
    have hall : ∀ a ∈ c :: cs, isWordChar a = true := by
      rintro a (_ | ⟨_, ha⟩)
      · rw [isWordChar, hdigit, Bool.or_false, hc]
      · exact List.all_eq_true.mp hcs a ha
    have hrest : rest.takeWhile isWordChar = [] ∧ rest.dropWhile isWordChar = rest := by
      cases rest with
      | nil => exact ⟨rfl, rfl⟩
      | cons a rest =>
        have ha := h a rfl
        rw [runsOn, hdigit, if_neg Bool.false_ne_true, if_pos hc] at ha
        simp [ha]
    rw [List.cons_append, scan, hdigit, if_neg Bool.false_ne_true, if_pos hc, ← List.cons_append,
      readIdent, List.takeWhile_append_of_pos hall, List.dropWhile_append_of_pos hall, hrest.1,
      hrest.2, List.append_nil]

theorem readNumber_append {ds : List Char} (hds : ds.all isDigit) (float : Bool)
    (cs : List Char) :
    readNumber float (ds ++ cs) =
      ((readNumber float cs).1, ds ++ (readNumber float cs).2.1, (readNumber float cs).2.2) := by
  induction ds with
  | nil => rfl
  | cons d ds ih =>
    rw [List.all_cons, Bool.and_eq_true] at hds
    have hdot : d ≠ '.' := by
      rintro rfl
      exact absurd hds.1 (by decide)
    rw [List.cons_append, readNumber, if_neg hdot, if_pos hds.1, ih hds.2]
    rfl

theorem readNumber_stop {d : Char} (hd : isDigit d) {ds : List Char} (h : EndsBefore (d :: ds) rest)
    (float : Bool) :
    readNumber float rest = (if float then .tokenFloat else .tokenInteger, [], rest) := by
  cases rest with
  | nil => rfl
  | cons a rest =>
    have ha := h a rfl
    rw [runsOn, if_pos hd, Bool.or_eq_false_iff, decide_eq_false_iff_not] at ha
    rw [readNumber, if_neg ha.2, if_neg (by rw [ha.1]; exact Bool.false_ne_true)]

theorem scan_string {s : List Char} (hs : '\'' ∉ s) (rest : List Char) :
    scan ('\'' :: (s ++ '\'' :: rest)) = (.tokenString, s, rest) := by
  have hall : ∀ c ∈ s, decide (c ≠ '\'') = true := by
    intro c hc
    exact decide_eq_true (ne_of_mem_of_not_mem hc hs)
  have hdigit : isDigit '\'' = false := by decide
  have hletter : (isLetter '\'' || decide ('\'' = '_')) = false := by decide
  rw [scan, hdigit, if_neg Bool.false_ne_true, hletter, if_neg Bool.false_ne_true, if_pos rfl,
    readString, List.takeWhile_append_of_pos hall, List.dropWhile_append_of_pos hall]
  simp

/-- The characters that begin an operator. -/
def isOperator (c : Char) : Bool :=
  !isDigit c && !(isLetter c || c = '_') && c ≠ '\'' && !isBlank c

theorem scan_operator (hc : isOperator c) (cs : List Char) :
    scan (c :: cs) = readOperator c cs := by
  simp only [isOperator, Bool.and_eq_true, Bool.not_eq_true', decide_eq_true_eq] at hc
  obtain ⟨⟨⟨hdigit, hletter⟩, hquote⟩, -⟩ := hc
  rw [scan, hdigit, if_neg Bool.false_ne_true, hletter, if_neg Bool.false_ne_true, if_neg hquote]

theorem readOperator_endsBefore (hc : isOperator c) (h : EndsBefore [c] rest) :
    readOperator c rest = (operatorType c, [c], rest) := by
  simp only [isOperator, Bool.and_eq_true, Bool.not_eq_true'] at hc
  obtain ⟨⟨⟨hdigit, hletter⟩, -⟩, -⟩ := hc
  rw [readOperator.eq_def]
  split
  · next type rest' htype =>
      have heq := h '=' rfl
      rw [runsOn, hdigit, if_neg Bool.false_ne_true, hletter, if_neg Bool.false_ne_true,
        htype] at heq
      cases heq
  · rfl

namespace Lexeme

def word (w : List Char) (hw : isWord w) : Lexeme where
  type := wordType w
  literal := w
  text := w
  first := by
    obtain _ | ⟨c, cs⟩ := w
    · cases hw
    · rw [isWord, Bool.and_eq_true] at hw
      refine ⟨c, cs, rfl, isBlank_eq_false ?_⟩
      rw [isWordChar, isDigit_eq_false hw.1, Bool.or_false, hw.1]
  ne_err := wordType_ne (by decide) (by decide) w
  scans _ h := scan_word hw h

theorem first_of_digits {ds : List Char} (hne : ds ≠ []) (hds : ds.all isDigit)
    (cs : List Char) :
    ∃ d ds', ds ++ cs = d :: ds' ∧ isDigit d ∧ isBlank d = false := by
  obtain ⟨d, ds, rfl⟩ := List.exists_cons_of_ne_nil hne
  have hd : isDigit d := by
    rw [List.all_cons, Bool.and_eq_true] at hds
    exact hds.1
  exact ⟨d, ds ++ cs, rfl, hd, isBlank_eq_false (by rw [isWordChar, hd, Bool.or_true]; rfl)⟩

def integer (ds : List Char) (hne : ds ≠ []) (hds : ds.all isDigit) : Lexeme where
  type := .tokenInteger
  literal := ds
  text := ds
  first := by
    obtain ⟨d, ds', htext, -, hblank⟩ := first_of_digits hne hds []
    exact ⟨d, ds', by rwa [List.append_nil] at htext, hblank⟩
  ne_err := nofun
  scans rest h := by
    obtain ⟨d, ds', htext, hd, -⟩ := first_of_digits hne hds []
    rw [List.append_nil] at htext
    have hscan : scan (ds ++ rest) = readNumber false (ds ++ rest) := by
      rw [htext, List.cons_append, scan, if_pos hd]
    rw [hscan, readNumber_append hds, readNumber_stop hd (htext ▸ h), List.append_nil]
    rfl

def float (ds fs : List Char) (hne : ds ≠ []) (hds : ds.all isDigit) (hfs : fs.all isDigit) :
    Lexeme where
  type := .tokenFloat
  literal := ds ++ '.' :: fs
  text := ds ++ '.' :: fs
  first := by
    obtain ⟨d, ds', htext, -, hblank⟩ := first_of_digits hne hds _
    exact ⟨d, ds', htext, hblank⟩
  ne_err := nofun
  scans rest h := by
    obtain ⟨d, ds', htext, hd, -⟩ := first_of_digits hne hds ('.' :: fs)
    have hscan : scan (ds ++ '.' :: fs ++ rest) = readNumber false (ds ++ '.' :: fs ++ rest) := by
      rw [htext, List.cons_append, scan, if_pos hd]
    rw [hscan, List.append_assoc, readNumber_append hds, List.cons_append, readNumber,
      if_pos rfl, if_neg Bool.false_ne_true, readNumber_append hfs,
      readNumber_stop hd (htext ▸ h), List.append_nil]
    rfl

def string (s : List Char) (hs : '\'' ∉ s) : Lexeme where
  type := .tokenString
  literal := s
  text := '\'' :: (s ++ ['\''])
  first := ⟨_, _, rfl, by decide⟩
  ne_err := nofun
  scans rest _ := by
    rw [List.cons_append, List.append_assoc]
    exact scan_string hs rest

def operator (c : Char) (hc : isOperator c) (herr : operatorType c ≠ .tokenErr) : Lexeme where
  type := operatorType c
  literal := [c]
  text := [c]
  first := by
    simp only [isOperator, Bool.and_eq_true, Bool.not_eq_true'] at hc
    exact ⟨c, [], rfl, hc.2⟩
  ne_err := herr
  scans rest h := by
    rw [List.singleton_append, scan_operator hc, readOperator_endsBefore hc h]

def operatorEq (c : Char) (type : TokenType) (hc : isOperator c) (herr : type ≠ .tokenErr)
    (htype : operatorEqType c = some type) : Lexeme where
  type := type
  literal := [c, '=']
  text := [c, '=']
  first := by
    simp only [isOperator, Bool.and_eq_true, Bool.not_eq_true'] at hc
    exact ⟨c, ['='], rfl, hc.2⟩
  ne_err := herr
  scans rest _ := by
    show scan (c :: '=' :: rest) = _
    rw [scan_operator hc, readOperator.eq_def, htype]
    rfl

theorem ne_eof (x : Lexeme) : x.type ≠ .tokenEOF := by
  obtain ⟨c, cs, htext, -⟩ := x.first
  have hscan := x.scans [] nofun
  rw [htext, List.append_nil] at hscan
  have hne := scan_ne_eof c cs
  rwa [hscan] at hne

end Lexeme

def lparen : Lexeme := .operator '(' (by decide) (by decide)

def rparen : Lexeme := .operator ')' (by decide) (by decide)

def comma : Lexeme := .operator ',' (by decide) (by decide)

/-! ### Terms -/

/-- A word that is no keyword. -/
abbrev Name : Type := {w : List Char // isWord w ∧ wordType w = .tokenIdent}

/-- The words that a call can begin with. -/
def isFunction (type : TokenType) : Bool :=
  type ∈ [.tokenIdent, .tokenCount, .tokenSum, .tokenMin, .tokenMax, .tokenAvg]

abbrev FunctionName : Type := {w : List Char // isWord w ∧ isFunction (wordType w)}

abbrev Digits : Type := {ds : List Char // ds ≠ [] ∧ ds.all isDigit}

/-- The digits behind the dot. -/
abbrev Fraction : Type := {fs : List Char // fs.all isDigit}

abbrev Unquoted : Type := {s : List Char // '\'' ∉ s}

/-- An expression that can be written down. -/
inductive Term
  | integer (digits : Digits)
  | float (digits : Digits) (fraction : Fraction)
  | string (s : Unquoted)
  | null
  | column (name : Name)
  | qualified (table column : Name)
  | call (name : FunctionName) (args : List Term)
  | callStar (name : FunctionName)
  | neg (operand : Term)
  | not (operand : Term)
  | binary (left : Term) (op : BinaryOp) (right : Term)

namespace Term

mutual

/-- The tree of the term. -/
def expr : Term → Expr
  | .integer digits => .literal .integer (utf8 digits)
  | .float digits fraction => .literal .float (utf8 (digits ++ '.' :: fraction))
  | .string s => .literal .string (utf8 s)
  | .null => .literal .null (ascii "NULL")
  | .column name => .columnRef [] (utf8 name)
  | .qualified table name => .columnRef (utf8 table) (utf8 name)
  | .call name args => .funcCall (utf8 name) (exprs args) false
  | .callStar name => .funcCall (utf8 name) [] true
  | .neg operand => .unaryExpr .neg operand.expr
  | .not operand => .unaryExpr .not operand.expr
  | .binary left op right => .binaryExpr left.expr op right.expr

def exprs : List Term → List Expr
  | [] => []
  | t :: ts => t.expr :: exprs ts

end

end Term

namespace BinaryOp

/-- The level of an operator: `OR` is 1, `AND` 2, `NOT` 3, a comparison 4, a
sum 5, a product 6, the unary minus 7 and what needs no operator 8. -/
def level : BinaryOp → Nat
  | .or => 1
  | .and => 2
  | .eq | .ne | .lt | .gt | .le | .ge | .like => 4
  | .add | .sub => 5
  | .mul | .div | .mod => 6

/-- The level of the left operand: comparisons do not associate, the others
do so to the left. -/
def leftLevel (op : BinaryOp) : Nat := if op.level = 4 then 5 else op.level

def rightLevel (op : BinaryOp) : Nat := op.level + 1

def lexeme : BinaryOp → Lexeme
  | .eq => .operator '=' (by decide) (by decide)
  | .ne => .operatorEq '!' .tokenNotEq (by decide) (by decide) rfl
  | .lt => .operator '<' (by decide) (by decide)
  | .gt => .operator '>' (by decide) (by decide)
  | .le => .operatorEq '<' .tokenLtEq (by decide) (by decide) rfl
  | .ge => .operatorEq '>' .tokenGtEq (by decide) (by decide) rfl
  | .add => .operator '+' (by decide) (by decide)
  | .sub => .operator '-' (by decide) (by decide)
  | .mul => .operator '*' (by decide) (by decide)
  | .div => .operator '/' (by decide) (by decide)
  | .mod => .operator '%' (by decide) (by decide)
  | .and => .word ['A', 'N', 'D'] (by decide)
  | .or => .word ['O', 'R'] (by decide)
  | .like => .word ['L', 'I', 'K', 'E'] (by decide)

end BinaryOp

namespace Term

def level : Term → Nat
  | .neg _ => 7
  | .not _ => 3
  | .binary _ op _ => op.level
  | _ => 8

/-- The lexemes, in parentheses if they are needed. -/
def parens (needed : Bool) (xs : List Lexeme) : List Lexeme :=
  if needed then lparen :: (xs ++ [rparen]) else xs

mutual

/-- The lexemes of a term. -/
def lexemes : Term → List Lexeme
  | .integer digits => [.integer digits digits.2.1 digits.2.2]
  | .float digits fraction => [.float digits fraction digits.2.1 digits.2.2 fraction.2]
  | .string s => [.string s s.2]
  | .null => [.word ['N', 'U', 'L', 'L'] (by decide)]
  | .column name => [.word name name.2.1]
  | .qualified table name =>
    [.word table table.2.1, .operator '.' (by decide) (by decide), .word name name.2.1]
  | .call name args => .word name name.2.1 :: lparen :: (argLexemes [] args ++ [rparen])
  | .callStar name =>
    [.word name name.2.1, lparen, .operator '*' (by decide) (by decide), rparen]
  | .neg operand =>
    .operator '-' (by decide) (by decide) :: parens (operand.level < 8) operand.lexemes
  | .not operand =>
    .word ['N', 'O', 'T'] (by decide) :: parens (operand.level < 4) operand.lexemes
  | .binary left op right =>
    parens (left.level < op.leftLevel) left.lexemes ++
      op.lexeme :: parens (right.level < op.rightLevel) right.lexemes

/-- The lexemes of arguments, with some before the first of them. -/
def argLexemes : List Lexeme → List Term → List Lexeme
  | _, [] => []
  | before, t :: ts => before ++ (t.lexemes ++ argLexemes [comma] ts)

end

/-- The lexemes of a term where an operand of some level is expected. -/
def lexemesAt (k : Nat) (t : Term) : List Lexeme := parens (t.level < k) t.lexemes

end Term

/-! ### Layout -/

/-- The text is made of these lexemes, with blanks around them. -/
inductive Writes : List Lexeme → List Char → Prop
  | nil {blanks : List Char} (hblanks : blanks.all isBlank) : Writes [] blanks
  | cons {blanks rest : List Char} {x : Lexeme} {xs : List Lexeme} (hblanks : blanks.all isBlank)
      (hends : EndsBefore x.text rest) (hrest : Writes xs rest) :
      Writes (x :: xs) (blanks ++ (x.text ++ rest))

/-- The lexemes with blanks where they would run together. -/
def layOut : List Lexeme → List Char
  | [] => []
  | x :: xs =>
    x.text ++ if (layOut xs).head?.any (runsOn x.text) then ' ' :: layOut xs else layOut xs

def Term.print (t : Term) : List Char := layOut t.lexemes

theorem runsOn_blank (text : List Char) : runsOn text ' ' = false := by
  cases text with
  | nil => rfl
  | cons c cs =>
    have hdigit : (isDigit ' ' || decide (' ' = '.')) = false := by decide
    have hword : isWordChar ' ' = false := by decide
    rw [runsOn, hdigit, hword, decide_eq_false (by decide : ¬ ' ' = '='), Bool.and_false,
      ite_self, ite_self]

theorem Writes.blank {b : Char} (hb : isBlank b) (h : Writes xs text) : Writes xs (b :: text) := by
  cases h with
  | nil hblanks => exact .nil (by rw [List.all_cons, hb, hblanks]; rfl)
  | cons hblanks hends hrest =>
    rw [← List.cons_append]
    exact .cons (by rw [List.all_cons, hb, hblanks]; rfl) hends hrest

theorem writes_layOut (xs : List Lexeme) : Writes xs (layOut xs) := by
  induction xs with
  | nil => exact .nil rfl
  | cons x xs ih =>
    rw [layOut, ← List.nil_append (x.text ++ _)]
    split
    · refine .cons rfl ?_ (ih.blank (by decide))
      rintro c ⟨⟩
      exact runsOn_blank x.text
    · next hnot =>
        refine .cons rfl (fun c hc => ?_) ih
        rw [Option.mem_def] at hc
        rw [hc] at hnot
        exact Bool.eq_false_iff.mpr hnot

theorem Writes.length_le (h : Writes xs text) : xs.length ≤ text.length := by
  induction h with
  | nil => exact Nat.zero_le _
  | @cons blanks rest x xs _ _ _ ih =>
    obtain ⟨c, cs, htext, -⟩ := x.first
    rw [htext, List.length_append, List.length_append, List.length_cons, List.length_cons]
    omega

/-! ### The tokens of a text -/

/-- The token that the lexeme is read as. -/
def Lexeme.Denotes (x : Lexeme) (token : Token) : Prop :=
  token.type = x.type ∧ token.literal = utf8 x.literal

/-- From the one state of the parser to the other there are the tokens of
these lexemes. -/
def Shows : Parser → List Lexeme → Parser → Prop
  | p, [], q => q = p
  | p, x :: xs, q => x.Denotes p.current ∧ Shows p.shift xs q

theorem Shows.split {p q : Parser} {ys : List Lexeme} (h : Shows p (xs ++ ys) q) :
    ∃ m, Shows p xs m ∧ Shows m ys q := by
  induction xs generalizing p with
  | nil => exact ⟨p, rfl, h⟩
  | cons x xs ih =>
    obtain ⟨hx, h⟩ := h
    obtain ⟨m, hxs, hys⟩ := ih h
    exact ⟨m, ⟨hx, hxs⟩, hys⟩

theorem skipBlanks_blanks {blanks : List Char} (hblanks : blanks.all isBlank) (line : Nat) :
    ∃ line', ∀ cs, skipBlanks (blanks ++ cs) line = skipBlanks cs line' := by
  induction blanks generalizing line with
  | nil => exact ⟨line, fun _ => rfl⟩
  | cons b blanks ih =>
    rw [List.all_cons, Bool.and_eq_true] at hblanks
    obtain ⟨line₁, hskip⟩ := skipBlanks_blank hblanks.1 line
    obtain ⟨line', h⟩ := ih hblanks.2 line₁
    exact ⟨line', fun cs => by rw [List.cons_append, hskip, h]⟩

/-- The lexer finds the lexemes of a text, and then the end. -/
theorem Writes.shows (h : Writes xs text) (line : Nat) :
    ∃ q, Shows (.ofLexer ⟨text, line⟩) xs q ∧ q.current.type = .tokenEOF := by
  induction h generalizing line with
  | @nil blanks hblanks =>
    refine ⟨_, rfl, ?_⟩
    obtain ⟨line', hskip⟩ := skipBlanks_blanks hblanks line
    have hnil : skipBlanks blanks line = ([], line') := by
      rw [← List.append_nil blanks, hskip, skipBlanks]
    show (Lexer.nextToken ⟨blanks, line⟩).1.type = _
    rw [Lexer.nextToken, hnil]
    rfl
  | @cons blanks rest x xs hblanks hends _ ih =>
    obtain ⟨line', hskip⟩ := skipBlanks_blanks hblanks line
    obtain ⟨c, cs, htext, hc⟩ := x.first
    have hskip : skipBlanks (blanks ++ (x.text ++ rest)) line = (x.text ++ rest, line') := by
      rw [hskip, htext, List.cons_append, skipBlanks_cons hc]
    have hnext : Lexer.nextToken ⟨blanks ++ (x.text ++ rest), line⟩ =
        (⟨x.type, utf8 x.literal, line'⟩, ⟨rest, line'⟩) := by
      rw [Lexer.nextToken, hskip]
      dsimp only
      rw [x.scans rest hends]
    obtain ⟨q, hq, heof⟩ := ih line'
    refine ⟨q, ⟨?_, ?_⟩, heof⟩
    · rw [Parser.ofLexer, hnext]
      exact ⟨rfl, rfl⟩
    · rw [Parser.ofLexer, Parser.shift, hnext]
      exact hq

end MySQLight.Sql
