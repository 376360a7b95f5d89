import Mathlib.Data.List.TakeWhile
import MySQLight.Data.Utf8

/-!
The lexer (`parser/lexer.go`).

The input is cut into characters once. What the source has as a position in
them is here the characters that are left.
-/

namespace MySQLight.Sql

open MySQLight.Data

inductive TokenType
  | tokenEOF
  | tokenIdent
  | tokenInteger
  | tokenFloat
  | tokenString
  | tokenSelect
  | tokenFrom
  | tokenWhere
  | tokenInsert
  | tokenInto
  | tokenValues
  | tokenUpdate
  | tokenSet
  | tokenDelete
  | tokenCreate
  | tokenTable
  | tokenDrop
  | tokenIndex
  | tokenOn
  | tokenPrimary
  | tokenKey
  | tokenNot
  | tokenNull
  | tokenDefault
  | tokenBegin
  | tokenCommit
  | tokenRollback
  | tokenAnd
  | tokenOr
  | tokenLike
  | tokenOrder
  | tokenBy
  | tokenLimit
  | tokenJoin
  | tokenInner
  | tokenLeft
  | tokenGroup
  | tokenHaving
  | tokenCount
  | tokenSum
  | tokenMin
  | tokenMax
  | tokenAvg
  | tokenReferences
  | tokenForeign
  | tokenUnique
  | tokenAnalyze
  | tokenDesc
  | tokenLParen
  | tokenRParen
  | tokenComma
  | tokenSemicolon
  | tokenDot
  | tokenStar
  | tokenEq
  | tokenLt
  | tokenGt
  | tokenLtEq
  | tokenGtEq
  | tokenNotEq
  | tokenPlus
  | tokenMinus
  | tokenSlash
  | tokenPercent
  | tokenErr
deriving DecidableEq, Repr

structure Token where
  type : TokenType
  literal : Bytes
  line : Nat
deriving DecidableEq

structure Lexer where
  rest : List Char
  line : Nat

/-- `NewLexer`. -/
def newLexer (input : Bytes) : Lexer := ⟨runes input, 1⟩

def isDigit (c : Char) : Bool := '0' ≤ c && c ≤ '9'

def isLetter (c : Char) : Bool := ('a' ≤ c && c ≤ 'z') || ('A' ≤ c && c ≤ 'Z')

/-- The characters that a word goes on with. -/
def isWordChar (c : Char) : Bool := isLetter c || isDigit c || c = '_'

/-- `strings.ToLower`, for a word of ASCII characters. -/
def toLower (word : Bytes) : Bytes := word.map fun b => if 65 ≤ b ∧ b ≤ 90 then b + 32 else b

def keywords : List (Bytes × TokenType) :=
  [(ascii "select", .tokenSelect), (ascii "from", .tokenFrom), (ascii "where", .tokenWhere),
    (ascii "insert", .tokenInsert), (ascii "into", .tokenInto), (ascii "values", .tokenValues),
    (ascii "update", .tokenUpdate), (ascii "set", .tokenSet), (ascii "delete", .tokenDelete),
    (ascii "create", .tokenCreate), (ascii "table", .tokenTable), (ascii "drop", .tokenDrop),
    (ascii "index", .tokenIndex), (ascii "on", .tokenOn), (ascii "primary", .tokenPrimary),
    (ascii "key", .tokenKey), (ascii "not", .tokenNot), (ascii "null", .tokenNull),
    (ascii "default", .tokenDefault), (ascii "begin", .tokenBegin), (ascii "commit", .tokenCommit),
    (ascii "rollback", .tokenRollback), (ascii "and", .tokenAnd), (ascii "or", .tokenOr),
    (ascii "like", .tokenLike), (ascii "order", .tokenOrder), (ascii "by", .tokenBy),
    (ascii "limit", .tokenLimit), (ascii "join", .tokenJoin), (ascii "inner", .tokenInner),
    (ascii "left", .tokenLeft), (ascii "group", .tokenGroup), (ascii "having", .tokenHaving),
    (ascii "count", .tokenCount), (ascii "sum", .tokenSum), (ascii "min", .tokenMin),
    (ascii "max", .tokenMax), (ascii "avg", .tokenAvg), (ascii "references", .tokenReferences),
    (ascii "foreign", .tokenForeign), (ascii "unique", .tokenUnique),
    (ascii "analyze", .tokenAnalyze), (ascii "desc", .tokenDesc)]

/-! ### Reading one token -/

/-- What has been read: the kind of the token, its literal, the characters
that are left. -/
abbrev Scanned : Type := TokenType × List Char × List Char

/-- `readNumber`; `float` once a dot has been read. -/
def readNumber (float : Bool) : List Char → Scanned
  | [] => (if float then .tokenFloat else .tokenInteger, [], [])
  | c :: cs =>
    if c = '.' then
      if float then (.tokenErr, [c], cs)
      else
        let (type, literal, rest) := readNumber true cs
        (type, c :: literal, rest)
    else if isDigit c then
      let (type, literal, rest) := readNumber float cs
      (type, c :: literal, rest)
    else (if float then .tokenFloat else .tokenInteger, [], c :: cs)

/-- The kind of a word. -/
def wordType (word : List Char) : TokenType :=
  (keywords.lookup (toLower (utf8 word))).getD .tokenIdent

def readIdent (cs : List Char) : Scanned :=
  let word := cs.takeWhile isWordChar
  (wordType word, word, cs.dropWhile isWordChar)

/-- `readString`, behind the first quote. -/
def readString (cs : List Char) : Scanned :=
  let literal := cs.takeWhile (· ≠ '\'')
  match cs.dropWhile (· ≠ '\'') with
  | [] => (.tokenErr, literal, [])
  | _ :: rest => (.tokenString, literal, rest)

/-- The operators of one character. -/
def operatorType : Char → TokenType
  | '(' => .tokenLParen
  | ')' => .tokenRParen
  | ',' => .tokenComma
  | ';' => .tokenSemicolon
  | '+' => .tokenPlus
  | '-' => .tokenMinus
  | '*' => .tokenStar
  | '.' => .tokenDot
  | '/' => .tokenSlash
  | '=' => .tokenEq
  | '%' => .tokenPercent
  | '>' => .tokenGt
  | '<' => .tokenLt
  | _ => .tokenErr

/-- The operators that end with an equals sign. -/
def operatorEqType : Char → Option TokenType
  | '!' => some .tokenNotEq
  | '>' => some .tokenGtEq
  | '<' => some .tokenLtEq
  | _ => none

def readOperator (c : Char) (cs : List Char) : Scanned :=
  match operatorEqType c, cs with
  | some type, '=' :: rest => (type, [c, '='], rest)
  | _, rest => (operatorType c, [c], rest)

/-- A token from the first character on. -/
def scan : List Char → Scanned
  | [] => (.tokenEOF, [], [])
  | c :: cs =>
    if isDigit c then readNumber false (c :: cs)
    else if isLetter c || c = '_' then readIdent (c :: cs)
    else if c = '\'' then readString cs
    else readOperator c cs

/-- The blanks before a token, with the lines counted. -/
def skipBlanks : List Char → Nat → List Char × Nat
  | [], line => ([], line)
  | c :: cs, line =>
    if c = '\n' then skipBlanks cs (line + 1)
    else if c = ' ' ∨ c = '\t' ∨ c = '\r' then skipBlanks cs line
    else (c :: cs, line)

def Lexer.nextToken (l : Lexer) : Token × Lexer :=
  let (cs, line) := skipBlanks l.rest l.line
  let (type, literal, rest) := scan cs
  (⟨type, utf8 literal, line⟩, ⟨rest, line⟩)

/-! ### How far a token goes -/

/-- What stands behind a token can be replaced by something that begins in
the same way, or taken away. -/
def Replaces (r rest : List Char) : Prop := r.head? = rest.head? ∨ r = []

/-- What is read does not depend on the characters behind the next one. -/
def Munches (f : List Char → Scanned) : Prop :=
  ∀ cs, ∃ w, cs = w ++ (f cs).2.2 ∧
    ∀ r, Replaces r (f cs).2.2 → f (w ++ r) = ((f cs).1, (f cs).2.1, r)

theorem munches_readNumber (float : Bool) : Munches (readNumber float) := by
  intro cs
  induction cs generalizing float with
  | nil =>
    refine ⟨[], rfl, ?_⟩
    rintro r (hr | rfl)
    · rw [List.head?_eq_none_iff.mp hr]
      rfl
    · rfl
  | cons c cs ih =>
    by_cases hdot : c = '.'
    · cases float with
      | true =>
        refine ⟨[c], ?_, fun r _ => ?_⟩ <;> simp [readNumber, hdot]
      | false =>
        obtain ⟨w, hw, hr⟩ := ih true
        refine ⟨c :: w, ?_, fun r h => ?_⟩
        · simp [readNumber, hdot, ← hw]
        · have h : Replaces r (readNumber true cs).2.2 := by simpa [readNumber, hdot] using h
          simp [readNumber, hdot, hr r h]
    · by_cases hdigit : isDigit c
      · obtain ⟨w, hw, hr⟩ := ih float
        refine ⟨c :: w, ?_, fun r h => ?_⟩
        · simp [readNumber, hdot, hdigit, ← hw]
        · have h : Replaces r (readNumber float cs).2.2 := by
            simpa [readNumber, hdot, hdigit] using h
          simp [readNumber, hdot, hdigit, hr r h]
      · refine ⟨[], by simp [readNumber, hdot, hdigit], fun r h => ?_⟩
        have h : Replaces r (c :: cs) := by simpa [readNumber, hdot, hdigit] using h
        obtain h | rfl := h
        · obtain ⟨r', rfl⟩ := List.head?_eq_some_iff.mp h
          simp [readNumber, hdot, hdigit]
        · simp [readNumber, hdot, hdigit]

theorem takeWhile_append {p : Char → Bool} {cs r : List Char}
    (h : Replaces r (cs.dropWhile p)) :
    (cs.takeWhile p ++ r).takeWhile p = cs.takeWhile p ∧
      (cs.takeWhile p ++ r).dropWhile p = r := by
  have hall : ∀ c ∈ cs.takeWhile p, p c = true := fun c hc => List.mem_takeWhile_imp hc
  rw [List.takeWhile_append_of_pos hall, List.dropWhile_append_of_pos hall]
  cases r with
  | nil => simp
  | cons c r =>
    have hstop : p c = false := by
      obtain h | h := h
      · obtain ⟨rest, hrest⟩ := List.head?_eq_some_iff.mp h.symm
        have hnot := List.head_dropWhile_not p (hrest ▸ List.cons_ne_nil c rest)
        simpa [hrest] using hnot
      · cases h
    simp [hstop]

theorem munches_readIdent : Munches readIdent := by
  intro cs
  refine ⟨cs.takeWhile isWordChar, List.takeWhile_append_dropWhile.symm, fun r h => ?_⟩
  obtain ⟨htake, hdrop⟩ := takeWhile_append h
  rw [readIdent, htake, hdrop]
  rfl

theorem munches_readString : Munches readString := by
  intro cs
  have hcs : cs.takeWhile (· ≠ '\'') ++ cs.dropWhile (· ≠ '\'') = cs :=
    List.takeWhile_append_dropWhile
  rw [readString]
  cases hdrop : cs.dropWhile (· ≠ '\'') with
  | nil =>
    refine ⟨cs, (List.append_nil cs).symm, fun r h => ?_⟩
    obtain rfl : r = [] := h.elim (fun h => List.head?_eq_none_iff.mp h) id
    rw [List.append_nil, readString, hdrop]
  | cons c rest =>
    refine ⟨cs.takeWhile (· ≠ '\'') ++ [c], ?_, fun r _ => ?_⟩
    · rw [List.append_assoc, List.singleton_append, ← hdrop, hcs]
    · have h : Replaces (c :: r) (cs.dropWhile (· ≠ '\'')) := .inl (by rw [hdrop]; rfl)
      obtain ⟨htake', hdrop'⟩ := takeWhile_append h
      rw [List.append_assoc, List.singleton_append, readString, hdrop', htake']

theorem munches_readOperator (c : Char) : Munches (readOperator c) := by
  intro cs
  rw [readOperator.eq_def]
  split
  · next type rest htype =>
      refine ⟨['='], rfl, fun r _ => ?_⟩
      rw [readOperator.eq_def, htype]
      rfl
  · next hnot =>
      refine ⟨[], rfl, fun r h => ?_⟩
      rw [List.nil_append, readOperator.eq_def]
      split
      · next type rest htype =>
          -- an equals sign would have been read before as well
          obtain h | h := h
          · obtain ⟨cs', rfl⟩ := List.head?_eq_some_iff.mp h.symm
            exact absurd rfl (hnot type cs' htype)
          · cases h
      · rfl

theorem wordType_ne {type : TokenType} (hkeywords : ∀ k ∈ keywords, k.2 ≠ type)
    (hident : .tokenIdent ≠ type) (word : List Char) : wordType word ≠ type := by
  rw [wordType]
  cases hlookup : keywords.lookup (toLower (utf8 word)) with
  | none => exact hident
  | some type' =>
    obtain ⟨l₁, l₂, hsplit, -⟩ := List.lookup_eq_some_iff.mp hlookup
    exact hkeywords (toLower (utf8 word), type') (by rw [hsplit]; simp)

theorem wordType_ne_eof (word : List Char) : wordType word ≠ .tokenEOF :=
  wordType_ne (by decide) (by decide) word

theorem readNumber_ne_eof (float : Bool) (cs : List Char) :
    (readNumber float cs).1 ≠ .tokenEOF := by
  induction cs generalizing float with
  | nil => cases float <;> decide
  | cons c cs ih =>
    rw [readNumber]
    split_ifs
    · exact nofun
    · exact ih true
    · exact ih _
    · exact nofun
    · exact nofun

theorem scan_ne_eof (c : Char) (cs : List Char) : (scan (c :: cs)).1 ≠ .tokenEOF := by
  rw [scan]
  split_ifs
  · exact readNumber_ne_eof false _
  · exact wordType_ne_eof _
  · rw [readString]
    split <;> exact nofun
  · rw [readOperator.eq_def]
    split
    · next type rest htype =>
        revert htype
        rw [operatorEqType.eq_def]
        split <;> rintro ⟨⟩ <;> exact nofun
    · show operatorType c ≠ _
      rw [operatorType.eq_def]
      split <;> decide

theorem Munches.map {f : List Char → Scanned} (h : Munches f)
    (g : TokenType → List Char → TokenType × List Char) :
    Munches fun cs => ((g (f cs).1 (f cs).2.1).1, (g (f cs).1 (f cs).2.1).2, (f cs).2.2) := by
  intro cs
  obtain ⟨w, hw, hr⟩ := h cs
  exact ⟨w, hw, fun r hrest => by simp only [hr r hrest]⟩

theorem munches_scan (c : Char) : Munches fun cs => scan (c :: cs) := by
  by_cases hdigit : isDigit c
  · have hdot : c ≠ '.' := by
      rintro rfl
      exact absurd hdigit (by decide)
    convert (munches_readNumber false).map fun type literal => (type, c :: literal) using 2
    simp [scan, readNumber, hdigit, hdot]
  by_cases hword : isLetter c || c = '_'
  · have hchar : isWordChar c := by
      simp only [isWordChar, Bool.or_eq_true] at hword ⊢
      tauto
    convert munches_readIdent.map fun _ literal => (wordType (c :: literal), c :: literal) using 2
    simp [scan, readIdent, hdigit, hword, hchar]
  by_cases hquote : c = '\''
  · convert munches_readString using 2
    simp [scan, hquote, isDigit, isLetter]
  · convert munches_readOperator c using 2
    simp [scan, hdigit, hword, hquote]

/-! ### Blanks -/

def isBlank (c : Char) : Bool := c = '\n' ∨ c = ' ' ∨ c = '\t' ∨ c = '\r'

theorem skipBlanks_cons {c : Char} (hc : isBlank c = false) (cs : List Char) (line : Nat) :
    skipBlanks (c :: cs) line = (c :: cs, line) := by
  simp only [isBlank, decide_eq_false_iff_not, not_or] at hc
  rw [skipBlanks, if_neg hc.1, if_neg (by tauto)]

theorem skipBlanks_blank {c : Char} (hc : isBlank c) (line : Nat) :
    ∃ line', ∀ cs, skipBlanks (c :: cs) line = skipBlanks cs line' := by
  by_cases hnewline : c = '\n'
  · exact ⟨line + 1, fun cs => by rw [skipBlanks, if_pos hnewline]⟩
  · refine ⟨line, fun cs => ?_⟩
    simp only [isBlank, decide_eq_true_eq] at hc
    rw [skipBlanks, if_neg hnewline, if_pos (by tauto)]

/-- Blanks are skipped up to a character that is none. -/
theorem skipBlanks_spec (cs : List Char) (line : Nat) :
    (∃ line', skipBlanks cs line = ([], line')) ∨
      ∃ b c cs' line', isBlank c = false ∧ cs = b ++ c :: cs' ∧
        ∀ d, skipBlanks (b ++ c :: d) line = (c :: d, line') := by
  induction cs generalizing line with
  | nil => exact .inl ⟨line, rfl⟩
  | cons c cs ih =>
    by_cases hc : isBlank c
    · obtain ⟨line₁, hskip⟩ := skipBlanks_blank hc line
      obtain ⟨line', h⟩ | ⟨b, c', cs', line', hc', rfl, h⟩ := ih line₁
      · exact .inl ⟨line', by rw [hskip, h]⟩
      · exact .inr ⟨c :: b, c', cs', line', hc', rfl, fun d => by rw [List.cons_append, hskip, h]⟩
    · rw [Bool.not_eq_true] at hc
      exact .inr ⟨[], c, cs, line, hc, rfl, fun d => skipBlanks_cons hc d line⟩

namespace Lexer

/-- At the end nothing is left; a token before it takes characters, and does
not depend on those behind the next one. -/
theorem nextToken_spec (l : Lexer) :
    (l.nextToken.1.type = .tokenEOF ∧ l.nextToken.2.rest = []) ∨
      (l.nextToken.1.type ≠ .tokenEOF ∧ ∃ w, w ≠ [] ∧ l.rest = w ++ l.nextToken.2.rest ∧
        ∀ r, Replaces r l.nextToken.2.rest →
          nextToken ⟨w ++ r, l.line⟩ = (l.nextToken.1, ⟨r, l.nextToken.2.line⟩)) := by
  obtain ⟨line', h⟩ | ⟨b, c, cs, line', hc, hrest, h⟩ := skipBlanks_spec l.rest l.line
  · refine .inl ?_
    rw [nextToken, h]
    exact ⟨rfl, rfl⟩
  · have hskip : skipBlanks l.rest l.line = (c :: cs, line') := by rw [hrest, h]
    obtain ⟨w, hw, hr⟩ := munches_scan c cs
    have hnext : l.nextToken = (⟨(scan (c :: cs)).1, utf8 (scan (c :: cs)).2.1, line'⟩,
        ⟨(scan (c :: cs)).2.2, line'⟩) := by
      rw [nextToken, hskip]
    rw [hnext]
    refine .inr ⟨scan_ne_eof c cs, b ++ c :: w, by simp, ?_, fun r hreplaces => ?_⟩
    · rw [hrest, List.append_assoc, List.cons_append, ← hw]
    · have hscan : scan (c :: (w ++ r)) = ((scan (c :: cs)).1, (scan (c :: cs)).2.1, r) :=
        hr r hreplaces
      rw [nextToken, List.append_assoc, List.cons_append, h]
      dsimp only
      rw [hscan]

/-- Each token takes a character at least. -/
theorem length_nextToken (l : Lexer) :
    (l.nextToken.2.rest.length + if l.nextToken.1.type = .tokenEOF then 0 else 1) ≤
      l.rest.length := by
  obtain ⟨heof, hrest⟩ | ⟨hne, w, hw, hrest, -⟩ := l.nextToken_spec
  · rw [if_pos heof, hrest]
    exact Nat.zero_le _
  · have hpos := List.length_pos_iff.mpr hw
    rw [if_neg hne, hrest, List.length_append]
    omega

end Lexer

end MySQLight.Sql
