import MySQLight.Parser.Lexer

/-!
The tokens tile the input.

Each call of `NextToken` skips blanks and takes a run of characters; the
literal of the token is the run, without the quotes of a string. So the
calls cut the input into pieces, up to the blanks before the end.
-/

namespace MySQLight.Sql

open MySQLight.Data

/-- Identifiers and keywords. -/
def isWordType (type : TokenType) : Bool :=
  type = .tokenIdent || (keywords.map Prod.snd).contains type

/-- The literal of a run of characters: the run itself, or what is between
the quotes of a string, or what is behind a quote that no other one follows
up to the end. -/
inductive LiteralOf (rest : List Char) : TokenType → List Char → List Char → Prop
  | plain {type : TokenType} {run : List Char} (htype : type ≠ .tokenString)
      (hquote : run.head? ≠ some '\'') : LiteralOf rest type run run
  | string {s : List Char} (hs : '\'' ∉ s) :
      LiteralOf rest .tokenString ('\'' :: (s ++ ['\''])) s
  | unterminated {s : List Char} (hs : '\'' ∉ s) (hrest : rest = []) :
      LiteralOf rest .tokenErr ('\'' :: s) s

/-- A token is read from a run of characters, which what follows could not
extend. -/
structure Fits (type : TokenType) (literal run rest : List Char) : Prop where
  run_ne : run ≠ []
  type_ne : type ≠ .tokenEOF
  literal : LiteralOf rest type run literal
  word : isWordType type → ∀ c ∈ rest.head?, isWordChar c = false
  number : type = .tokenInteger ∨ type = .tokenFloat →
    ∀ c ∈ rest.head?, isDigit c = false ∧ c ≠ '.'
  comparison : type = .tokenLt ∨ type = .tokenGt → run.length = 1 ∧ ∀ c ∈ rest.head?, c ≠ '='

/-! ### The scanners -/

/-- The types of tokens that end where they end. -/
def isClosed (type : TokenType) : Bool :=
  !isWordType type && type ∉ [.tokenEOF, .tokenInteger, .tokenFloat, .tokenLt, .tokenGt]

variable {type : TokenType} {c : Char}

theorem fits_of_isClosed {literal run rest : List Char} (hclosed : isClosed type) (hrun : run ≠ [])
    (hliteral : LiteralOf rest type run literal) : Fits type literal run rest := by
  simp only [isClosed, Bool.and_eq_true, Bool.not_eq_true', decide_eq_true_eq, List.mem_cons,
    List.not_mem_nil, or_false, not_or] at hclosed
  obtain ⟨hword, heof, hinteger, hfloat, hlt, hgt⟩ := hclosed
  refine ⟨hrun, heof, hliteral, ?_, ?_, ?_⟩
  · rw [hword]
    exact nofun
  · rintro (h | h)
    · exact absurd h hinteger
    · exact absurd h hfloat
  · rintro (h | h)
    · exact absurd h hlt
    · exact absurd h hgt

theorem readNumber_run (float : Bool) (cs : List Char) :
    cs = (readNumber float cs).2.1 ++ (readNumber float cs).2.2 ∧
      ((readNumber float cs).1 = .tokenErr ∨
        ((readNumber float cs).1 = .tokenInteger ∨ (readNumber float cs).1 = .tokenFloat) ∧
          ∀ c ∈ (readNumber float cs).2.2.head?, isDigit c = false ∧ c ≠ '.') := by
  induction cs generalizing float with
  | nil => cases float <;> simp [readNumber]
  | cons c cs ih =>
    rw [readNumber]
    split_ifs with hdot hfloat hdigit
    · exact ⟨rfl, .inl rfl⟩
    · exact ⟨congrArg (c :: ·) (ih true).1, (ih true).2⟩
    · exact ⟨congrArg (c :: ·) (ih _).1, (ih _).2⟩
    all_goals
      refine ⟨rfl, .inr ⟨by simp, ?_⟩⟩
      rintro _ ⟨⟩
      exact ⟨Bool.not_eq_true _ ▸ hdigit, hdot⟩

theorem fits_readNumber (hc : isDigit c) (cs : List Char) :
    ∃ run, c :: cs = run ++ (readNumber false (c :: cs)).2.2 ∧
      Fits (readNumber false (c :: cs)).1 (readNumber false (c :: cs)).2.1 run
        (readNumber false (c :: cs)).2.2 := by
  have hdot : c ≠ '.' := by
    rintro rfl
    exact absurd hc (by decide)
  have hliteral : (readNumber false (c :: cs)).2.1 = c :: (readNumber false cs).2.1 := by
    rw [readNumber, if_neg hdot, if_pos hc]
  obtain ⟨hrun, htype⟩ := readNumber_run false (c :: cs)
  have hnot : ∀ type, type = .tokenErr ∨ type = .tokenInteger ∨ type = .tokenFloat →
      type ≠ .tokenString ∧ isWordType type = false ∧ type ≠ .tokenLt ∧ type ≠ .tokenGt := by
    rintro type (rfl | rfl | rfl) <;> decide
  obtain ⟨hstring, hword, hlt, hgt⟩ := hnot _ (htype.imp_right And.left)
  refine ⟨_, hrun, ?_, readNumber_ne_eof false _, .plain hstring ?_, ?_, ?_, ?_⟩
  · rw [hliteral]
    exact List.cons_ne_nil _ _
  · rw [hliteral]
    rintro ⟨⟩
    exact absurd hc (by decide)
  · rw [hword]
    exact nofun
  · rintro (h | h)
    · exact (htype.resolve_left (by rw [h]; decide)).2
    · exact (htype.resolve_left (by rw [h]; decide)).2
  · rintro (h | h)
    · exact absurd h hlt
    · exact absurd h hgt

theorem isWordType_wordType (word : List Char) : isWordType (wordType word) := by
  rw [wordType]
  cases hlookup : keywords.lookup (toLower (utf8 word)) with
  | none => decide
  | some type =>
    obtain ⟨l₁, l₂, hsplit, -⟩ := List.lookup_eq_some_iff.mp hlookup
    have hmem : type ∈ keywords.map Prod.snd := by rw [hsplit]; simp
    rw [Option.getD_some, isWordType, Bool.or_eq_true, List.contains_iff_mem]
    exact .inr hmem

theorem ne_of_isWordType {type' : TokenType} (h : isWordType type) (h' : isWordType type' = false) :
    type ≠ type' := by
  rintro rfl
  rw [h] at h'
  cases h'

theorem fits_readIdent (hc : isLetter c || c = '_') (cs : List Char) :
    ∃ run, c :: cs = run ++ (readIdent (c :: cs)).2.2 ∧
      Fits (readIdent (c :: cs)).1 (readIdent (c :: cs)).2.1 run (readIdent (c :: cs)).2.2 := by
  have hword : isWordChar c := by
    simp only [isWordChar, Bool.or_eq_true] at hc ⊢
    tauto
  have htake : (c :: cs).takeWhile isWordChar = c :: cs.takeWhile isWordChar := by
    rw [List.takeWhile_cons, if_pos hword]
  have htype := isWordType_wordType ((c :: cs).takeWhile isWordChar)
  refine ⟨_, List.takeWhile_append_dropWhile.symm, ?_, wordType_ne_eof _, .plain ?_ ?_, ?_, ?_, ?_⟩
  · rw [htake]
    exact List.cons_ne_nil _ _
  · exact ne_of_isWordType htype (by decide)
  · rw [htake]
    rintro ⟨⟩
    exact absurd hc (by decide)
  · intro _ d hd
    have hnot := List.head?_dropWhile_not isWordChar (c :: cs)
    rw [Option.mem_def] at hd
    change ((c :: cs).dropWhile isWordChar).head? = some d at hd
    rwa [hd] at hnot
  · rintro (h | h)
    · exact absurd h (ne_of_isWordType htype (by decide))
    · exact absurd h (ne_of_isWordType htype (by decide))
  · rintro (h | h)
    · exact absurd h (ne_of_isWordType htype (by decide))
    · exact absurd h (ne_of_isWordType htype (by decide))

theorem not_mem_takeWhile (cs : List Char) : '\'' ∉ cs.takeWhile (· ≠ '\'') := by
  intro h
  have hne := List.mem_takeWhile_imp h
  simp at hne

theorem fits_readString (cs : List Char) :
    ∃ run, '\'' :: cs = run ++ (readString cs).2.2 ∧
      Fits (readString cs).1 (readString cs).2.1 run (readString cs).2.2 := by
  have hcs : cs.takeWhile (· ≠ '\'') ++ cs.dropWhile (· ≠ '\'') = cs :=
    List.takeWhile_append_dropWhile
  have hs := not_mem_takeWhile cs
  rw [readString]
  cases hdrop : cs.dropWhile (· ≠ '\'') with
  | nil =>
    rw [hdrop, List.append_nil] at hcs
    refine ⟨'\'' :: cs.takeWhile (· ≠ '\''), ?_, ?_⟩
    · rw [hcs, List.append_nil]
    · show Fits .tokenErr _ _ []
      exact fits_of_isClosed (by decide) (List.cons_ne_nil _ _) (.unterminated hs rfl)
  | cons c rest =>
    obtain rfl : c = '\'' := by
      have hnot := List.head?_dropWhile_not (fun c => decide (c ≠ '\'')) cs
      rw [hdrop] at hnot
      simpa using hnot
    refine ⟨'\'' :: (cs.takeWhile (· ≠ '\'') ++ ['\'']), ?_, ?_⟩
    · rw [List.cons_append, List.append_assoc, List.singleton_append, ← hdrop, hcs]
    · show Fits .tokenString _ _ rest
      exact fits_of_isClosed (by decide) (List.cons_ne_nil _ _) (.string hs)

theorem operatorEqType_spec (h : operatorEqType c = some type) :
    isClosed type ∧ type ≠ .tokenString ∧ c ≠ '\'' := by
  rw [operatorEqType.eq_def] at h
  split at h <;> cases h <;> decide

theorem operatorType_spec (c : Char) :
    (isClosed (operatorType c) ∨
      (operatorType c = .tokenLt ∨ operatorType c = .tokenGt) ∧ (operatorEqType c).isSome) ∧
      operatorType c ≠ .tokenString := by
  rw [operatorType.eq_def]
  split <;> first | decide | exact ⟨.inl (by decide), by decide⟩

theorem fits_readOperator (hc : c ≠ '\'') (cs : List Char) :
    ∃ run, c :: cs = run ++ (readOperator c cs).2.2 ∧
      Fits (readOperator c cs).1 (readOperator c cs).2.1 run (readOperator c cs).2.2 := by
  have hquote : [c].head? ≠ some '\'' := by simpa using hc
  rw [readOperator.eq_def]
  split
  · next type rest htype =>
      obtain ⟨hclosed, hstring, -⟩ := operatorEqType_spec htype
      exact ⟨[c, '='], rfl, fits_of_isClosed hclosed (List.cons_ne_nil _ _) (.plain hstring hquote)⟩
  · next hnot =>
      refine ⟨[c], rfl, ?_⟩
      obtain ⟨hclosed | ⟨htype, hsome⟩, hstring⟩ := operatorType_spec c
      · exact fits_of_isClosed hclosed (List.cons_ne_nil _ _) (.plain hstring hquote)
      · have hother : isWordType (operatorType c) = false ∧ operatorType c ≠ .tokenInteger ∧
            operatorType c ≠ .tokenFloat ∧ operatorType c ≠ .tokenEOF := by
          obtain h | h := htype <;> rw [h] <;> decide
        obtain ⟨hword, hinteger, hfloat, heof⟩ := hother
        refine ⟨List.cons_ne_nil _ _, heof, .plain hstring hquote, ?_, ?_, fun _ => ⟨rfl, ?_⟩⟩
        · rw [hword]
          exact nofun
        · rintro (h | h)
          · exact absurd h hinteger
          · exact absurd h hfloat
        · -- an equals sign would have been read as a part of the operator
          rintro d hd rfl
          obtain ⟨type, htype⟩ := Option.isSome_iff_exists.mp hsome
          obtain ⟨rest, hrest⟩ := List.head?_eq_some_iff.mp hd
          exact hnot type rest htype hrest

theorem fits_scan (c : Char) (cs : List Char) :
    ∃ run, c :: cs = run ++ (scan (c :: cs)).2.2 ∧
      Fits (scan (c :: cs)).1 (scan (c :: cs)).2.1 run (scan (c :: cs)).2.2 := by
  rw [scan]
  split_ifs with hdigit hletter hquote
  · exact fits_readNumber hdigit cs
  · exact fits_readIdent hletter cs
  · rw [hquote]
    exact fits_readString cs
  · exact fits_readOperator hquote cs

/-! ### The pieces of the input -/

/-- What one call of `NextToken` takes: blanks, then the run of a token. -/
structure Piece where
  gap : List Char
  run : List Char
  token : Token

/-- The characters are those of the pieces, with blanks behind them. -/
inductive Tiles : List Piece → List Char → Prop
  | nil {blanks : List Char} (hblanks : blanks.all isBlank) : Tiles [] blanks
  | cons {piece : Piece} {pieces : List Piece} {literal rest : List Char}
      (hgap : piece.gap.all isBlank) (hliteral : piece.token.literal = utf8 literal)
      (hfits : Fits piece.token.type literal piece.run rest) (hrest : Tiles pieces rest) :
      Tiles (piece :: pieces) (piece.gap ++ (piece.run ++ rest))

theorem skipBlanks_gap (cs : List Char) (line : Nat) :
    ∃ gap, cs = gap ++ (skipBlanks cs line).1 ∧ gap.all isBlank := by
  induction cs generalizing line with
  | nil => exact ⟨[], rfl, rfl⟩
  | cons c cs ih =>
    cases hc : isBlank c with
    | true =>
      obtain ⟨line', hskip⟩ := skipBlanks_blank hc line
      obtain ⟨gap, hgap, hblank⟩ := ih line'
      refine ⟨c :: gap, ?_, ?_⟩
      · rw [hskip, List.cons_append, ← hgap]
      · rw [List.all_cons, hc, hblank]
        rfl
    | false => exact ⟨[], by rw [skipBlanks_cons hc, List.nil_append], rfl⟩

namespace Lexer

/-- The tokens of a number of calls. -/
def tokens : Nat → Lexer → List Token
  | 0, _ => []
  | n + 1, l => l.nextToken.1 :: tokens n l.nextToken.2

/-- One call: the end behind blanks, or a piece. -/
theorem nextToken_piece (l : Lexer) :
    (l.nextToken.1.type = .tokenEOF ∧ l.rest.all isBlank) ∨
      ∃ gap run literal, l.rest = gap ++ (run ++ l.nextToken.2.rest) ∧ gap.all isBlank ∧
        l.nextToken.1.literal = utf8 literal ∧
        Fits l.nextToken.1.type literal run l.nextToken.2.rest := by
  obtain ⟨gap, hgap, hblank⟩ := skipBlanks_gap l.rest l.line
  cases hskip : skipBlanks l.rest l.line with
  | mk cs line =>
    rw [hskip] at hgap
    have hnext : l.nextToken =
        (⟨(scan cs).1, utf8 (scan cs).2.1, line⟩, ⟨(scan cs).2.2, line⟩) := by
      rw [nextToken, hskip]
    rw [hnext]
    cases cs with
    | nil =>
      rw [List.append_nil] at hgap
      exact .inl ⟨rfl, hgap ▸ hblank⟩
    | cons c cs =>
      obtain ⟨run, hrun, hfits⟩ := fits_scan c cs
      exact .inr ⟨gap, run, (scan (c :: cs)).2.1, hrun ▸ hgap, hblank, rfl, hfits⟩

/-- The calls of `NextToken` get to the end, and the tokens before it tile
the input. -/
theorem tiles_tokens (l : Lexer) :
    ∃ pieces eof, Tiles pieces l.rest ∧ eof.type = .tokenEOF ∧
      l.tokens (pieces.length + 1) = pieces.map Piece.token ++ [eof] := by
  induction hlength : l.rest.length using Nat.strong_induction_on generalizing l with
  | _ n ih =>
    obtain ⟨heof, hblank⟩ | ⟨gap, run, literal, hrest, hblank, hliteral, hfits⟩ :=
      l.nextToken_piece
    · exact ⟨[], l.nextToken.1, .nil hblank, heof, rfl⟩
    · have hlt : l.nextToken.2.rest.length < n := by
        have hpos := List.length_pos_iff.mpr hfits.run_ne
        rw [← hlength, hrest, List.length_append, List.length_append]
        omega
      obtain ⟨pieces, eof, htiles, heof, htokens⟩ := ih _ hlt l.nextToken.2 rfl
      refine ⟨⟨gap, run, l.nextToken.1⟩ :: pieces, eof, ?_, heof, ?_⟩
      · rw [hrest]
        exact .cons hblank hliteral hfits htiles
      · rw [List.length_cons, tokens, htokens]
        rfl

end Lexer

end MySQLight.Sql
