import MySQLight.Parser.Parser

/-!
What a statement is read from.

There is no check that a text ends where its statement ends: each statement
is over at the first token that cannot continue it, and what comes then is
not looked at. So a statement is read from a beginning of the text, and that
beginning alone would have given the same statement. No `TokenErr` is among
its tokens, except in the place of the action of a foreign key, where every
token is taken.
-/

namespace MySQLight.Sql

open MySQLight.Data MySQLight.Effect MySQLight.Effect.Descent

variable {α β : Type} {n : Nat}

/-- Each `TokenErr` stands for the action of a foreign key. -/
def ErrsAreActions (tokens : List Token) : Prop :=
  ∀ before token after, tokens = before ++ token :: after → token.type = .tokenErr →
    ∃ before' on event, before = before' ++ [on, event] ∧ on.type = .tokenOn ∧
      (event.type = .tokenDelete ∨ event.type = .tokenUpdate)

theorem errsAreActions_nil : ErrsAreActions [] := by
  intro before token after h
  simp at h

theorem ErrsAreActions.append {ts us : List Token} (hts : ErrsAreActions ts)
    (hus : ErrsAreActions us) : ErrsAreActions (ts ++ us) := by
  intro before token after h herr
  obtain ⟨mid, hbefore, hmid⟩ | ⟨mid, hts', hmid⟩ := List.append_eq_append_iff.mp h
  · obtain ⟨before', on, event, rfl, hon, hevent⟩ := hus mid token after hmid herr
    exact ⟨ts ++ before', on, event, by simp [hbefore], hon, hevent⟩
  · cases mid with
    | nil =>
      obtain ⟨before', on, event, hnil, -⟩ := hus [] token after (by simpa using hmid.symm) herr
      simp at hnil
    | cons t mid =>
      obtain ⟨rfl, rfl⟩ := List.cons.inj hmid
      exact hts before token mid hts' herr

theorem errsAreActions_singleton {t : Token} (h : t.type ≠ .tokenErr) : ErrsAreActions [t] := by
  intro before token after ht herr
  obtain ⟨rfl, htoken, rfl⟩ : before = [] ∧ t = token ∧ after = [] := by
    simpa [List.cons_eq_append_iff, List.append_eq_singleton_iff, eq_comm] using ht
  exact absurd herr (htoken ▸ h)

/-- A token in the place of an action. -/
theorem errsAreActions_action {on event t : Token} (hon : on.type = .tokenOn)
    (hevent : event.type = .tokenDelete ∨ event.type = .tokenUpdate) :
    ErrsAreActions [on, event, t] := by
  intro before token after h herr
  match before, h with
  | [], h =>
    obtain ⟨rfl, -⟩ := List.cons.inj h
    rw [hon] at herr
    cases herr
  | [_], h =>
    obtain ⟨rfl, -⟩ := List.cons.inj (List.cons.inj h).2
    rw [herr] at hevent
    simp at hevent
  | [a, b], h =>
    obtain ⟨rfl, rfl, -⟩ : a = on ∧ b = event ∧ after = [] ∧ token = t := by
      simpa [eq_comm, and_comm, and_left_comm] using h
    exact ⟨[], a, b, rfl, hon, hevent⟩
  | _ :: _ :: _ :: _, h => simp at h

/-! ### Parsers that end anywhere -/

/-- The parser takes a `TokenErr` only as an action, what it returns does not
depend on what comes behind, and with fewer than `n` tokens it does not run
out of fuel. -/
abbrev Sound (n : Nat) (x : Parse α) : Prop := Tame .outOfFuel n ErrsAreActions x

variable {x : Parse α} {type : TokenType}

theorem Sound.pred (h : Sound (n + 1) x) : Sound n x := h.mono (Nat.le_succ n) fun _ => id

theorem sound_pure (a : α) : Sound n (pure a) := .pure a errsAreActions_nil

theorem Sound.bind {f : α → Parse β} (hx : Sound n x) (hf : ∀ a, Sound n (f a)) :
    Sound n (x >>= f) :=
  Tame.bind hx hf fun _ _ => .append

theorem Sound.map (hx : Sound n x) (f : α → β) : Sound n (f <$> x) :=
  hx.bind fun a => sound_pure (f a)

/-- Behind tokens that have been taken. -/
theorem Sound.after (hx : Sound n x) {ts : List Token} (hts : ErrsAreActions ts) :
    Tame .outOfFuel n (fun us => ErrsAreActions (ts ++ us)) x :=
  hx.mono (Nat.le_refl n) fun _ hus => hts.append hus

/-- Behind a token that is no `TokenErr`. -/
theorem Sound.behind (hx : Sound n x) {t : Token} (ht : t.type ≠ .tokenErr) :
    Tame .outOfFuel n (fun ts => ErrsAreActions (t :: ts)) x :=
  hx.after (errsAreActions_singleton ht)

theorem sound_choose {m : Nat} (hnm : n ≤ m + 1) {k : Token → Option (Parse α)} {y : Parse α}
    (hend : ∀ t, t.type = .tokenEOF ∨ t.type = .tokenErr → k t = none)
    (hk : ∀ t x, k t = some x → Sound m x) (hy : Sound n y) : Sound n (choose k y) := by
  refine .choose hnm (fun t ht => hend t (.inl ht)) (fun t x hx => (hk t x hx).behind fun ht => ?_)
    hy
  rw [hend t (.inr ht)] at hx
  cases hx

/-- A type of tokens that can be taken. -/
abbrev IsTaken (type : TokenType) : Prop := type ≠ .tokenEOF ∧ type ≠ .tokenErr

theorem sound_branch {yes : Token → Parse α} {no : Parse α} (htype : IsTaken type)
    (hyes : ∀ t, Sound n (yes t)) (hno : Sound n no) : Sound n (branch (·.type = type) yes no) := by
  refine .branch (Nat.le_succ n) (fun t ht => decide_eq_false ?_)
    (fun t ht => (hyes t).behind ?_) hno
  · exact fun h => htype.1 (h.symm.trans ht)
  · exact fun h => htype.2 ((of_decide_eq_true ht).symm.trans h)

theorem sound_fail {e : Parser → ParseErr} (he : ∀ p, e p ≠ .outOfFuel) :
    Sound n (fail e : Parse α) := .fail he

theorem sound_failAt {e : Nat → ParseErr} (he : ∀ line, e line ≠ .outOfFuel) :
    Sound n (failAt e : Parse α) := sound_fail fun p => he p.lexer.line

theorem sound_expect (htype : IsTaken type) : Sound n (expect type) := by
  have hfail : Sound n (failAt .expected : Parse Token) := sound_failAt fun _ => nofun
  exact sound_branch htype sound_pure hfail

theorem sound_optional (htype : IsTaken type) (hx : Sound n x) : Sound n (optional type x) :=
  sound_branch htype (fun _ => hx.map some) (sound_pure none)

theorem sound_flag {x : Parse Unit} (htype : IsTaken type) (hx : Sound n x) :
    Sound n (flag type x) :=
  sound_branch htype (fun _ => hx.bind fun _ => sound_pure true) (sound_pure false)

theorem sound_loop {k : β → Token → Option (Parse β)}
    (hend : ∀ b t, t.type = .tokenEOF ∨ t.type = .tokenErr → k b t = none)
    (hk : ∀ b t x, k b t = some x → Sound n x) (b : β) :
    Sound (n + 1) (loop .outOfFuel k (n + 1) b) := by
  refine .loop (fun b t ht => hend b t (.inl ht))
    (fun b t x hx => (hk b t x hx).behind fun ht => ?_)
    errsAreActions_nil (fun _ _ => .append) b
  rw [hend b t (.inr ht)] at hx
  cases hx

theorem sound_commaList {m : Nat} (hn : n ≤ m) (hm : m ≤ n + 1) {item : Parse α}
    (hitem : Sound m item) : Sound m (commaList (n + 1) item) := by
  refine hitem.bind fun first =>
    (sound_loop (fun items t ht => ?_) (fun items t x hx => ?_) _).mono hm fun _ => id
  · rw [if_neg]
    rintro hcomma
    rw [of_decide_eq_true hcomma] at ht
    simp at ht
  · obtain ⟨-, hx⟩ := Option.ite_none_right_eq_some.mp hx
    cases hx
    exact (hitem.bind fun item => sound_pure _).mono hn fun _ => id

/-! ### Expressions -/

section Expressions

variable {e operand : Parse Expr}

theorem sound_parseArgs (he : Sound n e) (name : Bytes) : Sound n (parseArgs (n + 1) e name) := by
  refine sound_branch (by decide) (fun _ => ?_)
    (sound_branch (by decide) (fun _ => sound_pure _) ?_)
  · exact (sound_expect (by decide)).bind fun _ => sound_pure _
  · exact (sound_commaList (Nat.le_refl n) (Nat.le_succ n) he).bind fun _ =>
      (sound_expect (by decide)).bind fun _ => sound_pure _

theorem sound_parseName (he : Sound n e) (name : Bytes) : Sound n (parseName (n + 1) e name) := by
  refine sound_branch (by decide) (fun _ => sound_parseArgs he name)
    (sound_branch (by decide) (fun _ => ?_) (sound_pure _))
  exact (sound_expect (by decide)).bind fun _ => sound_pure _

theorem sound_parsePrimary (he : Sound n e) : Sound (n + 1) (parsePrimary (n + 1) e) := by
  refine sound_choose (Nat.le_refl _) (fun t ht => ?_) (fun t x hx => ?_)
    (sound_fail fun _ => nofun)
  · obtain ht | ht := ht <;> rw [ht]
  · split at hx
    all_goals first | cases hx; exact sound_pure _ | skip
    · cases hx
      exact he.bind fun _ => (sound_expect (by decide)).bind fun _ => sound_pure _
    iterate 5
      · cases hx
        exact (sound_expect (by decide)).bind fun _ => sound_parseArgs he _
    · cases hx
      exact sound_parseName he _
    · cases hx

theorem sound_parseUnary (he : Sound n e) : Sound (n + 1) (parseUnary (n + 1) e) :=
  sound_branch (by decide) (fun _ => (sound_parsePrimary he).bind fun _ => sound_pure _)
    (sound_parsePrimary he)

/-- Operators are tokens that can be taken. -/
def OperatorsTake (operator : TokenType → Option BinaryOp) : Prop :=
  operator .tokenEOF = none ∧ operator .tokenErr = none

theorem sound_leftAssoc {operator : TokenType → Option BinaryOp} (hop : OperatorsTake operator)
    (hoperand : Sound (n + 1) operand) : Sound (n + 1) (leftAssoc (n + 1) operator operand) := by
  refine hoperand.bind fun left => sound_loop (fun left t ht => ?_) (fun left t x hx => ?_) left
  · obtain ht | ht := ht
    · rw [ht, hop.1]; rfl
    · rw [ht, hop.2]; rfl
  · obtain ⟨op, -, rfl⟩ := Option.map_eq_some_iff.mp hx
    exact (hoperand.bind fun right => sound_pure _).pred

theorem sound_parseMulDiv (he : Sound n e) : Sound (n + 1) (parseMulDiv (n + 1) e) :=
  sound_leftAssoc ⟨rfl, rfl⟩ (sound_parseUnary he)

theorem sound_parseAddSub (he : Sound n e) : Sound (n + 1) (parseAddSub (n + 1) e) :=
  sound_leftAssoc ⟨rfl, rfl⟩ (sound_parseMulDiv he)

theorem sound_parseComparison (he : Sound n e) : Sound (n + 1) (parseComparison (n + 1) e) := by
  refine (sound_parseAddSub he).bind fun left =>
    sound_choose (Nat.le_succ _) (fun t ht => ?_) (fun t x hx => ?_) (sound_pure left)
  · obtain ht | ht := ht <;> rw [ht] <;> rfl
  · obtain ⟨op, -, rfl⟩ := Option.map_eq_some_iff.mp hx
    exact (sound_parseAddSub he).bind fun right => sound_pure _

theorem sound_parseNot (he : Sound n e) : Sound (n + 1) (parseNot (n + 1) e) :=
  sound_branch (by decide) (fun _ => (sound_parseComparison he).bind fun _ => sound_pure _)
    (sound_parseComparison he)

theorem sound_parseAnd (he : Sound n e) : Sound (n + 1) (parseAnd (n + 1) e) :=
  sound_leftAssoc ⟨rfl, rfl⟩ (sound_parseNot he)

theorem sound_parseOr (he : Sound n e) : Sound (n + 1) (parseOr (n + 1) e) :=
  sound_leftAssoc ⟨rfl, rfl⟩ (sound_parseAnd he)

end Expressions

theorem sound_parseExpr (n : Nat) : Sound n (parseExpr n) := by
  induction n with
  | zero => exact .fail_zero _
  | succ n ih => exact sound_parseOr ih

/-! ### Statements -/

theorem sound_parseJoin : Sound n (parseJoin n) :=
  (sound_expect (by decide)).bind fun _ =>
    (sound_branch (by decide) (fun _ => sound_pure _) (sound_pure _)).bind fun _ =>
      (sound_expect (by decide)).bind fun _ => (sound_parseExpr n).bind fun _ => sound_pure _

theorem sound_parseJoins : Sound (n + 1) (parseJoins (n + 1)) := by
  refine sound_loop (fun joins t ht => ?_) (fun joins t x hx => ?_) []
  · obtain ht | ht := ht <;> rw [ht]
  · split at hx
    · cases hx
      exact (sound_parseJoin.bind fun _ => sound_pure _).pred
    iterate 2
      · cases hx
        exact (sound_expect (by decide)).bind fun _ =>
          (sound_parseJoin.bind fun _ => sound_pure _).pred
    · cases hx

theorem sound_parseOrderClause : Sound n (parseOrderClause n) :=
  (sound_parseExpr n).bind fun _ =>
    (sound_flag (by decide) (sound_pure ())).bind fun _ => sound_pure _

theorem sound_parseLimit : Sound n parseLimit := by
  refine (sound_expect (by decide)).bind fun token => ?_
  split
  · exact sound_fail fun _ => nofun
  · exact sound_pure _

/-- A list in a statement. -/
theorem sound_list {item : Parse α} (hitem : Sound (n + 1) item) :
    Sound (n + 1) (commaList (n + 1) item) :=
  sound_commaList (Nat.le_succ n) (Nat.le_refl _) hitem

theorem sound_parseSelect : Sound (n + 1) (parseSelect (n + 1)) := by
  have hexpr := sound_parseExpr (n + 1)
  have hexprs := sound_list hexpr
  refine (sound_branch (by decide) (fun _ => sound_pure _) hexprs).bind fun _ =>
    (sound_expect (by decide)).bind fun _ => (sound_expect (by decide)).bind fun _ =>
    sound_parseJoins.bind fun _ => (sound_optional (by decide) hexpr).bind fun _ =>
    (sound_optional (by decide) ?_).bind fun _ => (sound_optional (by decide) hexpr).bind fun _ =>
    (sound_optional (by decide) ?_).bind fun _ =>
    (sound_optional (by decide) sound_parseLimit).bind fun _ => sound_pure _
  · exact (sound_expect (by decide)).bind fun _ => hexprs
  · exact (sound_expect (by decide)).bind fun _ => sound_list sound_parseOrderClause

theorem sound_parseInsert : Sound (n + 1) (parseInsert (n + 1)) := by
  refine (sound_expect (by decide)).bind fun _ => (sound_expect (by decide)).bind fun _ =>
    (sound_optional (by decide) ?_).bind fun _ => (sound_expect (by decide)).bind fun _ =>
    (sound_list ?_).bind fun _ => sound_pure _
  · exact (sound_list (sound_expect (by decide))).bind fun _ =>
      (sound_expect (by decide)).bind fun _ => sound_pure _
  · exact (sound_expect (by decide)).bind fun _ =>
      (sound_list (sound_parseExpr (n + 1))).bind fun _ =>
      (sound_expect (by decide)).bind fun _ => sound_pure _

theorem sound_parseAssignment : Sound n (parseAssignment n) :=
  (sound_expect (by decide)).bind fun _ => (sound_expect (by decide)).bind fun _ =>
    (sound_parseExpr n).bind fun _ => sound_pure _

theorem sound_parseUpdate : Sound (n + 1) (parseUpdate (n + 1)) :=
  (sound_expect (by decide)).bind fun _ => (sound_expect (by decide)).bind fun _ =>
    (sound_list sound_parseAssignment).bind fun _ =>
    (sound_optional (by decide) (sound_parseExpr (n + 1))).bind fun _ => sound_pure _

theorem sound_parseDelete : Sound n (parseDelete n) :=
  (sound_expect (by decide)).bind fun _ => (sound_expect (by decide)).bind fun _ =>
    (sound_optional (by decide) (sound_parseExpr n)).bind fun _ => sound_pure _

/-- Behind `ON DELETE` or `ON UPDATE` each token is an action. -/
theorem tame_parseReferentialAction {on event : Token} (hon : on.type = .tokenOn)
    (hevent : event.type = .tokenDelete ∨ event.type = .tokenUpdate) :
    Tame .outOfFuel n (fun ts => ErrsAreActions (on :: event :: ts)) parseReferentialAction := by
  have hon' : on.type ≠ .tokenErr := by rw [hon]; decide
  have hevent' : event.type ≠ .tokenErr := by obtain h | h := hevent <;> rw [h] <;> decide
  have htwo : ErrsAreActions [on, event] :=
    (errsAreActions_singleton hon').append (errsAreActions_singleton hevent')
  refine .branch (Nat.le_succ n) (fun t ht => decide_eq_false ?_) (fun t ht => ?_) ?_
  · have ht : t.type = .tokenEOF := ht
    rw [ht]
    decide
  · have ht' : t.type ≠ .tokenErr := by rw [of_decide_eq_true ht]; decide
    have hnull : Sound n (branch (·.type = .tokenNull) (fun _ => return ascii "SET NULL")
        (return ascii "SET NULL")) :=
      sound_branch (by decide) (fun _ => sound_pure _) (sound_pure _)
    exact hnull.after (htwo.append (errsAreActions_singleton ht'))
  · have hnext : Tame .outOfFuel n (fun ts => ErrsAreActions (on :: event :: ts))
        (next : Parse Token) := .next fun t => errsAreActions_action hon hevent
    exact hnext.bind (fun t => sound_pure _) fun _ _ hts hus => hts.append hus

theorem tame_parseAction {on : Token} (hon : on.type = .tokenOn) (fk : ForeignKeyAST) :
    Tame .outOfFuel n (fun ts => ErrsAreActions (on :: ts)) (parseAction fk) := by
  refine .branch (Nat.le_succ n) (fun t ht => decide_eq_false ?_) (fun t ht => ?_)
    (.branch (Nat.le_succ n) (fun t ht => decide_eq_false ?_) (fun t ht => ?_)
      (.fail fun _ => nofun))
  · have ht : t.type = .tokenEOF := ht
    rw [ht]
    decide
  · exact (tame_parseReferentialAction hon (.inl (of_decide_eq_true ht))).bind
      (fun _ => sound_pure _) fun _ _ hts hus => hts.append hus
  · have ht : t.type = .tokenEOF := ht
    rw [ht]
    decide
  · exact (tame_parseReferentialAction hon (.inr (of_decide_eq_true ht))).bind
      (fun _ => sound_pure _) fun _ _ hts hus => hts.append hus

theorem sound_parseForeignKey : Sound (n + 1) (parseForeignKey (n + 1)) := by
  refine (sound_expect (by decide)).bind fun _ => (sound_expect (by decide)).bind fun _ =>
    (sound_expect (by decide)).bind fun _ => (sound_expect (by decide)).bind fun _ =>
    (sound_expect (by decide)).bind fun _ => (sound_expect (by decide)).bind fun _ =>
    (sound_expect (by decide)).bind fun _ => (sound_expect (by decide)).bind fun _ =>
    (sound_expect (by decide)).bind fun _ => ?_
  refine .loop (fun fk t ht => if_neg ?_) (fun fk t x hx => ?_) errsAreActions_nil
    (fun _ _ => .append) _
  · have ht : t.type = .tokenEOF := ht
    rw [ht]
    decide
  · obtain ⟨hon, hx⟩ := Option.ite_none_right_eq_some.mp hx
    cases hx
    exact tame_parseAction hon fk

theorem sound_parseColumnDef : Sound n (parseColumnDef n) :=
  (sound_expect (by decide)).bind fun _ => (sound_expect (by decide)).bind fun _ =>
    (sound_flag (by decide) ((sound_expect (by decide)).bind fun _ => sound_pure _)).bind fun _ =>
    (sound_flag (by decide) ((sound_expect (by decide)).bind fun _ => sound_pure _)).bind fun _ =>
    (sound_optional (by decide) (sound_parseExpr n)).bind fun _ => sound_pure _

theorem sound_parseTableItem : Sound (n + 1) (parseTableItem (n + 1)) :=
  sound_branch (by decide) (fun _ => sound_parseForeignKey.map _) (sound_parseColumnDef.map _)

theorem sound_parseCreateTable : Sound (n + 1) (parseCreateTable (n + 1)) :=
  (sound_expect (by decide)).bind fun _ => (sound_expect (by decide)).bind fun _ =>
    (sound_list sound_parseTableItem).bind fun _ => (sound_expect (by decide)).bind fun _ =>
    sound_pure _

theorem sound_parseCreateIndex (unique : Bool) : Sound n (parseCreateIndex unique) :=
  (sound_expect (by decide)).bind fun _ => (sound_expect (by decide)).bind fun _ =>
    (sound_expect (by decide)).bind fun _ => (sound_expect (by decide)).bind fun _ =>
    (sound_expect (by decide)).bind fun _ => (sound_expect (by decide)).bind fun _ => sound_pure _

theorem sound_parseCreate : Sound (n + 1) (parseCreate (n + 1)) := by
  refine sound_choose (Nat.le_succ _) (fun t ht => ?_) (fun t x hx => ?_)
    (sound_failAt fun _ => nofun)
  · obtain ht | ht := ht <;> rw [ht]
  · split at hx
    · cases hx
      exact sound_parseCreateTable.map _
    · cases hx
      exact (sound_expect (by decide)).bind fun _ => (sound_parseCreateIndex _).map _
    · cases hx
      exact (sound_parseCreateIndex _).map _
    · cases hx

theorem sound_parseDrop : Sound n parseDrop := by
  refine sound_choose (Nat.le_succ _) (fun t ht => ?_) (fun t x hx => ?_)
    (sound_failAt fun _ => nofun)
  · obtain ht | ht := ht <;> rw [ht]
  · split at hx
    iterate 2
      · cases hx
        exact (sound_expect (by decide)).bind fun _ => sound_pure _
    · cases hx

theorem sound_parseAnalyze : Sound n parseAnalyze :=
  sound_branch (by decide) (fun _ => sound_pure _) (sound_pure _)

theorem sound_parseStatement : Sound (n + 1) (parseStatement (n + 1)) := by
  refine sound_choose (Nat.le_succ _) (fun t ht => ?_) (fun t x hx => ?_)
    (sound_fail fun _ => nofun)
  · obtain ht | ht := ht <;> rw [ht]
  · split at hx
    · cases hx
      exact sound_parseSelect.map _
    · cases hx
      exact sound_parseInsert.map _
    · cases hx
      exact sound_parseUpdate.map _
    · cases hx
      exact sound_parseDelete.map _
    · cases hx
      exact sound_parseCreate
    · cases hx
      exact sound_parseDrop
    iterate 3
      · cases hx
        exact sound_pure _
    · cases hx
      exact sound_parseAnalyze.map _
    · cases hx

end MySQLight.Sql
