import MySQLight.Effect.Similar
import MySQLight.Executor.Execute
import MySQLight.Parser.Spelling

/-!
Statements that differ in the spelling of functions and actions.

An expression with a call of a function cannot be evaluated, whatever the
name is. So the statements make the same calls and fail together; they may
differ in the names that the errors carry, and in the values of aggregates
in the select list, which are the only place where a name counts. No
statement but `BEGIN`, `COMMIT` and `ROLLBACK` changes the session.
-/

namespace MySQLight.Sql

open MySQLight.Data MySQLight.Schema MySQLight.Effect MySQLight.Txn

/-- The error of a statement that does not return. -/
def ExecErr.stops : ExecErr → Bool
  | .blocked | .stackOverflow => true
  | _ => false

/-- Both errors stop the session, or none does. -/
def SameStop (e e' : ExecErr) : Prop := e.stops = e'.stops

instance : Std.Refl SameStop := ⟨fun _ => rfl⟩

/-- A call that a statement other than `BEGIN`, `COMMIT` and `ROLLBACK` may
make: locks are for the transaction of the session. -/
def Within (s : Session) : DbOp → Prop
  | .acquire txnID _ _ => s.currentTxn = some txnID
  | .beginTxn | .commitTxn _ | .rollbackTxn _ => False
  | _ => True

/-- The same calls, and results that are related by `P`. -/
abbrev InStep {α β : Type} (s : Session) (P : α → β → Prop) (x : Exec α) (y : Exec β) : Prop :=
  Proc.Rel s (Within s) SameStop P x y

/-! ### The session stays -/

section Calm

open Proc

variable {α β : Type} {s : Session} {x y : Exec α}

/-- The procedure asks for no lock of another session and leaves the session
as it is. -/
abbrev Calmly (s : Session) (x : Exec α) : Prop := Calm s (Within s) SameStop x

theorem calm_throw (e : ExecErr) : Calmly s (throw e : Exec α) := Calm.ofExcept (.error e)

theorem calm_pure (a : α) : Calmly s (pure a : Exec α) := Calm.ofExcept (.ok a)

theorem calm_perform {o : DbOp} (h : Within s o) : Calmly s (perform o) := Calm.call (I := DbI) h

theorem calm_ite {c : Prop} [Decidable c] (hx : Calmly s x) (hy : Calmly s y) :
    Calmly s (if c then x else y) := by
  split_ifs
  · exact hx
  · exact hy

theorem calm_acquire (table : Bytes) (mode : LockMode) : Calmly s (acquire table mode) := by
  refine Rel.get_bind ?_
  cases htxn : s.currentTxn with
  | none => exact calm_pure ()
  | some txnID =>
    exact Calm.bind (calm_perform htxn) fun _ => calm_ite (calm_pure ()) (calm_throw _)

theorem calm_getTable (name : Bytes) (wrap : CatalogErr → ExecErr) :
    Calmly s (getTable name wrap) :=
  Calm.bind (calm_perform trivial) fun _ => Calm.ofExcept _

theorem calm_indexesForTable (name : Bytes) : Calmly s (indexesForTable name) :=
  Calm.bind (calm_perform trivial) fun _ => Calm.ofExcept _

theorem calm_primaryKey (columns : List ColumnDef) (table : Bytes) :
    Calmly s (primaryKey columns table) := Calm.ofExcept _

theorem calm_findRowsMatchingValue (d : TableDef) (name : Bytes) (value : Value) :
    Calmly s (findRowsMatchingValue d name value) := by
  rw [findRowsMatchingValue]
  split
  · exact calm_throw _
  · exact Calm.bind (calm_perform trivial) fun _ => Calm.ofExcept _

theorem calm_verifyFKParents (row : Row) (d : TableDef) : Calmly s (verifyFKParents row d) := by
  refine Calm.forEach (fun fk => ?_) _
  rw [verifyParent]
  split
  · exact calm_pure ()
  · refine calm_ite (calm_pure ()) (Calm.bind (calm_getTable _ _) fun parent => ?_)
    exact Calm.bind (Calm.bind (calm_findRowsMatchingValue _ _ _) fun _ => calm_pure _) fun _ =>
      calm_ite (calm_pure ()) (calm_throw _)

theorem calm_updateColumnInRows (d : TableDef) (name : Bytes) (value : Value) (rows : List Row) :
    Calmly s (updateColumnInRows d name value rows) := by
  rw [updateColumnInRows]
  split
  · exact calm_throw _
  · refine calm_ite (calm_throw _) (Calm.bind (calm_primaryKey _ _) fun _ =>
      Calm.bind (calm_indexesForTable _) fun _ => Calm.forEach (fun _ => ?_) _)
    exact Calm.bind (Calm.ofExcept _) fun _ =>
      Calm.bind (calm_perform trivial) fun _ => Calm.ofExcept _

theorem calm_propagateKey (d : TableDef) (table : Bytes) (pk : Nat) (oldRow newRow : Row) :
    Calmly s (propagateKey d table pk oldRow newRow) := by
  refine calm_ite (calm_pure ()) (Calm.bind (calm_perform trivial) fun tables =>
    Calm.forEach (fun child => Calm.forEach (fun fk => ?_) _) _)
  refine calm_ite (Calm.bind (calm_findRowsMatchingValue _ _ _) fun rows =>
    calm_ite (calm_pure ()) ?_) (calm_pure ())
  split
  · exact calm_throw _
  · exact calm_updateColumnInRows _ _ _ _
  · exact calm_updateColumnInRows _ _ _ _

theorem calm_deleteRowsFromTable (depth : Nat) (d : TableDef) (rows : List Row) :
    Calmly s (deleteRowsFromTable depth d rows) := by
  induction depth generalizing d rows with
  | zero => exact calm_throw _
  | succ depth ih =>
    refine Calm.bind (calm_primaryKey _ _) fun _ => Calm.bind (calm_indexesForTable _) fun _ =>
      Calm.forEach (fun row => Calm.bind (Calm.bind (calm_perform (o := .listTables) trivial)
        fun tables =>
        Calm.forEach (fun child => Calm.forEach (fun fk => ?_) _) _) fun _ =>
        Calm.bind (Calm.ofExcept _) fun _ => Calm.bind
          (calm_perform (o := .deleteRow _ _ _ _) trivial) fun _ => Calm.ofExcept _) _
    refine calm_ite (Calm.bind (calm_findRowsMatchingValue _ _ _) fun rows =>
      calm_ite (calm_pure ()) ?_) (calm_pure ())
    split
    · exact calm_throw _
    · exact ih _ _
    · exact calm_updateColumnInRows _ _ _ _

end Calm

/-! ### Expressions -/

section Expressions

variable {α β : Type} {f : Bytes → Bytes} {columns : List ColumnDef} {row : Row}

instance : Std.Refl (fun _ _ : EvalErr => True) := ⟨fun _ => trivial⟩

theorem evalExpr_respell (f : Bytes → Bytes) (e : Expr) (row : Row) (columns : List ColumnDef) :
    Alike (fun _ _ => True) Eq (evalExpr e row columns)
      (evalExpr (e.respell f) row columns) := by
  induction e using evalExpr.induct with
  | case1 | case2 | case6 => rw [Expr.respell]; exact .of_eq rfl
  | case3 left op right ihl ihr =>
    rw [Expr.respell, evalExpr, evalExpr]
    exact ihl.bind fun a b hab => ihr.bind fun c d hcd => .of_eq (by rw [hab, hcd])
  | case4 op operand ih =>
    rw [Expr.respell, evalExpr, evalExpr]
    exact ih.bind fun a b hab => .of_eq (by rw [hab])
  | case5 name args star =>
    rw [Expr.respell, evalExpr, evalExpr]
    exact .error trivial

/-- What a respelled argument does not change, arguments that are equal once
they are respelled do not change. -/
theorem alike_of_respell {respell : α → α} {g : α → Except ExecErr β}
    (hg : ∀ a, Alike SameStop Eq (g a) (g (respell a))) {a b : α} (h : respell a = respell b) :
    Alike SameStop Eq (g a) (g b) := by
  have ha := hg a
  have hb := hg b
  rw [← h] at hb
  generalize g a = x, g b = y, g (respell a) = z at *
  cases ha with
  | error he =>
    cases hb with
    | error he' => exact .error (Eq.trans he (Eq.symm he'))
  | ok heq =>
    cases hb with
    | ok heq' => exact .ok (heq.trans heq'.symm)

theorem eval_respell (e : Expr) : Alike SameStop Eq ((evalExpr e row columns).mapError .eval)
    ((evalExpr (e.respell f) row columns).mapError .eval) := by
  have h := evalExpr_respell f e row columns
  generalize evalExpr e row columns = x, evalExpr (e.respell f) row columns = y at h
  cases h with
  | error => exact .error rfl
  | ok h => exact .ok h

theorem evals_respell (es : List Expr) :
    Alike SameStop Eq (es.mapM fun e => (evalExpr e row columns).mapError .eval)
      ((es.map (Expr.respell f)).mapM fun e => (evalExpr e row columns).mapError .eval) := by
  rw [List.mapM_map]
  refine (Alike.mapM (List.forall₂_same.mpr fun e _ => eval_respell e)).imp fun as bs h => ?_
  rwa [List.forall₂_eq_eq_eq] at h

theorem holds_respell (e : Expr) :
    Alike SameStop Eq (holds e columns row) (holds (e.respell f) columns row) := by
  have h := evalExpr_respell f e row columns
  rw [holds, holds]
  generalize evalExpr e row columns = x, evalExpr (e.respell f) row columns = y at h
  cases h with
  | error => exact .error rfl
  | ok h => rw [h]; exact .ok rfl

theorem store_respell (e : Expr) (type : DataType) :
    Alike SameStop Eq ((evalExprToValue e type).mapError .store)
      ((evalExprToValue (e.respell f) type).mapError .store) := by
  have h := evalExpr_respell f e [] []
  rw [evalExprToValue, evalExprToValue]
  generalize evalExpr e [] [] = x, evalExpr (e.respell f) [] [] = y at h
  cases h with
  | error => exact .error rfl
  | ok h => rw [h]; exact .of_eq rfl

theorem sortKey_respell (e : Expr) : sortKey e columns row = sortKey (e.respell f) columns row := by
  have h := evalExpr_respell f e row columns
  rw [sortKey, sortKey]
  generalize evalExpr e row columns = x, evalExpr (e.respell f) row columns = y at h
  cases h with
  | error => rfl
  | ok h => exact h

end Expressions

/-! ### `INSERT`, `UPDATE` and `DELETE` -/

section Writes

open Proc

variable {f : Bytes → Bytes} {s : Session}

theorem forall₂_of_map_eq {α γ : Type} {g : α → γ} {as bs : List α} (h : as.map g = bs.map g) :
    List.Forall₂ (fun a b => g a = g b) as bs := by
  rw [← List.forall₂_eq_eq_eq, List.forall₂_map_left_iff, List.forall₂_map_right_iff] at h
  exact h

theorem element_respell (value : Option ColumnDef) (e : Expr) :
    Alike SameStop Eq (value.elim (.ok .null) fun c => (evalExprToValue e c.type).mapError .store)
      (value.elim (.ok .null) fun c =>
        (evalExprToValue (e.respell f) c.type).mapError .store) := by
  cases value with
  | none => exact .ok rfl
  | some c => exact store_respell e c.type

theorem buildInsertRow_respell (names : List Bytes) (d : TableDef) (es : List Expr) :
    Alike SameStop Eq (buildInsertRow es names d)
      (buildInsertRow (es.map (Expr.respell f)) names d) := by
  rw [buildInsertRow, buildInsertRow, List.length_map]
  split_ifs
  · exact .of_eq rfl
  · rw [List.zip_map_left, List.mapM_map]
    refine (Alike.mapM (List.forall₂_same.mpr fun p _ => store_respell p.1 p.2.type)).imp
      fun as bs h => ?_
    rwa [List.forall₂_eq_eq_eq] at h
  · exact .of_eq rfl
  · rw [List.zip_map_right, List.foldlM_map]
    refine Alike.foldlM (List.forall₂_same.mpr fun p _ row row' hrow => ?_) rfl
    rw [hrow, setNamed, setNamed]
    dsimp only [Prod.map, id]
    split
    · exact .of_eq rfl
    · exact (element_respell _ _).bind fun a b hab => .of_eq (by rw [hab])

theorem assignments_respell (d : TableDef) (table : Bytes) (row : Row) (set : List Assignment) :
    Alike SameStop Eq (set.foldlM (assign d table) row)
      ((set.map (Assignment.respell f)).foldlM (assign d table) row) := by
  rw [List.foldlM_map]
  refine Alike.foldlM (List.forall₂_same.mpr fun a _ row row' hrow => ?_) rfl
  rw [hrow, assign, assign]
  dsimp only [Assignment.respell]
  split
  · exact .of_eq rfl
  · exact (element_respell _ _).bind fun a b hab => .of_eq (by rw [hab])

theorem collect_alike {columns : List ColumnDef} {keep keep' : Row → Except ExecErr Bool}
    (h : ∀ row, Alike SameStop Eq (keep row) (keep' row)) (values : List Bytes) :
    Alike SameStop Eq (collect columns keep values) (collect columns keep' values) := by
  induction values with
  | nil => exact .ok rfl
  | cons value values ih =>
    refine (Alike.of_eq rfl).bind fun row row' hrow => hrow ▸ (h row).bind fun k k' hk =>
      ih.bind fun rows rows' hrows => .of_eq ?_
    rw [hk, hrows]

theorem rel_matchingRows (d : TableDef) {condition condition' : Option Expr}
    (h : condition.map (Expr.respell f) = condition'.map (Expr.respell f)) :
    InStep s Eq (matchingRows d condition) (matchingRows d condition') := by
  refine (calm_perform (o := .scan d) trivial).bind fun values => .ofExcept ?_
  refine collect_alike (fun row => ?_) values
  cases condition with
  | none =>
    obtain rfl : condition' = none := Option.map_eq_none_iff.mp h.symm
    exact .ok rfl
  | some predicate =>
    obtain ⟨predicate', rfl, hpredicate⟩ := Option.map_eq_some_iff.mp h.symm
    exact alike_of_respell (fun predicate => holds_respell predicate) hpredicate.symm

theorem rel_executeInsert {stmt stmt' : InsertStmt} (h : stmt.respell f = stmt'.respell f) :
    InStep s Eq (executeInsert stmt) (executeInsert stmt') := by
  obtain ⟨table, names, values⟩ := stmt
  obtain ⟨table', names', values'⟩ := stmt'
  simp only [InsertStmt.respell, InsertStmt.mk.injEq] at h
  obtain ⟨rfl, rfl, hvalues⟩ := h
  refine (calm_acquire _ _).bind fun _ => (calm_getTable _ _).bind fun d =>
    (calm_primaryKey _ _).bind fun pk => (calm_indexesForTable _).bind fun ix =>
    .forEach ((forall₂_of_map_eq hvalues).imp fun es es' hes => ?_)
  refine (Rel.ofExcept (alike_of_respell (buildInsertRow_respell names d) hes)).bind
    fun row _ hrow => ?_
  subst hrow
  exact Calm.bind (Calm.ofExcept _) fun _ => Calm.bind (calm_verifyFKParents _ _) fun _ =>
    Calm.bind (Calm.ofExcept _) fun _ => Calm.bind (calm_perform trivial) fun _ => Calm.ofExcept _

theorem rel_executeUpdate {stmt stmt' : UpdateStmt} (h : stmt.respell f = stmt'.respell f) :
    InStep s Eq (executeUpdate stmt) (executeUpdate stmt') := by
  obtain ⟨table, set, condition⟩ := stmt
  obtain ⟨table', set', condition'⟩ := stmt'
  simp only [UpdateStmt.respell, UpdateStmt.mk.injEq] at h
  obtain ⟨rfl, hset, hcondition⟩ := h
  refine (calm_acquire _ _).bind fun _ => (calm_getTable _ _).bind fun d =>
    (rel_matchingRows d hcondition).bind fun rows _ hrows =>
    (calm_primaryKey _ _).bind fun pk => (calm_indexesForTable _).bind fun ix => ?_
  subst hrows
  refine .forEach (List.forall₂_same.mpr fun oldRow _ => ?_)
  refine (Rel.ofExcept (alike_of_respell (assignments_respell d table oldRow) hset)).bind
    fun row _ hrow => ?_
  subst hrow
  exact Calm.bind (Calm.ofExcept _) fun _ => Calm.bind (Calm.ofExcept _) fun _ =>
    Calm.bind (Calm.ofExcept _) fun _ => Calm.bind (calm_verifyFKParents _ _) fun _ =>
    Calm.bind (calm_propagateKey _ _ _ _ _) fun _ => Calm.bind (calm_perform trivial) fun _ =>
    Calm.ofExcept _

theorem rel_executeDelete {stmt stmt' : DeleteStmt} (h : stmt.respell f = stmt'.respell f)
    (depth : Nat) : InStep s Eq (executeDelete depth stmt) (executeDelete depth stmt') := by
  obtain ⟨table, condition⟩ := stmt
  obtain ⟨table', condition'⟩ := stmt'
  simp only [DeleteStmt.respell, DeleteStmt.mk.injEq] at h
  obtain ⟨rfl, hcondition⟩ := h
  refine (calm_acquire _ _).bind fun _ => (calm_getTable _ _).bind fun d =>
    (rel_matchingRows d hcondition).bind fun rows _ hrows => ?_
  subst hrows
  exact calm_deleteRowsFromTable depth d rows

end Writes

/-! ### Operators -/

section Operators

open Proc

variable {f : Bytes → Bytes} {s : Session} {columns : List ColumnDef} {P : Row → Row → Prop}
  {op op' right right' : Operator}

/-- Opened streams that make the same calls and deliver related rows. -/
abbrev SameStream (s : Session) (P : Row → Row → Prop) : Rows → Rows → Prop :=
  Stream.Rel (Within s) SameStop P

/-- The operators make the same calls and deliver related rows. -/
abbrev Similar (s : Session) (P : Row → Row → Prop) (op op' : Operator) : Prop :=
  InStep s (SameStream s P) op op'

theorem rel_drain {rows rows' : Rows} (h : SameStream s P rows rows') :
    InStep s (List.Forall₂ P) (drain rows) (drain rows') :=
  .ofProg (h.fold (fun _ _ _ _ hrows hrow => .ok (List.rel_append hrows (.cons hrow .nil))) .nil)

theorem similar_tableScan (table : Bytes) (d : TableDef) :
    Similar s Eq (tableScan table d) (tableScan table d) :=
  (calm_acquire _ _).bind fun _ => (calm_perform (o := .scan d) trivial).bind fun _ =>
    .pure ((Stream.Rel.ofList (List.forall₂_same.mpr fun _ _ => rfl)).filterMap_alike fun _ =>
      .of_eq rfl)

theorem similar_filter (h : Similar s Eq op op') {predicate predicate' : Expr}
    (hpredicate : predicate.respell f = predicate'.respell f) :
    Similar s Eq (filter op predicate columns) (filter op' predicate' columns) := by
  refine h.bind fun rows rows' hrows => .pure (hrows.filterMap_alike fun row => ?_)
  refine (alike_of_respell (fun e => holds_respell e) hpredicate).bind fun b b' hb => ?_
  rw [hb]
  exact .ok rfl

theorem combine_respell (condition : Option Expr) (leftRow rightRow : Row) :
    Alike SameStop Eq (combine condition columns leftRow rightRow)
      (combine (condition.map (Expr.respell f)) columns leftRow rightRow) := by
  cases condition with
  | none => exact .ok rfl
  | some predicate =>
    refine (holds_respell predicate).bind fun b b' hb => ?_
    rw [hb]
    exact .ok rfl

theorem similar_nestedLoopJoin (h : Similar s Eq op op') (hright : Similar s Eq right right')
    {condition condition' : Option Expr}
    (hcondition : condition.map (Expr.respell f) = condition'.map (Expr.respell f)) :
    Similar s Eq (nestedLoopJoin op right condition columns)
      (nestedLoopJoin op' right' condition' columns) := by
  have hcombine : ∀ leftRow rightRow, Alike SameStop Eq
      (combine condition columns leftRow rightRow) (combine condition' columns leftRow rightRow) :=
    fun leftRow rightRow =>
      alike_of_respell (fun condition => combine_respell condition leftRow rightRow) hcondition
  refine h.bind fun rows rows' hrows => hright.bind fun rights rights' hrights =>
    (Rel.ofProg hrows.next).bind fun first first' hfirst => .get_bind ?_
  cases hfirst with
  | none => exact .pure rfl
  | @some a b hab =>
    obtain ⟨leftRow, rest⟩ := a
    obtain ⟨leftRow', rest'⟩ := b
    obtain ⟨rfl, hrest⟩ := hab
    refine .pure ((hrights.filterMap_alike (hcombine leftRow)).append (hrest.flatMap ?_))
    rintro row _ rfl
    exact (Stream.Rel.ofProg (Prog.Rel.imp hright fun _ _ h => h.2.2)).filterMap_alike
      (hcombine row)

theorem similar_project (h : Similar s Eq op op') {exprs exprs' : List Expr}
    (hexprs : exprs.map (Expr.respell f) = exprs'.map (Expr.respell f)) :
    Similar s Eq (project op exprs columns) (project op' exprs' columns) := by
  refine h.bind fun rows rows' hrows => .pure (hrows.filterMap_alike fun row => ?_)
  refine (alike_of_respell (fun es => evals_respell es) hexprs).bind fun vs vs' hvs => ?_
  rw [hvs]
  exact .ok rfl

theorem sortLess_respell (a b : Row) (orderBy : List OrderClause) :
    sortLess columns a b (orderBy.map (OrderClause.respell f)) = sortLess columns a b orderBy := by
  induction orderBy with
  | nil => rfl
  | cons clause clauses ih =>
    rw [List.map_cons, sortLess, sortLess, ih]
    dsimp only [OrderClause.respell]
    rw [← sortKey_respell, ← sortKey_respell]

theorem similar_sort (h : Similar s Eq op op') {orderBy orderBy' : List OrderClause}
    (horder : orderBy.map (OrderClause.respell f) = orderBy'.map (OrderClause.respell f)) :
    Similar s Eq (sort op orderBy columns) (sort op' orderBy' columns) := by
  refine h.bind fun rows rows' hrows => (rel_drain hrows).bind fun as bs hab => ?_
  rw [List.forall₂_eq_eq_eq] at hab
  subst hab
  have hless : ∀ a b, sortLess columns a b orderBy = sortLess columns a b orderBy' := fun a b => by
    rw [← sortLess_respell (f := f), horder, sortLess_respell]
  simp only [hless]
  exact .pure (.ofList (List.forall₂_same.mpr fun _ _ => rfl))

theorem similar_limit (h : Similar s P op op') (n : Int) : Similar s P (limit op n) (limit op' n) :=
  h.bind fun _ _ hrows => .pure (hrows.take _)

end Operators

/-! ### Aggregates -/

section Aggregates

/-- The names that `updateAggState` and `finalizeAgg` look for. -/
def aggregateNames : List Bytes :=
  [ascii "COUNT", ascii "SUM", ascii "AVG", ascii "MIN", ascii "MAX"]

/-- The expression is not a call of a function with another name. -/
def Expr.isKnown : Expr → Bool
  | .funcCall name _ _ => name ∈ aggregateNames
  | _ => true

theorem accumulate_of_notMem {name : Bytes} (h : name ∉ aggregateNames) (state : AggState)
    (value : Datum) : accumulate state name value = state := by
  simp only [aggregateNames, List.mem_cons, List.not_mem_nil, or_false, not_or] at h
  simp only [accumulate, h, if_false, or_self]

theorem finalizeAgg_of_notMem {name : Bytes} (h : name ∉ aggregateNames) (state : AggState) :
    finalizeAgg name state = .null := by
  simp only [aggregateNames, List.mem_cons, List.not_mem_nil, or_false, not_or] at h
  simp only [finalizeAgg, h, if_false]

/-- Names that are known in both spellings are the same, as they are in upper case. -/
theorem eq_of_toUpper_eq {name name' : Bytes} (h : toUpper name = toUpper name')
    (hknown : name ∈ aggregateNames ↔ name' ∈ aggregateNames) :
    name = name' ∨ name ∉ aggregateNames ∧ name' ∉ aggregateNames := by
  have hinj : ∀ a ∈ aggregateNames, ∀ b ∈ aggregateNames, toUpper a = toUpper b → a = b := by decide
  by_cases hmem : name ∈ aggregateNames
  · exact .inl (hinj name hmem name' (hknown.mp hmem) h)
  · exact .inr ⟨hmem, fun hmem' => hmem (hknown.mpr hmem')⟩

/-- Two select lists and something for each of their expressions. -/
inductive Columnwise {γ : Type} (R : Expr → Expr → γ → γ → Prop) :
    List Expr → List Expr → List γ → List γ → Prop
  | nil : Columnwise R [] [] [] []
  | cons {e e' : Expr} {es es' : List Expr} {c c' : γ} {cs cs' : List γ} (h : R e e' c c')
      (hs : Columnwise R es es' cs cs') : Columnwise R (e :: es) (e' :: es') (c :: cs) (c' :: cs')

/-- The states of expressions that are known alike are the same. -/
def StateFor (e e' : Expr) (s s' : AggState) : Prop :=
  e.respell toUpper = e'.respell toUpper ∧ (e.isKnown = e'.isKnown → s = s')

/-- The values of expressions that are known alike are the same, and the
others are NULL where they are not known. -/
structure ValueFor (e e' : Expr) (v v' : Value) : Prop where
  eq : e.isKnown = e'.isKnown → v = v'
  null : e.isKnown = false → v = .null
  null' : e'.isKnown = false → v' = .null

variable {γ δ : Type} {s : Session} {columns : List ColumnDef} {exprs exprs' : List Expr}

theorem Columnwise.ofMap {R : Expr → Expr → γ → γ → Prop} {g : Expr → Except ExecErr γ}
    (hg : ∀ e e', e.respell toUpper = e'.respell toUpper → Alike SameStop (R e e') (g e) (g e'))
    (h : exprs.map (Expr.respell toUpper) = exprs'.map (Expr.respell toUpper)) :
    Alike SameStop (Columnwise R exprs exprs') (exprs.mapM g) (exprs'.mapM g) := by
  replace h := forall₂_of_map_eq h
  induction h with
  | nil => exact .ok .nil
  | cons he _ ih =>
    rw [List.mapM_cons, List.mapM_cons]
    exact (hg _ _ he).bind fun c c' hc => ih.bind fun cs cs' hcs => .ok (.cons hc hcs)

theorem Columnwise.zip_mapM {R : Expr → Expr → γ → γ → Prop} {R' : Expr → Expr → δ → δ → Prop}
    {g : γ × Expr → Except ExecErr δ} {cs cs' : List γ} (h : Columnwise R exprs exprs' cs cs')
    (hg : ∀ e e' c c', R e e' c c' → Alike SameStop (R' e e') (g (c, e)) (g (c', e'))) :
    Alike SameStop (Columnwise R' exprs exprs') ((cs.zip exprs).mapM g)
      ((cs'.zip exprs').mapM g) := by
  induction h with
  | nil => exact .ok .nil
  | cons hc _ ih =>
    rw [List.zip_cons_cons, List.zip_cons_cons, List.mapM_cons, List.mapM_cons]
    exact (hg _ _ _ _ hc).bind fun d d' hd => ih.bind fun ds ds' hds => .ok (.cons hd hds)

theorem argument_respell {f : Bytes → Bytes} {row : Row} (args : List Expr) :
    Alike SameStop Eq (argument args columns row)
      (argument (args.map (Expr.respell f)) columns row) := by
  cases args with
  | nil => exact .ok rfl
  | cons arg _ => exact eval_respell arg

theorem stateFor_updateAggState {row : Row} {e e' : Expr} {s s' : AggState}
    (h : StateFor e e' s s') : Alike SameStop (StateFor e e') (updateAggState columns row s e)
      (updateAggState columns row s' e') := by
  have hrespell := h.1
  cases e with
  | funcCall name args star =>
    cases e' with
    | funcCall name' args' star' =>
      simp only [Expr.respell, Expr.respellAll_eq_map, Expr.funcCall.injEq] at hrespell
      obtain ⟨hname, hargs, rfl⟩ := hrespell
      rw [updateAggState, updateAggState]
      split_ifs
      · exact .ok ⟨h.1, fun hknown => by rw [h.2 hknown]⟩
      · refine (alike_of_respell (fun args => argument_respell args) hargs).bind
          fun value value' hvalue => .ok ⟨h.1, fun hknown => ?_⟩
        rw [hvalue, h.2 hknown]
        obtain rfl | ⟨hmem, hmem'⟩ := eq_of_toUpper_eq hname (decide_eq_decide.mp hknown)
        · rfl
        · rw [accumulate_of_notMem hmem, accumulate_of_notMem hmem']
    | _ => simp only [Expr.respell, reduceCtorEq] at hrespell
  | _ =>
    cases e' with
    | funcCall => simp only [Expr.respell, reduceCtorEq] at hrespell
    | _ => exact .ok h

theorem valueFor_groupRow {row : Row} {states states' : List AggState}
    (h : Columnwise StateFor exprs exprs' states states') :
    Alike SameStop (Columnwise ValueFor exprs exprs') (groupRow exprs columns states row)
      (groupRow exprs' columns states' row) := by
  refine h.zip_mapM fun e e' s s' hs => ?_
  have hrespell := hs.1
  cases e with
  | funcCall name args star =>
    cases e' with
    | funcCall name' args' star' =>
      simp only [Expr.respell, Expr.funcCall.injEq] at hrespell
      refine .ok ⟨fun hknown => ?_, fun hknown => finalizeAgg_of_notMem (by
        simpa [Expr.isKnown] using hknown) s, fun hknown => finalizeAgg_of_notMem (by
        simpa [Expr.isKnown] using hknown) s'⟩
      rw [hs.2 hknown]
      obtain rfl | ⟨hmem, hmem'⟩ :=
        eq_of_toUpper_eq hrespell.1 (decide_eq_decide.mp hknown)
      · rfl
      · rw [finalizeAgg_of_notMem hmem, finalizeAgg_of_notMem hmem']
    | _ => simp only [Expr.respell, reduceCtorEq] at hrespell
  | _ =>
    cases e' with
    | funcCall => simp only [Expr.respell, reduceCtorEq] at hrespell
    | _ =>
      refine (alike_of_respell (fun e => eval_respell e) hrespell).bind fun d d' hd => .ok ?_
      exact ⟨fun _ => congrArg toValue hd, by simp [Expr.isKnown], by simp [Expr.isKnown]⟩

/-- The same groups, with states that are matched. -/
def SameGroups (exprs exprs' : List Expr) (groups groups' : Groups) : Prop :=
  List.Forall₂ (fun group group' => group.1 = group'.1 ∧
    Columnwise StateFor exprs exprs' group.2.1 group'.2.1 ∧ group.2.2 = group'.2.2) groups groups'

theorem sameGroups_addToGroups {row : Row} {key : Bytes} {groups groups' : Groups}
    (hexprs : exprs.map (Expr.respell toUpper) = exprs'.map (Expr.respell toUpper))
    (h : SameGroups exprs exprs' groups groups') :
    Alike SameStop (SameGroups exprs exprs') (addToGroups exprs columns row key groups)
      (addToGroups exprs' columns row key groups') := by
  induction h with
  | nil =>
    rw [addToGroups, addToGroups]
    refine (Columnwise.ofMap (fun e e' he => ?_) hexprs).bind fun states states' hstates =>
      .ok (.cons ⟨rfl, hstates, rfl⟩ .nil)
    exact stateFor_updateAggState ⟨he, fun _ => rfl⟩
  | @cons group group' groups groups' hgroup hgroups ih =>
    obtain ⟨key', states, firstRow⟩ := group
    obtain ⟨key'', states', firstRow'⟩ := group'
    obtain ⟨rfl, hstates, rfl⟩ := hgroup
    rw [addToGroups, addToGroups]
    dsimp only at hstates ⊢
    split_ifs
    · exact (hstates.zip_mapM fun _ _ _ _ hs => stateFor_updateAggState hs).bind
        fun cs cs' hcs => .ok (.cons ⟨rfl, hcs, rfl⟩ hgroups)
    · exact ih.bind fun gs gs' hgs => .ok (.cons ⟨rfl, hstates, rfl⟩ hgs)

theorem groupKey_respell {f : Bytes → Bytes} {row : Row} (groupBy : List Expr) :
    Alike SameStop Eq (groupKey groupBy columns row)
      (groupKey (groupBy.map (Expr.respell f)) columns row) := by
  rw [groupKey, groupKey]
  simp only [List.map_eq_nil_iff]
  split_ifs
  · exact .ok rfl
  · refine (evals_respell groupBy).bind fun vs vs' hvs => ?_
    rw [hvs]
    exact .ok rfl

theorem similar_aggregate {op op' : Operator} {groupBy groupBy' : List Expr}
    (h : Similar s Eq op op')
    (hgroupBy : groupBy.map (Expr.respell toUpper) = groupBy'.map (Expr.respell toUpper))
    (hexprs : exprs.map (Expr.respell toUpper) = exprs'.map (Expr.respell toUpper)) :
    Similar s (Columnwise ValueFor exprs exprs') (aggregate op groupBy exprs columns)
      (aggregate op' groupBy' exprs' columns) := by
  refine h.bind fun rows rows' hrows => (Proc.Rel.ofProg (hrows.fold (Q := SameGroups exprs exprs')
    (fun groups groups' row row' hgroups hrow => ?_) .nil)).bind fun groups groups' hgroups =>
    (Proc.Rel.ofExcept (Alike.mapM (hgroups.imp fun group group' hgroup => ?_))).bind
    fun results results' hresults => .pure (.ofList hresults)
  · subst hrow
    refine (alike_of_respell (fun groupBy => groupKey_respell groupBy) hgroupBy).bind
      fun key key' hkey => ?_
    subst hkey
    exact sameGroups_addToGroups hexprs hgroups
  · rw [hgroup.2.2]
    exact valueFor_groupRow hgroup.2.1

/-- Columnwise rows are equal if the columns of which only one is known are NULL. -/
theorem Columnwise.eq_iff {row row' : Row} (h : Columnwise ValueFor exprs exprs' row row') :
    row = row' ↔ ∀ i : Nat, (exprs.map Expr.isKnown)[i]? ≠ (exprs'.map Expr.isKnown)[i]? →
      row[i]? = some Value.null ∧ row'[i]? = some Value.null := by
  induction h with
  | nil => simp
  | @cons e e' es es' v v' row row' hv _ ih =>
    have hhead : v = v' ↔ (e.isKnown ≠ e'.isKnown → v = .null ∧ v' = .null) := by
      refine ⟨fun heq hne => ?_, fun hnull => ?_⟩
      · cases hknown : e.isKnown with
        | false => exact ⟨hv.null hknown, heq ▸ hv.null hknown⟩
        | true =>
          have hknown' : e'.isKnown = false := by
            rw [hknown] at hne
            exact Bool.eq_false_iff.mpr hne.symm
          exact ⟨heq ▸ hv.null' hknown', hv.null' hknown'⟩
      · by_cases heq : e.isKnown = e'.isKnown
        · exact hv.eq heq
        · rw [(hnull heq).1, (hnull heq).2]
    rw [List.cons.injEq, hhead, ih]
    refine ⟨fun ⟨hfirst, hrest⟩ i => ?_, fun hall => ⟨?_, fun i => ?_⟩⟩
    · cases i with
      | zero => simpa using hfirst
      | succ i => simpa using hrest i
    · simpa using hall 0
    · simpa using hall (i + 1)

/-- Results are equal if the columns of which only one is known are NULL in them. -/
def SameRows (exprs exprs' : List Expr) (rows rows' : List Row) : Prop :=
  rows = rows' ↔ ∀ i : Nat, (exprs.map Expr.isKnown)[i]? ≠ (exprs'.map Expr.isKnown)[i]? →
    ∀ row ∈ rows ++ rows', row[i]? = some Value.null

theorem Columnwise.sameRows {rows rows' : List Row}
    (h : List.Forall₂ (Columnwise ValueFor exprs exprs') rows rows') :
    SameRows exprs exprs' rows rows' := by
  rw [SameRows]
  induction h with
  | nil => simp
  | cons hrow _ ih =>
    rw [List.cons.injEq, hrow.eq_iff, ih]
    simp only [List.cons_append, List.forall_mem_cons, List.forall_mem_append]
    constructor
    · exact fun ⟨hfirst, hrest⟩ i hi =>
        ⟨(hfirst i hi).1, (hrest i hi).1, (hfirst i hi).2, (hrest i hi).2⟩
    · exact fun hall => ⟨fun i hi => ⟨(hall i hi).1, (hall i hi).2.2.1⟩,
        fun i hi => ⟨(hall i hi).2.1, (hall i hi).2.2.2⟩⟩

end Aggregates

/-! ### `SELECT` -/

section Selects

open Proc

variable {f : Bytes → Bytes} {s : Session} {columns : List ColumnDef} {op op' : Operator}

theorem containsAggregate_respell (e : Expr) :
    containsAggregate (e.respell f) = containsAggregate e := by
  induction e using containsAggregate.induct with
  | case1 => rw [Expr.respell, containsAggregate, containsAggregate]
  | case2 left op right ihl ihr =>
    rw [Expr.respell, containsAggregate, containsAggregate, ihl, ihr]
  | case3 op operand ih => rw [Expr.respell, containsAggregate, containsAggregate, ih]
  | case4 e h₁ h₂ h₃ =>
    cases e with
    | binaryExpr => exact absurd rfl (h₂ _ _ _)
    | unaryExpr => exact absurd rfl (h₃ _ _)
    | funcCall => exact absurd rfl (h₁ _ _ _)
    | _ => rfl

theorem hasAggregates_respell (es : List Expr) :
    hasAggregates (es.map (Expr.respell f)) = hasAggregates es := by
  rw [hasAggregates, hasAggregates, List.any_map]
  exact congrArg es.any (funext containsAggregate_respell)

theorem isSelectStar_respell (es : List Expr) :
    isSelectStar (es.map (Expr.respell f)) = isSelectStar es := by
  match es with
  | [] => rfl
  | _ :: _ :: _ => simp [isSelectStar]
  | [e] => cases e <;> simp [isSelectStar, Expr.respell]

/-- Without aggregates there is nothing that is not known. -/
theorem SameRows.of_eq {es es' : List Expr}
    (h : es.map (Expr.respell f) = es'.map (Expr.respell f)) (hes : hasAggregates es = false)
    (rows : List Row) : SameRows es es' rows rows := by
  have hknown : ∀ {es : List Expr}, hasAggregates es = false →
      es.map Expr.isKnown = List.replicate es.length true := by
    intro es hes
    refine List.map_eq_replicate_iff.mpr fun e he => ?_
    have hnot := List.any_eq_false.mp hes e he
    cases e with
    | funcCall => simp [containsAggregate] at hnot
    | _ => rfl
  have hes' : hasAggregates es' = false := by
    rw [← hasAggregates_respell (f := f), ← h, hasAggregates_respell]
    exact hes
  have hlength : es.length = es'.length := by simpa using congrArg List.length h
  refine ⟨fun _ i hi => absurd ?_ hi, fun _ => rfl⟩
  rw [hknown hes, hknown hes', hlength]

theorem similar_joinTables (h : Similar s Eq op op') {joins joins' : List JoinClause}
    (hjoins : joins.map (JoinClause.respell f) = joins'.map (JoinClause.respell f)) :
    InStep s (fun p p' => Similar s Eq p.1 p'.1 ∧ p.2 = p'.2) (joinTables op columns joins)
      (joinTables op' columns joins') := by
  replace hjoins := forall₂_of_map_eq hjoins
  induction hjoins generalizing op op' columns with
  | nil => exact .pure ⟨h, rfl⟩
  | @cons join join' joins joins' hjoin hjoins ih =>
    obtain ⟨table, _, condition⟩ := join
    obtain ⟨table', _, condition'⟩ := join'
    simp only [JoinClause.respell, JoinClause.mk.injEq] at hjoin
    obtain ⟨rfl, _, hcondition⟩ := hjoin
    rw [joinTables, joinTables]
    exact (calm_getTable _ _).bind fun d =>
      ih (similar_nestedLoopJoin h (similar_tableScan table d) hcondition)

theorem rel_collectRows {P : Row → Row → Prop} (h : Similar s P op op') :
    InStep s (List.Forall₂ P) (collectRows op) (collectRows op') :=
  h.bind fun _ _ hrows => rel_drain hrows

theorem similar_where (h : Similar s Eq op op') {condition condition' : Option Expr}
    (hcondition : condition.map (Expr.respell f) = condition'.map (Expr.respell f)) :
    Similar s Eq (condition.elim op fun predicate => filter op predicate columns)
      (condition'.elim op' fun predicate => filter op' predicate columns) := by
  cases condition with
  | none =>
    obtain rfl : condition' = none := Option.map_eq_none_iff.mp hcondition.symm
    exact h
  | some predicate =>
    obtain ⟨predicate', rfl, hpredicate⟩ := Option.map_eq_some_iff.mp hcondition.symm
    exact similar_filter h hpredicate.symm

theorem similar_sorted (h : Similar s Eq op op') {stmt stmt' : SelectStmt}
    (horder : stmt.orderBy.map (OrderClause.respell f) =
      stmt'.orderBy.map (OrderClause.respell f)) :
    Similar s Eq (sorted stmt columns op) (sorted stmt' columns op') := by
  have hempty : stmt.orderBy.isEmpty = stmt'.orderBy.isEmpty := by
    simpa using congrArg List.isEmpty horder
  rw [sorted, sorted, hempty]
  split_ifs
  · exact h
  · exact similar_sort h horder

theorem similar_projected (h : Similar s Eq op op') {stmt stmt' : SelectStmt}
    (hcolumns : stmt.columns.map (Expr.respell f) = stmt'.columns.map (Expr.respell f)) :
    Similar s Eq (projected stmt columns op) (projected stmt' columns op') := by
  rw [projected, projected, ← isSelectStar_respell (f := f) stmt.columns, hcolumns,
    isSelectStar_respell]
  split_ifs
  · exact h
  · exact similar_project h hcolumns

theorem rel_overJoins (h : Similar s Eq op op') {stmt stmt' : SelectStmt}
    (hstmt : stmt.respell toUpper = stmt'.respell toUpper) :
    InStep s (SameRows stmt.columns stmt'.columns)
      (collectRows (overJoins stmt op columns)) (collectRows (overJoins stmt' op' columns)) := by
  simp only [SelectStmt.respell, SelectStmt.mk.injEq] at hstmt
  obtain ⟨hcolumns, _, _, hwhere, hgroupBy, _, horder, hlimit⟩ := hstmt
  have hfiltered : Similar s Eq
      (stmt.where.elim op fun predicate => filter op predicate columns)
      (stmt'.where.elim op' fun predicate => filter op' predicate columns) :=
    similar_where h hwhere
  have hgroups : stmt.groupBy.isEmpty = stmt'.groupBy.isEmpty := by
    simpa using congrArg List.isEmpty hgroupBy
  have haggregates : hasAggregates stmt.columns = hasAggregates stmt'.columns := by
    rw [← hasAggregates_respell (f := toUpper), hcolumns, hasAggregates_respell]
  have hlimited : ∀ {P : Row → Row → Prop} {op op' : Operator}, Similar s P op op' →
      Similar s P (stmt.limit.elim op fun n => limit op n)
        (stmt'.limit.elim op' fun n => limit op' n) := by
    intro P op op' h
    rw [← hlimit]
    cases stmt.limit with
    | none => exact h
    | some n => exact similar_limit h n
  rw [overJoins, overJoins, ← hgroups, ← haggregates]
  split_ifs with haggregate
  · exact (rel_collectRows (hlimited (similar_aggregate hfiltered hgroupBy hcolumns))).imp
      fun rows rows' => Columnwise.sameRows
  · refine (rel_collectRows (hlimited (similar_projected (similar_sorted hfiltered horder)
      hcolumns))).imp fun rows rows' hrows => ?_
    rw [List.forall₂_eq_eq_eq] at hrows
    subst hrows
    exact SameRows.of_eq hcolumns (Bool.eq_false_iff.mpr fun h => haggregate (by simp [h])) rows

theorem rel_executeSelect {stmt stmt' : SelectStmt}
    (h : stmt.respell toUpper = stmt'.respell toUpper) :
    InStep s (SameRows stmt.columns stmt'.columns) (executeSelect stmt)
      (executeSelect stmt') := by
  have hstmt := h
  simp only [SelectStmt.respell, SelectStmt.mk.injEq] at hstmt
  obtain ⟨_, hfrom, hjoins, _⟩ := hstmt
  rw [executeSelect, executeSelect, buildSelectPipeline, buildSelectPipeline, hfrom]
  simp only [bind_assoc, pure_bind]
  refine (calm_getTable _ _).bind fun d =>
    (similar_joinTables (similar_tableScan _ d) hjoins).bind ?_
  rintro ⟨op, columns⟩ ⟨op', _⟩ ⟨hop, rfl⟩
  exact rel_overJoins hop h

end Selects

/-! ### All statements -/

section Statements

open Proc

variable {s : Session}

/-- The select list of a statement, empty if it is not a `SELECT`. -/
def Statement.selectList : Statement → List Expr
  | .selectStmt stmt => stmt.columns
  | _ => []

/-- The statement has a place for the name of a function or an action. -/
def Statement.namesFunctions : Statement → Bool
  | .selectStmt _ | .insertStmt _ | .updateStmt _ | .deleteStmt _ | .createTableStmt _ => true
  | _ => false

def Statement.isTxnControl : Statement → Bool
  | .beginStmt | .commitStmt | .rollbackStmt => true
  | _ => false

theorem sameRows_nil (rows : List Row) : SameRows [] [] rows rows := by
  simp [SameRows]

theorem rel_noRows {x y : Exec Unit} (h : InStep s Eq x y) :
    InStep s (SameRows [] []) (do x; return []) (do y; return []) :=
  h.bind fun _ _ _ => .pure (sameRows_nil [])

theorem rel_ddl (r : Except CatalogErr Unit) : InStep s (SameRows [] []) (ddl r) (ddl r) :=
  rel_noRows (Calm.ofExcept _)

/-- Defaults are dropped, and the case of an action does not count. -/
theorem astToTableDef_respell {stmt stmt' : CreateTableStmt}
    (h : stmt.respell toUpper = stmt'.respell toUpper) :
    astToTableDef stmt = astToTableDef stmt' := by
  obtain ⟨table, columns, fks⟩ := stmt
  obtain ⟨table', columns', fks'⟩ := stmt'
  simp only [CreateTableStmt.respell, CreateTableStmt.mk.injEq] at h
  obtain ⟨rfl, hcolumns, hfks⟩ := h
  have hcolumn : ∀ cs : List ColumnDefAST,
      (cs.map (ColumnDefAST.respell toUpper)).mapM astToColumnDef = cs.mapM astToColumnDef :=
    fun cs => List.mapM_map
  have hfk : fks.map astToForeignKey = fks'.map astToForeignKey := by
    rw [← List.forall₂_eq_eq_eq, List.forall₂_map_left_iff, List.forall₂_map_right_iff]
    refine (forall₂_of_map_eq hfks).imp fun fk fk' hfk => ?_
    simp only [ForeignKeyAST.respell, ForeignKeyAST.mk.injEq] at hfk
    obtain ⟨hname, htable, hcolumn, hdelete, hupdate⟩ := hfk
    rw [astToForeignKey, astToForeignKey, parseFKAction, parseFKAction, parseFKAction,
      parseFKAction, hname, htable, hcolumn, hdelete, hupdate]
  rw [astToTableDef, astToTableDef]
  dsimp only
  rw [← hcolumn columns, hcolumns, hcolumn, hfk]

/-- Other statements are not respelled. -/
theorem eq_of_respell {f : Bytes → Bytes} {stmt stmt' : Statement}
    (h : stmt.respell f = stmt'.respell f) (hnames : stmt.namesFunctions = false) :
    stmt = stmt' := by
  cases stmt <;> first | (cases stmt' <;> cases h; rfl) | cases hnames

theorem rel_execute (depth : Nat) {stmt stmt' : Statement}
    (h : stmt.respell toUpper = stmt'.respell toUpper) (hcontrol : stmt.isTxnControl = false) :
    InStep s (SameRows stmt.selectList stmt'.selectList) (execute depth stmt)
      (execute depth stmt') := by
  cases stmt with
  | selectStmt stmt =>
    cases stmt' with
    | selectStmt stmt' => exact rel_executeSelect (Statement.selectStmt.inj h)
    | _ => cases h
  | insertStmt stmt =>
    cases stmt' with
    | insertStmt stmt' => exact rel_noRows (rel_executeInsert (Statement.insertStmt.inj h))
    | _ => cases h
  | updateStmt stmt =>
    cases stmt' with
    | updateStmt stmt' => exact rel_noRows (rel_executeUpdate (Statement.updateStmt.inj h))
    | _ => cases h
  | deleteStmt stmt =>
    cases stmt' with
    | deleteStmt stmt' =>
      exact rel_noRows (rel_executeDelete (Statement.deleteStmt.inj h) depth)
    | _ => cases h
  | createTableStmt stmt =>
    cases stmt' with
    | createTableStmt stmt' =>
      rw [execute, execute, astToTableDef_respell (Statement.createTableStmt.inj h)]
      exact Calm.bind (Calm.ofExcept _) fun _ => Calm.bind (calm_perform trivial) rel_ddl
    | _ => cases h
  | dropTableStmt table =>
    obtain rfl : .dropTableStmt table = stmt' := eq_of_respell h rfl
    exact Calm.bind (calm_perform trivial) rel_ddl
  | createIndexStmt stmt =>
    obtain rfl : .createIndexStmt stmt = stmt' := eq_of_respell h rfl
    exact Calm.bind (calm_perform trivial) rel_ddl
  | dropIndexStmt index =>
    obtain rfl : .dropIndexStmt index = stmt' := eq_of_respell h rfl
    exact Calm.bind (calm_perform trivial) rel_ddl
  | analyzeStmt table =>
    obtain rfl : .analyzeStmt table = stmt' := eq_of_respell h rfl
    exact (calm_throw _).imp fun rows _ hrows => hrows ▸ sameRows_nil rows
  | beginStmt | commitStmt | rollbackStmt => cases hcontrol

end Statements

end MySQLight.Sql
