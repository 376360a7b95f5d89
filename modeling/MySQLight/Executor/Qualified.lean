import MySQLight.Planner.Pipeline

/-!
References that name a table.

A joined row is one list of values, and a reference is looked up in the list
of all columns: the first column of the name counts, and the table of the
reference is not looked at. Here the row is taken apart again, into a part
for each table of the query, so that it can be said what a reference to a
column of a table should have found. The condition of a join is evaluated
on the parts up to the joined table, the other clauses on all of them.
-/

namespace MySQLight.Sql

open MySQLight.Data MySQLight.Schema MySQLight.Effect MySQLight.Planner

/-- A table of a query, with the condition on which it is joined. -/
structure Source where
  table : Bytes
  «alias» : Bytes := []
  on : Option Expr := none
  definition : TableDef

namespace Source

abbrev columns (t : Source) : List ColumnDef := t.definition.columns

/-- The name is that of the table, or its alias. -/
def Called (t : Source) (name : Bytes) : Prop :=
  name = t.table ∨ (t.alias ≠ [] ∧ name = t.alias)

instance (t : Source) (name : Bytes) : Decidable (t.Called name) :=
  inferInstanceAs (Decidable (_ ∨ _))

def ofJoin (db : Database) (join : JoinClause) : Except ExecErr Source := do
  let d ← (db.catalog.getTable join.table).mapError (.joinedTableNotFound join.table)
  return ⟨join.table, join.alias, join.on, d⟩

end Source

/-- The tables of a query, in the order in which they are joined. -/
def Database.scope (db : Database) (stmt : SelectStmt) : Except ExecErr (List Source) := do
  let d ← (db.catalog.getTable stmt.from).mapError (.tableNotFound stmt.from)
  return { table := stmt.from, definition := d } :: (← stmt.joins.mapM (Source.ofJoin db))

/-- One part of a row for each table. -/
def Parts : List Row → List Source → Prop :=
  List.Forall₂ fun part t => part.length = t.columns.length

/-- The columns of the tables, one table after the other. -/
def columnsOf (scope : List Source) : List ColumnDef := scope.flatMap (·.columns)

/-- The row, taken apart. -/
def Spread (scope : List Source) (row : Row) (parts : List Row) : Prop :=
  row = parts.flatten ∧ Parts parts scope

/-- A row of a table, put to the parts of those before it if the condition
holds on all of them. -/
def joinPart (scope : List Source) (t : Source) (parts : List Row) (part : Row) :
    Except ExecErr (Option (List Row)) := do
  return (← combine t.on (columnsOf (scope ++ [t])) parts.flatten part).map fun _ =>
    parts ++ [part]

/-- The joined rows in parts. -/
def Database.joinParts (db : Database) (scope : List Source) (rows : Delivery ExecErr (List Row)) :
    List Source → Delivery ExecErr (List Row)
  | [] => rows
  | t :: more => db.joinParts (scope ++ [t])
      (rows.flatMap fun parts => (db.scan t.definition).flatten.filterMap (joinPart scope t parts))
      more

/-- The rows of a query in parts. -/
def Database.parts (db : Database) : List Source → Delivery ExecErr (List Row)
  | [] => .done
  | t :: more =>
    db.joinParts [t] ((db.scan t.definition).flatten.filterMap fun row => .ok (some [row])) more

/-- The column of the part of the table that is called by the name. -/
def qualified (table column : Bytes) : List Source → List Row → Option Datum
  | t :: scope, part :: parts =>
    if t.Called table ∧ Named t.columns column then (evalColumn column part t.columns).toOption
    else qualified table column scope parts
  | _, _ => none

/-- The first table with a column of the name is the one that is meant. -/
def Resolves (table column : Bytes) (scope : List Source) : Prop :=
  ∀ t, scope.find? (fun t => Named t.columns column) = some t → t.Called table

instance (table column : Bytes) (scope : List Source) : Decidable (Resolves table column scope) :=
  inferInstanceAs
    (Decidable (∀ t ∈ scope.find? (fun t => Named t.columns column), t.Called table))

/-- The clauses of a `SELECT` that hold expressions over the joined rows. -/
inductive Clause
  | on
  | «where»
  | orderBy
  | columns
deriving DecidableEq

/-- What becomes of a reference in a clause. The sort drops the errors. -/
def Clause.value (clause : Clause) (table column : Bytes) (row : Row) (columns : List ColumnDef) :
    Except EvalErr Datum :=
  match clause with
  | .orderBy => .ok (sortKey (.columnRef table column) columns row)
  | .on | .where | .columns => evalExpr (.columnRef table column) row columns

/-! ### The rows of a join -/

variable {scope : List Source} {t : Source} {parts : List Row} {row part : Row}
  {table column : Bytes}

theorem Parts.length_flatten (h : Parts parts scope) :
    parts.flatten.length = (columnsOf scope).length := by
  induction h with
  | nil => rfl
  | cons hpart _ ih =>
    rw [List.flatten_cons, columnsOf, List.flatMap_cons, List.length_append, List.length_append,
      hpart, ih, columnsOf]

section Joins

variable {db : Database} {stmt : SelectStmt} {o : Cursor} {rows : Delivery ExecErr (List Row)}
  {joins : List JoinClause} {more : List Source}

theorem rel_scan (d : TableDef) : (db.scan d).flatten.Rel (fun _ => True) Eq
    (fun row row' => row = row' ∧ row.length = d.columns.length) (db.scan d).flatten := by
  refine (Stream.Rel.refl _).filterMap fun value _ heq => ?_
  subst heq
  cases hrow : decodeRow value d.columns with
  | error e => exact .error rfl
  | ok row => exact .ok (.some ⟨rfl, length_of_decodeRow hrow⟩)

theorem rel_first (db : Database) (t : Source) :
    (db.scan t.definition).flatten.Rel (fun _ => True) Eq (Spread [t])
      ((db.scan t.definition).flatten.filterMap fun row => .ok (some [row])) := by
  have hself : (db.scan t.definition).flatten =
      (db.scan t.definition).flatten.filterMap fun row => .ok (some row) := by
    rw [Stream.filterMap_eq_flatMap]
    exact (Stream.flatMap_emit _).symm
  nth_rewrite 1 [hself]
  refine (rel_scan t.definition).filterMap fun row _ h => ?_
  obtain ⟨rfl, hrow⟩ := h
  exact .ok (.some ⟨by simp, .cons hrow .nil⟩)

theorem rel_join (db : Database) (t : Source)
    (h : o.flatten.Rel (fun _ => True) Eq (Spread scope) rows) :
    (o.join (db.scan t.definition) t.on (columnsOf (scope ++ [t]))).flatten.Rel (fun _ => True) Eq
      (Spread (scope ++ [t])) (rows.flatMap fun parts =>
        (db.scan t.definition).flatten.filterMap (joinPart scope t parts)) := by
  have hscan : db.scan t.definition = .ok (db.scan t.definition).flatten := rfl
  rw [hscan, Cursor.flatten_join]
  refine h.flatMap fun row parts hrow => (rel_scan t.definition).filterMap fun part _ hpart => ?_
  obtain ⟨rfl, hparts⟩ := hrow
  obtain ⟨rfl, hlen⟩ := hpart
  rw [joinPart]
  cases hcombine : combine t.on (columnsOf (scope ++ [t])) parts.flatten part with
  | error e => exact .error rfl
  | ok r =>
    cases r with
    | none => exact .ok .none
    | some row =>
      rw [eq_append_of_combine hcombine]
      exact .ok (.some ⟨by simp, List.rel_append hparts (.cons hlen .nil)⟩)

theorem rel_joinTables (hmore : joins.mapM (Source.ofJoin db) = .ok more)
    (h : o.flatten.Rel (fun _ => True) Eq (Spread scope) rows) :
    ∃ o', db.joinTables o (columnsOf scope) joins = .ok (o', columnsOf (scope ++ more)) ∧
      o'.flatten.Rel (fun _ => True) Eq (Spread (scope ++ more))
        (db.joinParts scope rows more) := by
  induction joins generalizing scope o rows more with
  | nil =>
    rw [List.mapM_nil] at hmore
    cases hmore
    rw [List.append_nil]
    exact ⟨o, rfl, h⟩
  | cons join joins ih =>
    rw [List.mapM_cons] at hmore
    obtain ⟨t, ht, hmore⟩ := exists_of_bind_ok hmore
    obtain ⟨rest, hrest, hmore⟩ := exists_of_bind_ok hmore
    cases hmore
    obtain ⟨d, hd, hsource⟩ := exists_of_bind_ok ht
    cases hsource
    have hcolumns : columnsOf (scope ++ [⟨join.table, join.alias, join.on, d⟩]) =
        columnsOf scope ++ d.columns := by simp [columnsOf]
    have hrel := rel_join db ⟨join.table, join.alias, join.on, d⟩ h
    obtain ⟨o', ho', hrel'⟩ := ih hrest hrel
    rw [hcolumns] at ho'
    rw [Database.joinTables, hd, List.append_cons]
    exact ⟨o', ho', hrel'⟩

/-- The rows and the columns on which the clauses of a query are
evaluated. -/
theorem exists_select_eq (hscope : db.scope stmt = .ok scope) :
    ∃ o, db.select stmt = Cursor.overJoins stmt o (columnsOf scope) ∧
      o.flatten.Rel (fun _ => True) Eq (Spread scope) (db.parts scope) := by
  obtain ⟨d, hd, hscope⟩ := exists_of_bind_ok hscope
  obtain ⟨more, hmore, hscope⟩ := exists_of_bind_ok hscope
  cases hscope
  obtain ⟨o, ho, hrel⟩ :=
    rel_joinTables hmore (rel_first db { table := stmt.from, definition := d })
  refine ⟨o, ?_, hrel⟩
  have hcolumns : columnsOf [{ table := stmt.from, definition := d }] = d.columns := by
    simp [columnsOf]
  rw [hcolumns] at ho
  rw [Database.select, hd]
  change (db.joinTables (db.scan d) d.columns stmt.joins >>= _) = _
  rw [ho]
  rfl

end Joins

/-! ### What a reference finds -/

theorem evalColumn_flatten_cons (hparts : Parts parts scope)
    (hpart : part.length = t.columns.length) :
    evalColumn column (part :: parts).flatten (columnsOf (t :: scope)) =
      if Named t.columns column then evalColumn column part t.columns
      else evalColumn column parts.flatten (columnsOf scope) := by
  rw [List.flatten_cons, columnsOf, List.flatMap_cons]
  exact evalColumn_append hpart hparts.length_flatten

theorem resolves_cons : Resolves table column (t :: scope) ↔
    if Named t.columns column then t.Called table else Resolves table column scope := by
  rw [Resolves, List.find?_cons]
  split_ifs with h
  · simp [h]
  · simp only [h, decide_false, Resolves]

/-- The table that is meant has the column. -/
def Found (table column : Bytes) (scope : List Source) : Prop :=
  ∃ t ∈ scope, t.Called table ∧ Named t.columns column

variable {columns : List ColumnDef} {d : Datum}

theorem exists_of_evalColumn (h : evalColumn column row columns = .ok d) :
    ∃ v ∈ row, ∃ type, d = cell v type := by
  rw [evalColumn] at h
  split at h
  · cases h
  · split at h
    · rename_i v c hv hc
      cases h
      exact ⟨v, List.mem_of_getElem? hv, c.type, rfl⟩
    · cases h

theorem exists_evalColumn (h : Named columns column) (hrow : row.length = columns.length) :
    ∃ d, evalColumn column row columns = .ok d := by
  induction columns generalizing row with
  | nil =>
    obtain ⟨c, hc, -⟩ := h
    cases hc
  | cons c columns ih =>
    obtain ⟨v, row, rfl⟩ := List.exists_cons_of_length_eq_add_one hrow
    rw [evalColumn_cons (Nat.succ.inj hrow)]
    by_cases hc : c.name = column
    · exact ⟨_, if_pos hc⟩
    · rw [if_neg hc]
      exact ih (by simpa [Named, hc] using h) (Nat.succ.inj hrow)

theorem exists_of_qualified (h : qualified table column scope parts = some d) :
    ∃ part ∈ parts, ∃ v ∈ part, ∃ type, d = cell v type := by
  fun_induction qualified table column scope parts with
  | case1 t scope part parts hcalled =>
    cases heval : evalColumn column part t.columns with
    | error e =>
      rw [heval] at h
      cases h
    | ok d' =>
      rw [heval] at h
      cases h
      exact ⟨part, List.mem_cons_self, exists_of_evalColumn heval⟩
  | case2 t scope part parts hcalled ih =>
    obtain ⟨part', hmem, hpart⟩ := ih h
    exact ⟨part', List.mem_cons_of_mem _ hmem, hpart⟩
  | case3 => cases h

theorem qualified_of_resolves (hparts : Parts parts scope) (h : Resolves table column scope) :
    qualified table column scope parts =
      (evalColumn column parts.flatten (columnsOf scope)).toOption := by
  induction hparts with
  | nil => rfl
  | cons hpart hparts ih =>
    rw [resolves_cons] at h
    rw [qualified, evalColumn_flatten_cons hparts hpart]
    split_ifs at h with hnamed
    · rw [if_pos ⟨h, hnamed⟩, if_pos hnamed]
    · rw [if_neg (fun hand => hnamed hand.2), if_neg hnamed, ih h]

theorem evalColumn_of_found (hparts : Parts parts scope) (h : Found table column scope) :
    ∃ d, evalColumn column parts.flatten (columnsOf scope) = .ok d := by
  obtain ⟨t, ht, -, c, hc, hname⟩ := h
  exact exists_evalColumn ⟨c, List.mem_flatMap.mpr ⟨t, ht, hc⟩, hname⟩ hparts.length_flatten

theorem qualified_of_not_found (h : ¬ Found table column scope) :
    qualified table column scope parts = none := by
  fun_induction qualified table column scope parts with
  | case1 t scope part parts hcalled => exact absurd ⟨t, List.mem_cons_self, hcalled⟩ h
  | case2 t scope part parts hcalled ih =>
    exact ih fun ⟨t', ht', hfound⟩ => h ⟨t', List.mem_cons_of_mem _ ht', hfound⟩
  | case3 => rfl

/-- Values that differ in every type. -/
def zeroValue : Value := {}
def oneValue : Value := { intVal := 1, floatVal := 1, textVal := [1], blobVal := [1] }

/-- Parts that hold the same value everywhere. -/
def uniform (v : Value) (scope : List Source) : List Row :=
  scope.map fun t => List.replicate t.columns.length v

theorem parts_uniform (v : Value) (scope : List Source) : Parts (uniform v scope) scope := by
  induction scope with
  | nil => exact .nil
  | cons t scope ih => exact .cons List.length_replicate ih

/-- If another table comes first, there are rows on which the reference
finds a value of that table. -/
theorem exists_misled (h : ¬ Resolves table column scope) :
    ∃ parts d, Parts parts scope ∧
      evalColumn column parts.flatten (columnsOf scope) = .ok d ∧
      qualified table column scope parts ≠ some d := by
  induction scope with
  | nil => exact absurd nofun h
  | cons t scope ih =>
    have hhead : (List.replicate t.columns.length zeroValue).length = t.columns.length :=
      List.length_replicate
    rw [resolves_cons] at h
    by_cases hnamed : Named t.columns column
    · -- zeros in the first table, ones in the others
      rw [if_pos hnamed] at h
      obtain ⟨d, hd⟩ := exists_evalColumn hnamed hhead
      refine ⟨_ :: uniform oneValue scope, d, .cons hhead (parts_uniform _ _), ?_, ?_⟩
      · rw [evalColumn_flatten_cons (parts_uniform _ _) hhead, if_pos hnamed, hd]
      · rw [qualified, if_neg fun hand => h hand.1]
        intro hqualified
        obtain ⟨v, hv, type, rfl⟩ := exists_of_evalColumn hd
        obtain ⟨part, hpart, w, hw, type', heq⟩ := exists_of_qualified hqualified
        obtain ⟨u, -, rfl⟩ := List.mem_map.mp hpart
        rw [List.eq_of_mem_replicate hv, List.eq_of_mem_replicate hw] at heq
        revert heq
        cases type <;> cases type' <;> decide
    · rw [if_neg hnamed] at h
      obtain ⟨parts, d, hparts, heval, hne⟩ := ih h
      refine ⟨_ :: parts, d, .cons hhead hparts, ?_, ?_⟩
      · rw [evalColumn_flatten_cons hparts hhead, if_neg hnamed, heval]
      · rwa [qualified, if_neg fun hand => hnamed hand.2]

theorem value_of_evalColumn (h : evalColumn column row columns = .ok d) (clause : Clause) :
    clause.value table column row columns = .ok d := by
  cases clause with
  | orderBy => rw [Clause.value, sortKey, evalExpr, h]
  | on | «where» | columns => exact h

theorem value_eq_qualified_iff {clause : Clause} :
    (∀ parts, Parts parts scope →
      (clause.value table column parts.flatten (columnsOf scope)).toOption =
        qualified table column scope parts) ↔
      Resolves table column scope ∧ (clause = .orderBy → Found table column scope) := by
  constructor
  · intro h
    refine ⟨?_, ?_⟩
    · by_contra hresolves
      obtain ⟨parts, d, hparts, heval, hne⟩ := exists_misled hresolves
      have hvalue := h parts hparts
      rw [value_of_evalColumn heval] at hvalue
      exact hne hvalue.symm
    · rintro rfl
      by_contra hfound
      have hvalue := h _ (parts_uniform zeroValue scope)
      rw [qualified_of_not_found hfound] at hvalue
      cases hvalue
  · rintro ⟨hresolves, hfound⟩ parts hparts
    rw [qualified_of_resolves hparts hresolves]
    by_cases hclause : clause = .orderBy
    · obtain ⟨d, hd⟩ := evalColumn_of_found hparts (hfound hclause)
      rw [value_of_evalColumn hd, hd]
    · cases clause with
      | orderBy => exact absurd rfl hclause
      | on | «where» | columns => rfl

/-- A `SELECT` evaluates the condition of each join on the parts of the
tables up to the joined one, and the other clauses on those of all tables.
There a reference finds the column of the table that it names if no other
table with a column of the name comes before; in an `ORDER BY`, there also
has to be such a column. -/
theorem select_qualified_iff (db : Database) (stmt : SelectStmt) (scope : List Source)
    (hscope : db.scope stmt = .ok scope) :
    (∃ o, db.select stmt = Cursor.overJoins stmt o (columnsOf scope) ∧
      o.flatten.Rel (fun _ => True) Eq (Spread scope) (db.parts scope)) ∧
    ∀ (clause : Clause) table column seen, seen <+: scope →
      ((∀ parts, Parts parts seen →
        (clause.value table column parts.flatten (columnsOf seen)).toOption =
          qualified table column seen parts) ↔
        Resolves table column seen ∧ (clause = .orderBy → Found table column seen)) :=
  ⟨exists_select_eq hscope, fun _ _ _ _ _ => value_eq_qualified_iff⟩

/-- The tables `p` and `q`, each with a column `id`: `p` holds the row 1, `q` the row 2. -/
def sharedColumn : World :=
  ["p", "q"].foldl (fun w table =>
      w.step 1 (.createTableStmt { table := ascii table, columns := [idColumn] }))
    (World.new plainEnv) |>.step 1 (insertInto "p" [["1"]]) |>.step 1 (insertInto "q" [["2"]])

/-- `SELECT table.id FROM p JOIN q ON 1 = 1`. -/
def selectID (table : String) : SelectStmt where
  columns := [.columnRef (ascii table) (ascii "id")]
  «from» := ascii "p"
  joins := [⟨ascii "q", [], some (.binaryExpr (integer "1") .eq (integer "1"))⟩]

theorem select_qualified_iff_shared :
    ∃ scope, sharedColumn.db.scope (selectID "p") = .ok scope ∧ ∀ parts, Parts parts scope →
      (Clause.columns.value (ascii "p") (ascii "id") parts.flatten (columnsOf scope)).toOption =
        qualified (ascii "p") (ascii "id") scope parts := by
  have hany : (sharedColumn.db.scope (selectID "p")).toOption.any
      (fun scope => Resolves (ascii "p") (ascii "id") scope) = true := by decide +kernel
  obtain ⟨scope, hscope, hresolves⟩ := (Option.any_eq_true _ _).mp hany
  have hscope := toOption_eq_some.mp hscope
  exact ⟨scope, hscope, ((select_qualified_iff _ _ _ hscope).2 .columns _ _ _
    (List.prefix_refl _)).mpr ⟨of_decide_eq_true hresolves, by simp⟩⟩

/-- `SELECT q.id` returns the `id` of `p`, and so does a reference to a
table that is not there. -/
theorem reference_finds_other_table :
    sharedColumn.outcome 1 (.selectStmt (selectID "q")) = .ok [[{ intVal := 1 }]] ∧
      sharedColumn.outcome 1 (.selectStmt (selectID "nosuch")) = .ok [[{ intVal := 1 }]] := by
  decide +kernel

end MySQLight.Sql
