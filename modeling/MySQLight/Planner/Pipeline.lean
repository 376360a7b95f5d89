import MySQLight.Executor.Reference
import MySQLight.Planner.Names

/-!
The plan of a `SELECT` and the pipeline of the executor.

The two are built from the same statement. The planner puts the filter of the
`WHERE` under the joins, where it sees the rows of the first table only; the
executor puts it over them. Rows that both return are the same. But an error
of the `WHERE` or of a join can come up on one side only: under the joins a
column of a joined table is not there, and a row that the `WHERE` has dropped
is not joined any more.
-/

namespace MySQLight.Planner

open MySQLight.Data MySQLight.Schema MySQLight.Effect MySQLight.Sql

variable {s : Session} {db : Database} {stmt : SelectStmt} {o : Cursor} {d : TableDef}
  {predicate : Expr} {columns : List ColumnDef} {joins : List JoinClause} {row row' : Row}
  {names : List Bytes}

/-! ### Plans as operators -/

/-- What the scan of a plan delivers. -/
def scanned (db : Database) (table : Bytes) (columns : List ColumnDef) : Cursor := do
  let d ← (db.catalog.getTable table).mapError (.tableNotFound table)
  db.scan { d with columns }

/-- The rows of the plan of a `SELECT`, or none if there is an error. -/
def plannedRows (db : Database) (stmt : SelectStmt) : Option (List Row) := do
  let node ← (planSelect db.catalog stmt).toOption
  (node.opened (scanned db)).rows.toOption

/-- The rows of the pipeline of the executor, or none if there is an error. -/
def pipelineRows (db : Database) (stmt : SelectStmt) : Option (List Row) :=
  (db.select stmt).rows.toOption

/-- No aggregates, no `HAVING` and no `ORDER BY`. -/
structure Plain (stmt : SelectStmt) : Prop where
  groupBy : stmt.groupBy = []
  having : stmt.having = none
  orderBy : stmt.orderBy = []
  columns : containsAggregate stmt.columns = false

/-! ### The two orders of the operators -/

/-- The filter of the `WHERE`. -/
def filtered (stmt : SelectStmt) (columns : List ColumnDef) (o : Cursor) : Cursor :=
  stmt.where.elim o fun predicate => o.filter predicate columns

/-- The projection and the limit. -/
def finished (stmt : SelectStmt) (columns : List ColumnDef) (o : Cursor) : Cursor :=
  let shaped := Cursor.projected stmt columns o
  stmt.limit.elim shaped fun n => shaped.limit n

theorem opened_planOutput (h : Plain stmt) (node : LogicalNode)
    (scan : Bytes → List ColumnDef → Cursor) :
    (planOutput stmt node).opened scan = finished stmt node.columns (node.opened scan) := by
  rw [planOutput, h.groupBy, h.columns, h.orderBy, finished]
  cases stmt.limit <;> rfl

theorem overJoins_eq (h : Plain stmt) (hagg : hasAggregates stmt.columns = false) :
    Cursor.overJoins stmt o columns = finished stmt columns (filtered stmt columns o) := by
  rw [Cursor.overJoins, h.groupBy, hagg, Cursor.sorted, h.orderBy]
  rfl

/-- A scan with all columns of the table. -/
theorem scanned_columns {table : Bytes} (hd : db.catalog.getTable table = .ok d) :
    scanned db table d.columns = db.scan d := by
  rw [scanned, hd]
  rfl

theorem planJoins_spec (joins : List JoinClause) {node : LogicalNode}
    (hopened : node.opened (scanned db) = o) (hcolumns : node.columns = columns) :
    match planJoins db.catalog node joins with
    | .ok node' => db.joinTables o columns joins = .ok (node'.opened (scanned db), node'.columns)
    | .error _ => ∃ e, db.joinTables o columns joins = .error e := by
  induction joins generalizing node o columns with
  | nil => exact congrArg Except.ok (Prod.ext hopened.symm hcolumns.symm)
  | cons join joins ih =>
    rw [planJoins, Database.joinTables]
    cases hget : db.catalog.getTable join.table with
    | error e => exact ⟨_, rfl⟩
    | ok d =>
      refine ih ?_ ?_
      · rw [LogicalNode.opened, LogicalNode.opened, scanned_columns hget, hopened, hcolumns]
        rfl
      · rw [LogicalNode.columns, hcolumns]
        rfl

theorem plannedRows_eq (h : Plain stmt) (hfrom : stmt.from ≠ [])
    (hd : db.catalog.getTable stmt.from = .ok d) :
    plannedRows db stmt = Except.toOption (Cursor.rows
      (db.joinTables (filtered stmt d.columns (db.scan d)) d.columns stmt.joins >>= fun r =>
        finished stmt r.2 r.1)) := by
  have hfiltered : (planFrom stmt d).opened (scanned db) = filtered stmt d.columns (db.scan d) := by
    rw [planFrom, filtered, ← scanned_columns hd]
    cases stmt.where <;> rfl
  have hcolumns : (planFrom stmt d).columns = d.columns := by
    rw [planFrom]
    cases stmt.where <;> rfl
  have hjoins := planJoins_spec stmt.joins hfiltered hcolumns
  rw [plannedRows, planSelect, if_neg hfrom, hd]
  cases hplan : planJoins db.catalog (planFrom stmt d) stmt.joins with
  | error e =>
    rw [hplan] at hjoins
    obtain ⟨e', he'⟩ := hjoins
    rw [he']
    show Option.bind (Except.toOption (planJoins _ _ _ >>= _)) _ = _
    rw [hplan]
    rfl
  | ok node =>
    rw [hplan] at hjoins
    rw [hjoins]
    show Option.bind (Except.toOption (planJoins _ _ _ >>= _)) _ = _
    rw [hplan]
    exact congrArg (fun o => Except.toOption (Cursor.rows o)) (opened_planOutput h node _)

theorem pipelineRows_eq (hd : db.catalog.getTable stmt.from = .ok d) :
    pipelineRows db stmt = Except.toOption (Cursor.rows
      (db.joinTables (db.scan d) d.columns stmt.joins >>= fun r =>
        Cursor.overJoins stmt r.1 r.2)) := by
  rw [pipelineRows, Database.select_of_getTable hd]

/-! ### Rows side by side -/

/-- The rows that come from one row by joining the tables to it. -/
def extensions (db : Database) (columns : List ColumnDef) :
    List JoinClause → Row → Delivery ExecErr Row
  | [], row => .emit row .done
  | join :: joins, row =>
    match db.catalog.getTable join.table with
    | .error _ => .done
    | .ok d =>
      ((db.scan d).flatten.filterMap (combine join.on (columns ++ d.columns) row)).flatMap
        (extensions db (columns ++ d.columns) joins)

/-- The columns after the joins. -/
def joinedColumns (db : Database) (columns : List ColumnDef) (joins : List JoinClause) :
    List ColumnDef :=
  (Reference.joined db [] columns joins).2

theorem joined_columns (rows : List Row) :
    (Reference.joined db rows columns joins).2 = joinedColumns db columns joins := by
  rw [joinedColumns]
  generalize ([] : List Row) = rows'
  induction joins generalizing rows rows' columns with
  | nil => rfl
  | cons join joins ih =>
    rw [Reference.joined, Reference.joined]
    cases db.catalog.getTable join.table with
    | error e => rfl
    | ok d => exact ih _ _

variable {r : Cursor × List ColumnDef} {columns' : List ColumnDef} {rows : List Row}
  {v : Delivery ExecErr Row}

theorem joinTables_flatten (hr : db.joinTables o columns joins = .ok r) :
    r.1.flatten = o.flatten.flatMap (extensions db columns joins) ∧
      r.2 = joinedColumns db columns joins := by
  induction joins generalizing o columns with
  | nil =>
    cases hr
    exact ⟨(Stream.flatMap_emit _).symm, rfl⟩
  | cons join joins ih =>
    obtain ⟨d, hget, hr⟩ := Reference.exists_of_joinTables hr
    rw [joinedColumns, Reference.joined, hget]
    obtain ⟨hflatten, hcolumns⟩ := ih hr
    refine ⟨?_, hcolumns.trans (joined_columns _).symm⟩
    rw [hflatten, Database.scan, Cursor.flatten_join, Stream.flatMap_flatMap]
    simp only [extensions, hget]
    rfl

theorem missing_of_joinTables {e : ExecErr} (h : db.joinTables o columns joins = .error e) :
    ∃ join ∈ joins, ∀ d, db.catalog.getTable join.table ≠ .ok d := by
  induction joins generalizing o columns with
  | nil => cases h
  | cons join joins ih =>
    rw [Database.joinTables] at h
    cases hget : db.catalog.getTable join.table with
    | error e' => exact ⟨join, List.mem_cons_self, by simp [hget]⟩
    | ok d =>
      rw [hget] at h
      obtain ⟨join', hjoin', hmissing⟩ := ih h
      exact ⟨join', List.mem_cons_of_mem join hjoin', hmissing⟩

/-- Whether the tables are there does not depend on the rows. -/
theorem joinTables_error_iff (columns : List ColumnDef) (joins : List JoinClause) (o o' : Cursor) :
    (∃ e, db.joinTables o columns joins = .error e) ↔
      ∃ e, db.joinTables o' columns joins = .error e := by
  induction joins generalizing o o' columns with
  | nil => exact iff_of_false nofun nofun
  | cons join joins ih =>
    rw [Database.joinTables, Database.joinTables]
    cases db.catalog.getTable join.table with
    | error e => exact Iff.rfl
    | ok d => exact ih _ _ _

/-! ### The `WHERE` on longer rows -/

theorem Agrees.trans {columns₂ : List ColumnDef} {row₂ : Row}
    (h : Agrees names columns columns' row row') (h' : Agrees names columns' columns₂ row' row₂) :
    Agrees names columns columns₂ row row₂ where
  length := h.length
  length' := h'.length'
  named name hname := (h'.named name hname).trans (h.named name hname)
  value name hname := (h'.value name hname).trans (h.value name hname)

/-- Columns that come behind do not change what the names of the first ones
mean. -/
theorem agrees_append (hnames : ∀ name ∈ names, Named columns name)
    (hrow : row.length = columns.length) (hrow' : row'.length = columns'.length) :
    Agrees names columns (columns ++ columns') row (row ++ row') where
  length := hrow
  length' := by rw [List.length_append, List.length_append, hrow, hrow']
  named name hname := iff_of_true (named_append.mpr (.inl (hnames name hname))) (hnames name hname)
  value name hname := by rw [evalColumn_append hrow hrow', if_pos (hnames name hname)]

theorem length_of_scan (hrow : row ∈ (db.scan d).flatten.elements) :
    row.length = d.columns.length := by
  rw [Database.scan, Cursor.flatten, Stream.filterMap_eq_flatMap] at hrow
  obtain ⟨value, -, hvalue⟩ := Stream.mem_elements_flatMap hrow
  obtain ⟨row', hdecode, hrow⟩ :=
    Reference.exists_of_decoded (Stream.mem_elements_ofOption hvalue)
  cases hrow
  exact length_of_decodeRow hdecode

theorem eq_append_of_combine {condition : Option Expr} {leftRow rightRow : Row}
    (h : combine condition columns leftRow rightRow = .ok (some row)) :
    row = leftRow ++ rightRow := by
  have hguard := Reference.combine_eq_ok h
  exact (Option.guard_eq_some_iff.mp hguard.symm).1.symm

theorem agrees_extensions (hnames : ∀ name ∈ names, Named columns name)
    (hrow : row.length = columns.length) (h : row' ∈ (extensions db columns joins row).elements) :
    Agrees names columns (joinedColumns db columns joins) row row' := by
  induction joins generalizing row columns with
  | nil =>
    obtain rfl := List.mem_singleton.mp h
    exact ⟨hrow, hrow, fun _ _ => Iff.rfl, fun _ _ => rfl⟩
  | cons join joins ih =>
    rw [joinedColumns, Reference.joined]
    rw [extensions] at h
    cases hget : db.catalog.getTable join.table with
    | error e =>
      rw [hget] at h
      cases h
    | ok d =>
      rw [hget] at h
      obtain ⟨pair, hpair, hrow'⟩ := Stream.mem_elements_flatMap h
      rw [Stream.filterMap_eq_flatMap] at hpair
      obtain ⟨rightRow, hright, hcombine⟩ := Stream.mem_elements_flatMap hpair
      obtain rfl := eq_append_of_combine (Stream.mem_elements_ofOption hcombine)
      have hone := agrees_append hnames hrow (length_of_scan hright)
      have hnames' : ∀ name ∈ names, Named (columns ++ d.columns) name :=
        fun name hname => named_append.mpr (.inl (hnames name hname))
      rw [joined_columns]
      exact hone.trans (ih hnames' hone.length' hrow')

/-- An expression that has a value names columns only that are there. -/
theorem named_of_evalExpr : {expr : Expr} → {v : Datum} → evalExpr expr row columns = .ok v →
    ∀ name ∈ collectColumnNames expr, Named columns name
  | .literal .., _, _ => by simp [collectColumnNames]
  | .columnRef _ column, v, h => by
      intro name hname
      obtain rfl := List.mem_singleton.mp hname
      by_contra hnot
      rw [evalExpr, evalColumn_of_not_named hnot] at h
      cases h
  | .binaryExpr left op right, v, h => by
      intro name hname
      obtain ⟨l, hleft, h⟩ := exists_of_bind_ok h
      obtain ⟨r, hright, -⟩ := exists_of_bind_ok h
      rw [collectColumnNames, List.mem_append] at hname
      exact hname.elim (named_of_evalExpr hleft name) (named_of_evalExpr hright name)
  | .unaryExpr op operand, v, h => by
      intro name hname
      obtain ⟨l, hoperand, -⟩ := exists_of_bind_ok h
      exact named_of_evalExpr hoperand name hname
  | .funcCall .., _, h => by cases h
  | .starExpr, _, h => by cases h

/-! ### Rows that both return -/

theorem isTrue_of_agrees (h : Agrees (collectColumnNames predicate) columns columns' row row') :
    isTrue predicate columns' row' = isTrue predicate columns row := by
  rw [Sql.isTrue, Sql.isTrue, evalExpr_of_agrees h predicate (List.Subset.refl _)]

theorem length_of_tableRows (h : row ∈ Reference.tableRows db d) :
    row.length = d.columns.length := by
  obtain ⟨value, -, hvalue⟩ := List.mem_filterMap.mp h
  exact length_of_decodeRow (toOption_eq_some.mp hvalue)

theorem filter_pairs {rightRows : List Row} {condition : Option Expr} {p q : Row → Bool}
    (h : ∀ row ∈ rows, ∀ rightRow ∈ rightRows, q (row ++ rightRow) = p row) :
    (Reference.pairs rows rightRows condition columns).filter q =
      Reference.pairs (rows.filter p) rightRows condition columns := by
  induction rows with
  | nil => rfl
  | cons row rows ih =>
    obtain ⟨hrow, hrows⟩ := List.forall_mem_cons.mp h
    have hall : ∀ row' ∈ (rightRows.map (row ++ ·)).filter fun row' =>
        condition.all (isTrue · columns row'), q row' = p row := by
      intro row' hrow'
      obtain ⟨rightRow, hright, rfl⟩ := List.mem_map.mp (List.mem_filter.mp hrow').1
      exact hrow rightRow hright
    rw [Reference.pairs, List.flatMap_cons, List.filter_append]
    refine (congrArg _ (ih hrows)).trans ?_
    cases hp : p row with
    | true =>
      rw [List.filter_cons_of_pos hp, Reference.pairs, Reference.pairs, List.flatMap_cons,
        List.filter_eq_self.mpr fun row' hrow' => (hall row' hrow').trans hp]
    | false =>
      rw [List.filter_cons_of_neg (by simp [hp]),
        List.filter_eq_nil_iff.mpr fun row' hrow' => by simp [hall row' hrow', hp]]
      rfl

/-- A condition on columns of the first table may be asked before the joins
as well. -/
theorem joined_filter (hnames : ∀ name ∈ collectColumnNames predicate, Named columns name)
    (hrows : ∀ row ∈ rows, row.length = columns.length) :
    (Reference.joined db rows columns joins).1.filter
        (isTrue predicate (joinedColumns db columns joins)) =
      (Reference.joined db (rows.filter (isTrue predicate columns)) columns joins).1 := by
  induction joins generalizing rows columns with
  | nil => rfl
  | cons join joins ih =>
    rw [joinedColumns, Reference.joined, Reference.joined, Reference.joined]
    cases hget : db.catalog.getTable join.table with
    | error e => rfl
    | ok d =>
      have hnames' : ∀ name ∈ collectColumnNames predicate, Named (columns ++ d.columns) name :=
        fun name hname => named_append.mpr (.inl (hnames name hname))
      have hpair : ∀ row ∈ rows, ∀ rightRow ∈ Reference.tableRows db d,
          Agrees (collectColumnNames predicate) columns (columns ++ d.columns) row
            (row ++ rightRow) := fun row hrow rightRow hright =>
        agrees_append hnames (hrows row hrow) (length_of_tableRows hright)
      have hpairs : ∀ row ∈ Reference.pairs rows (Reference.tableRows db d) join.on
          (columns ++ d.columns), row.length = (columns ++ d.columns).length := by
        intro row' hrow'
        obtain ⟨row, hrow, hrow'⟩ := List.mem_flatMap.mp hrow'
        obtain ⟨rightRow, hright, rfl⟩ := List.mem_map.mp (List.mem_filter.mp hrow').1
        exact (hpair row hrow rightRow hright).length'
      rw [joined_columns]
      refine (ih hnames' hpairs).trans ?_
      rw [filter_pairs fun row hrow rightRow hright =>
        isTrue_of_agrees (hpair row hrow rightRow hright)]

theorem joined_nil : (Reference.joined db [] columns joins).1 = [] := by
  induction joins generalizing columns with
  | nil => rfl
  | cons join joins ih =>
    rw [Reference.joined]
    cases db.catalog.getTable join.table with
    | error e => rfl
    | ok d => exact ih

/-- Joins over an input that cannot be opened cannot be opened either. -/
theorem joinTables_of_error {e : ExecErr} (hr : db.joinTables (.error e) columns joins = .ok r) :
    r.1 = .error e := by
  induction joins generalizing columns with
  | nil =>
    cases hr
    rfl
  | cons join joins ih =>
    obtain ⟨d, -, hr⟩ := Reference.exists_of_joinTables hr
    exact ih hr

theorem keepRow_of_not_named {name : Bytes} (hname : name ∈ collectColumnNames predicate)
    (hnot : ¬ Named columns name) (row : Row) : ∃ e, keepRow predicate columns row = .error e := by
  cases heval : evalExpr predicate row columns with
  | error e => exact ⟨.eval e, by rw [keepRow, holds, heval]; rfl⟩
  | ok v => exact absurd (named_of_evalExpr heval name hname) hnot

/-- If the plan can be opened, the `WHERE` names columns of the first table
only, unless that has no rows or there are no joins. -/
theorem named_of_opened
    (hr : db.joinTables ((db.scan d).filter predicate d.columns) d.columns joins = .ok r)
    (hv : r.1 = .ok v) :
    (∀ name ∈ collectColumnNames predicate, Named d.columns name) ∨
      Reference.tableRows db d = [] ∨ joins = [] := by
  by_contra hnot
  simp only [not_or, not_forall] at hnot
  obtain ⟨⟨name, hname, hnamed⟩, hrows, hjoins⟩ := hnot
  have hfollows := Reference.follows_scan db d _ rfl
  -- the filter fails at the first row, and the first join with it
  have hfail : ∃ e, (db.scan d).filter predicate d.columns = .ok (.fail e) := by
    rw [Database.scan]
    generalize Stream.filterMap _ _ = rows at hfollows
    cases rows with
    | done => exact absurd hfollows hrows
    | fail e => exact ⟨e, rfl⟩
    | emit row rest =>
      obtain ⟨e, he⟩ := keepRow_of_not_named hname hnamed row
      refine ⟨e, ?_⟩
      show Except.ok (Stream.filterMap (keepRow predicate d.columns) (.emit row rest)) = _
      rw [Stream.filterMap, he]
    | call o => exact o.elim
  obtain ⟨e, he⟩ := hfail
  rw [he] at hr
  cases joins with
  | nil => exact hjoins rfl
  | cons join joins =>
    obtain ⟨d', -, hr⟩ := Reference.exists_of_joinTables hr
    rw [joinTables_of_error hr] at hv
    cases hv

/-- The rows below the projection are the same on both sides. -/
theorem exists_followed {r' : Cursor × List ColumnDef}
    (hr : db.joinTables (filtered stmt d.columns (db.scan d)) d.columns stmt.joins = .ok r)
    (hr' : db.joinTables (db.scan d) d.columns stmt.joins = .ok r') (hv : r.1 = .ok v) :
    ∃ rows, Reference.Follows r.1 rows ∧ Reference.Follows (filtered stmt r'.2 r'.1) rows := by
  have hscan := Reference.follows_scan db d
  have hpipeline := Reference.follows_joinTables db stmt.joins hscan hr'
  rw [joined_columns] at hpipeline
  rw [hpipeline.2]
  rw [filtered] at hr ⊢
  cases hwhere : stmt.where with
  | none =>
    rw [hwhere] at hr
    obtain rfl : r = r' := Except.ok.inj (hr.symm.trans hr')
    exact ⟨_, hpipeline.1, hpipeline.1⟩
  | some predicate =>
    rw [hwhere] at hr
    have hplan := Reference.follows_joinTables db stmt.joins
      (Reference.follows_filter hscan predicate d.columns) hr
    refine ⟨_, hplan.1, ?_⟩
    have habove := Reference.follows_filter hpipeline.1 predicate
      (joinedColumns db d.columns stmt.joins)
    obtain hnames | hrows | hjoins := named_of_opened hr hv
    · rwa [joined_filter hnames fun _ => length_of_tableRows] at habove
    · rw [hrows, joined_nil] at habove
      rwa [hrows, List.filter_nil, joined_nil]
    · rw [hjoins] at habove ⊢
      exact habove

theorem follows_finished (h : Reference.Follows o rows) :
    Reference.Follows (finished stmt columns o)
      (stmt.limit.elim (rows.map (Reference.output stmt.columns columns)) fun n =>
        (rows.map (Reference.output stmt.columns columns)).take n.toNat) := by
  have hshaped := Reference.follows_projected stmt columns h
  rw [finished]
  cases stmt.limit with
  | none => exact hshaped
  | some n => exact hshaped.map fun v hv => hv.take n.toNat

/-- A call in a select list cannot be evaluated on a row. -/
theorem evalExpr_of_containsAggregate : (expr : Expr) → Sql.containsAggregate expr = true →
    ∃ e, evalExpr expr row columns = .error e
  | .funcCall .., _ => ⟨_, rfl⟩
  | .binaryExpr left op right, h => by
      rw [evalExpr]
      cases hleft : evalExpr left row columns with
      | error e => exact ⟨e, rfl⟩
      | ok l =>
        obtain h | h := Bool.or_eq_true_iff.mp h
        · obtain ⟨e, he⟩ := evalExpr_of_containsAggregate left h
          rw [hleft] at he
          cases he
        · obtain ⟨e, he⟩ := evalExpr_of_containsAggregate right h
          rw [he]
          exact ⟨e, rfl⟩
  | .unaryExpr op operand, h => by
      obtain ⟨e, he⟩ := evalExpr_of_containsAggregate operand h
      rw [evalExpr, he]
      exact ⟨e, rfl⟩

theorem projectRow_of_hasAggregates {exprs : List Expr} (h : hasAggregates exprs = true)
    (columns : List ColumnDef) (row : Row) :
    ∃ e, projectRow exprs columns row = .error e := by
  have hmap : ∃ e, (exprs.mapM fun expr => (evalExpr expr row columns).mapError ExecErr.eval) =
      .error e := by
    induction exprs with
    | nil => cases h
    | cons expr exprs ih =>
      rw [List.mapM_cons]
      cases heval : evalExpr expr row columns with
      | error e => exact ⟨_, rfl⟩
      | ok v =>
        obtain h | h := Bool.or_eq_true_iff.mp h
        · obtain ⟨e, he⟩ := evalExpr_of_containsAggregate expr h
          rw [heval] at he
          cases he
        · obtain ⟨e, he⟩ := ih h
          rw [he]
          exact ⟨e, rfl⟩
  obtain ⟨e, he⟩ := hmap
  exact ⟨e, by rw [projectRow, he]; rfl⟩

theorem exists_of_plannedRows (h : plannedRows db stmt = some rows) :
    stmt.from ≠ [] ∧ ∃ d, db.catalog.getTable stmt.from = .ok d := by
  rw [plannedRows, planSelect] at h
  split_ifs at h with hfrom
  · cases h
  · refine ⟨hfrom, ?_⟩
    cases hget : db.catalog.getTable stmt.from with
    | error e =>
      rw [hget] at h
      cases h
    | ok d => exact ⟨d, rfl⟩

/-- Either a table is missing on both sides, or both get to their joins. -/
theorem both_sides (h : Plain stmt) (hfrom : stmt.from ≠ [])
    (hd : db.catalog.getTable stmt.from = .ok d) :
    ((∃ join ∈ stmt.joins, ∀ d, db.catalog.getTable join.table ≠ .ok d) ∧
        plannedRows db stmt = none ∧ pipelineRows db stmt = none) ∨
      ∃ o o' columns,
        db.joinTables (filtered stmt d.columns (db.scan d)) d.columns stmt.joins =
          .ok (o, columns) ∧
        db.joinTables (db.scan d) d.columns stmt.joins = .ok (o', columns) ∧
        plannedRows db stmt = (finished stmt columns o).rows.toOption ∧
        pipelineRows db stmt = (Cursor.overJoins stmt o' columns).rows.toOption := by
  have hmissing : _ ↔ ∃ e, db.joinTables (db.scan d) d.columns stmt.joins = .error e :=
    joinTables_error_iff d.columns stmt.joins (filtered stmt d.columns (db.scan d)) (db.scan d)
  rw [plannedRows_eq h hfrom hd, pipelineRows_eq hd]
  cases hr : db.joinTables (filtered stmt d.columns (db.scan d)) d.columns stmt.joins with
  | error e =>
    obtain ⟨e', he'⟩ := hmissing.mp ⟨e, hr⟩
    rw [he']
    exact .inl ⟨missing_of_joinTables he', rfl, rfl⟩
  | ok r =>
    cases hr' : db.joinTables (db.scan d) d.columns stmt.joins with
    | error e =>
      obtain ⟨e', he'⟩ := hmissing.mpr ⟨e, hr'⟩
      rw [hr] at he'
      cases he'
    | ok r' =>
      have hcolumns : r.2 = r'.2 :=
        (joinTables_flatten hr).2.trans (joinTables_flatten hr').2.symm
      refine .inr ⟨r.1, r'.1, r.2, rfl, ?_, rfl, ?_⟩
      · rw [hcolumns]
      · rw [hcolumns]
        rfl

theorem rows_of_hasAggregates (hagg : hasAggregates stmt.columns = true)
    (h : (finished stmt columns (.ok v)).rows = .ok rows) :
    rows = [] ∧ (v = .done ∨ ∃ n, stmt.limit = some n ∧ n.toNat = 0) := by
  have hstar : isSelectStar stmt.columns ≠ true := by
    intro hstar
    match hcolumns : stmt.columns, hstar with
    | [.starExpr], _ =>
      rw [hcolumns] at hagg
      cases hagg
  rw [finished, Cursor.projected, if_neg hstar] at h
  have hproject : v = .done ∨ ∃ e, v.filterMap (projectRow stmt.columns columns) = .fail e := by
    cases v with
    | done => exact .inl rfl
    | fail e => exact .inr ⟨e, rfl⟩
    | emit row rest =>
      obtain ⟨e, he⟩ := projectRow_of_hasAggregates hagg columns row
      exact .inr ⟨e, by rw [Stream.filterMap, he]⟩
    | call o => exact o.elim
  obtain rfl | ⟨e, he⟩ := hproject
  · refine ⟨?_, .inl rfl⟩
    cases hlimit : stmt.limit <;>
      · rw [hlimit] at h
        cases h
        rfl
  · cases hlimit : stmt.limit with
    | none =>
      rw [hlimit] at h
      change (Stream.filterMap (projectRow stmt.columns columns) v).drain = _ at h
      rw [he] at h
      cases h
    | some n =>
      rw [hlimit] at h
      change ((Stream.filterMap (projectRow stmt.columns columns) v).take n.toNat).drain = _ at h
      rw [he, Stream.take] at h
      split_ifs at h with hn
      · cases h
        exact ⟨rfl, .inr ⟨n, rfl, hn⟩⟩
      · cases h

/-- There are no groups without rows. -/
theorem follows_aggregate (h : Reference.Follows o []) (groupBy exprs : List Expr)
    (columns : List ColumnDef) : Reference.Follows (o.aggregate groupBy exprs columns) [] := by
  intro v hv
  match o, hv with
  | .ok .done, hv =>
    cases hv
    rfl
  | .ok (.emit row rest), _ =>
    obtain ⟨_, hnil, -⟩ := h _ rfl
    cases hnil
  | .ok (.call o _), _ => exact o.elim

theorem rows_limit_zero {n : Int} (hn : n.toNat = 0) (h : (o.limit n).rows = .ok rows) :
    rows = [] := by
  cases o with
  | error e => cases h
  | ok v =>
    change (Stream.take n.toNat v).drain = .ok rows at h
    rw [hn] at h
    cases v <;> exact (Except.ok.inj h).symm

/-- Rows that both sides return are the same. -/
theorem rows_eq_of_both (h : Plain stmt) {rows' : List Row}
    (hplan : plannedRows db stmt = some rows) (hpipeline : pipelineRows db stmt = some rows') :
    rows = rows' := by
  obtain ⟨hfrom, d, hd⟩ := exists_of_plannedRows hplan
  obtain ⟨-, hnone, -⟩ | ⟨o, o', columns, ho, ho', hleft, hright⟩ := both_sides h hfrom hd
  · rw [hnone] at hplan
    cases hplan
  have hrows := toOption_eq_some.mp (hleft.symm.trans hplan)
  have hrows' := toOption_eq_some.mp (hright.symm.trans hpipeline)
  cases o with
  | error e =>
    have hfail : (finished stmt columns (.error e)).rows = .error e := by
      rw [finished, Cursor.projected]
      split_ifs <;> cases stmt.limit <;> rfl
    rw [hfail] at hrows
    cases hrows
  | ok v =>
    obtain ⟨all, hall, hall'⟩ := exists_followed ho ho' rfl
    cases hagg : hasAggregates stmt.columns with
    | false =>
      rw [overJoins_eq h hagg] at hrows'
      rw [(follows_finished hall).eq_of_rows hrows, (follows_finished hall').eq_of_rows hrows']
    | true =>
      obtain ⟨rfl, hempty⟩ := rows_of_hasAggregates hagg hrows
      rw [Cursor.overJoins, h.groupBy, hagg] at hrows'
      obtain rfl | ⟨n, hlimit, hn⟩ := hempty
      · obtain rfl : all = [] := hall _ rfl
        have hgroups := follows_aggregate hall' [] stmt.columns columns
        cases hlimit : stmt.limit with
        | none =>
          rw [hlimit] at hrows'
          exact (hgroups.eq_of_rows hrows').symm
        | some n =>
          rw [hlimit] at hrows'
          have hlimited : Reference.Follows (Cursor.limit _ n) [] :=
            hgroups.map fun v hv => by simpa using hv.take n.toNat
          exact (hlimited.eq_of_rows hrows').symm
      · rw [hlimit] at hrows'
        exact (rows_limit_zero hn hrows').symm

/-! ### Errors -/

/-- The plan comes to an error at a row of the first table. -/
def FailsBelow (db : Database) (d : TableDef) (joins : List JoinClause) (predicate : Expr)
    (row : Row) : Prop :=
  (∃ e, evalExpr predicate row d.columns = .error e) ∨
    isTrue predicate d.columns row ∧ (extensions db d.columns joins row).Fails

/-- The pipeline comes to an error at a row of the first table. -/
def FailsAbove (db : Database) (d : TableDef) (joins : List JoinClause) (predicate : Expr)
    (row : Row) : Prop :=
  (extensions db d.columns joins row).Fails ∨
    ∃ row' ∈ (extensions db d.columns joins row).elements,
      ∃ e, evalExpr predicate row' (joinedColumns db d.columns joins) = .error e

/-- All rows of the first table can be read, and no error comes up at one of
them, be it kept by the `WHERE` or not. -/
def NothingFails (db : Database) (d : TableDef) (joins : List JoinClause) (predicate : Expr) :
    Prop :=
  ∃ rows, (db.scan d).rows = .ok rows ∧
    ∀ row ∈ rows, (∃ v, evalExpr predicate row d.columns = .ok v) ∧
      ¬ (extensions db d.columns joins row).Fails

theorem fails_keepRow : (Stream.ofOption (keepRow predicate columns row) : Delivery _ _).Fails ↔
    ∃ e, evalExpr predicate row columns = .error e := by
  rw [keepRow, holds]
  cases evalExpr predicate row columns with
  | error e => exact iff_of_true trivial ⟨e, rfl⟩
  | ok v =>
    refine iff_of_false ?_ (by simp)
    show ¬ (Stream.ofOption (.ok (if _ then _ else _))).Fails
    split_ifs <;> exact not_false

theorem elements_keepRow :
    (Stream.ofOption (keepRow predicate columns row) : Delivery _ _).elements =
      if isTrue predicate columns row then [row] else [] := by
  cases heval : evalExpr predicate row columns with
  | error e =>
    rw [keepRow, holds, Sql.isTrue, heval]
    rfl
  | ok v =>
    have hholds : holds predicate columns row = .ok (v = .bool true) := by rw [holds, heval]
    rw [keepRow, hholds, Reference.isTrue_of_holds hholds]
    cases decide (v = .bool true) <;> rfl

theorem fails_below
    (hr : db.joinTables ((db.scan d).filter predicate d.columns) d.columns joins = .ok r) :
    r.1.flatten.Fails ↔ (db.scan d).flatten.Fails ∨
      ∃ row ∈ (db.scan d).flatten.elements, FailsBelow db d joins predicate row := by
  rw [(joinTables_flatten hr).1, Cursor.flatten_filter, Stream.filterMap_eq_flatMap,
    Stream.flatMap_flatMap, Stream.fails_flatMap]
  refine or_congr_right (exists_congr fun row => and_congr_right fun _ => ?_)
  rw [FailsBelow, ← fails_keepRow, Stream.fails_flatMap]
  refine or_congr_right ?_
  rw [elements_keepRow]
  split_ifs with htrue
  · simp [htrue]
  · simp [htrue]

theorem fails_above (hr : db.joinTables (db.scan d) d.columns joins = .ok r) :
    (r.1.filter predicate r.2).flatten.Fails ↔ (db.scan d).flatten.Fails ∨
      ∃ row ∈ (db.scan d).flatten.elements, FailsAbove db d joins predicate row := by
  rw [Cursor.flatten_filter, (joinTables_flatten hr).1, (joinTables_flatten hr).2,
    Stream.filterMap_eq_flatMap, Stream.flatMap_flatMap, Stream.fails_flatMap]
  refine or_congr_right (exists_congr fun row => and_congr_right fun _ => ?_)
  rw [FailsAbove, Stream.fails_flatMap]
  simp only [fails_keepRow]

theorem scan_of_rows (h : (db.scan d).rows = .ok rows) :
    ¬ (db.scan d).flatten.Fails ∧ (db.scan d).flatten.elements = rows := by
  rw [Cursor.rows_eq_drain, Stream.drain_eq_ok] at h
  rw [h]
  exact ⟨Stream.not_fails_ofList rows, Stream.elements_ofList rows⟩

/-- The joined rows are as long as they are because the row of the first
table is the beginning of them, so the `WHERE` has the same value there. -/
theorem NothingFails.not_failsAbove (h : NothingFails db d joins predicate)
    (hrow : row ∈ (db.scan d).flatten.elements) : ¬ FailsAbove db d joins predicate row := by
  obtain ⟨rows, hrows, hall⟩ := h
  obtain ⟨-, helements⟩ := scan_of_rows hrows
  obtain ⟨⟨v, hv⟩, hext⟩ := hall row (helements ▸ hrow)
  rintro (hfails | ⟨row', hrow', e, he⟩)
  · exact hext hfails
  · have hagrees := agrees_extensions (named_of_evalExpr hv) (length_of_scan hrow) hrow'
    rw [evalExpr_of_agrees hagrees predicate (List.Subset.refl _), hv] at he
    cases he

theorem NothingFails.not_failsBelow (h : NothingFails db d joins predicate)
    (hrow : row ∈ (db.scan d).flatten.elements) : ¬ FailsBelow db d joins predicate row := by
  obtain ⟨rows, hrows, hall⟩ := h
  obtain ⟨-, helements⟩ := scan_of_rows hrows
  obtain ⟨⟨v, hv⟩, hext⟩ := hall row (helements ▸ hrow)
  rintro (⟨e, he⟩ | ⟨-, hfails⟩)
  · rw [hv] at he
    cases he
  · exact hext hfails

/-- All tables of the statement exist. -/
def TablesExist (db : Database) (stmt : SelectStmt) : Prop :=
  (∃ d, db.catalog.getTable stmt.from = .ok d) ∧
    ∀ join ∈ stmt.joins, ∃ d, db.catalog.getTable join.table = .ok d

/-- If the tables are there: the first has a name, the select list calls no
function, and there is no `WHERE` or no `JOIN` or nothing that could fail in
them. -/
structure PlanSafe (db : Database) (stmt : SelectStmt) : Prop where
  «from» : TablesExist db stmt → stmt.from ≠ []
  columns : TablesExist db stmt → hasAggregates stmt.columns = false
  «where» : TablesExist db stmt → ∀ predicate d, stmt.where = some predicate →
    db.catalog.getTable stmt.from = .ok d →
    stmt.joins = [] ∨ NothingFails db d stmt.joins predicate

theorem filtered_eq (hsafe : PlanSafe db stmt) (htables : TablesExist db stmt) {o' : Cursor}
    (hd : db.catalog.getTable stmt.from = .ok d)
    (ho : db.joinTables (filtered stmt d.columns (db.scan d)) d.columns stmt.joins =
      .ok (o, columns)) (ho' : db.joinTables (db.scan d) d.columns stmt.joins = .ok (o', columns)) :
    o = filtered stmt columns o' := by
  cases hwhere : stmt.where with
  | none =>
    rw [filtered, hwhere] at ho ⊢
    rw [Option.elim_none, ho'] at ho
    cases ho
    rfl
  | some predicate =>
    obtain hjoins | hnothing := hsafe.where htables predicate d hwhere hd
    · rw [hjoins] at ho ho'
      cases ho
      cases ho'
      rfl
    · have hfollowed := fun v hv => exists_followed (v := v) ho ho' hv
      rw [filtered, hwhere] at ho hfollowed ⊢
      obtain ⟨rows, hrows, -⟩ := id hnothing
      have hscan := (scan_of_rows hrows).1
      have hbelow : ¬ o.flatten.Fails := by
        rw [fails_below ho]
        rintro (hfails | ⟨row, hrow, hfails⟩)
        · exact hscan hfails
        · exact hnothing.not_failsBelow hrow hfails
      have habove : ¬ (o'.filter predicate columns).flatten.Fails := by
        rw [fails_above ho']
        rintro (hfails | ⟨row, hrow, hfails⟩)
        · exact hscan hfails
        · exact hnothing.not_failsAbove hrow hfails
      obtain ⟨rows₁, rfl⟩ := Cursor.eq_of_not_fails hbelow
      obtain ⟨rows₂, hrows₂⟩ := Cursor.eq_of_not_fails habove
      obtain ⟨all, hall, hall'⟩ := hfollowed _ rfl
      rw [Option.elim_some, hrows₂] at hall' ⊢
      rw [hall.eq_of_rows (Stream.drain_ofList rows₁),
        hall'.eq_of_rows (Stream.drain_ofList rows₂)]

theorem tables_of_joinTables {r : Cursor × List ColumnDef}
    (h : db.joinTables o columns joins = .ok r) :
    ∀ join ∈ joins, ∃ d, db.catalog.getTable join.table = .ok d := by
  induction joins generalizing o columns with
  | nil => simp
  | cons join joins ih =>
    obtain ⟨d, hd, h⟩ := Reference.exists_of_joinTables h
    exact List.forall_mem_cons.mpr ⟨⟨d, hd⟩, ih h⟩

/-- Without one of its tables a `SELECT` fails on both sides. -/
theorem rows_eq_none (h : Plain stmt) (htables : ¬ TablesExist db stmt) :
    plannedRows db stmt = none ∧ pipelineRows db stmt = none := by
  cases hget : db.catalog.getTable stmt.from with
  | error e =>
    constructor
    · refine Option.eq_none_iff_forall_ne_some.mpr fun rows hrows => ?_
      obtain ⟨-, d, hd⟩ := exists_of_plannedRows hrows
      rw [hget] at hd
      cases hd
    · rw [pipelineRows, Database.select, hget]
      rfl
  | ok d =>
    have herror (o : Cursor) : ∃ e, db.joinTables o d.columns stmt.joins = .error e := by
      cases hr : db.joinTables o d.columns stmt.joins with
      | error e => exact ⟨e, rfl⟩
      | ok r => exact absurd ⟨⟨d, hget⟩, tables_of_joinTables hr⟩ htables
    constructor
    · refine Option.eq_none_iff_forall_ne_some.mpr fun rows hrows => ?_
      obtain ⟨hfrom, -⟩ := exists_of_plannedRows hrows
      obtain ⟨e, he⟩ := herror (filtered stmt d.columns (db.scan d))
      rw [plannedRows_eq h hfrom hget, he] at hrows
      cases hrows
    · obtain ⟨e, he⟩ := herror (db.scan d)
      rw [pipelineRows_eq hget, he]
      rfl

theorem plannedRows_of_planSafe (h : Plain stmt) (hsafe : PlanSafe db stmt) :
    plannedRows db stmt = pipelineRows db stmt := by
  by_cases htables : TablesExist db stmt
  · obtain ⟨d, hd⟩ := htables.1
    obtain ⟨-, hnone, hnone'⟩ | ⟨o, o', columns, ho, ho', hleft, hright⟩ :=
      both_sides h (hsafe.from htables) hd
    · rw [hnone, hnone']
    · rw [hleft, hright, overJoins_eq h (hsafe.columns htables),
        filtered_eq hsafe htables hd ho ho']
  · obtain ⟨hplanned, hpipeline⟩ := rows_eq_none h htables
    rw [hplanned, hpipeline]

/-- The two sides agree if they agree about errors. -/
theorem plannedRows_eq_iff (h : Plain stmt) :
    plannedRows db stmt = pipelineRows db stmt ↔
      (plannedRows db stmt = none ↔ pipelineRows db stmt = none) := by
  refine ⟨fun heq => by rw [heq], fun hiff => ?_⟩
  cases hplan : plannedRows db stmt with
  | none => exact (hiff.mp hplan).symm
  | some rows =>
    cases hpipeline : pipelineRows db stmt with
    | none =>
      rw [hiff.mpr hpipeline] at hplan
      cases hplan
    | some rows' => rw [rows_eq_of_both h hplan hpipeline]

theorem rows_toOption_eq_none : o.rows.toOption = none ↔ o.flatten.Fails := by
  rw [Cursor.rows_eq_drain, Stream.fails_iff_drain]
  cases o.flatten.drain with
  | error e => exact iff_of_true rfl ⟨e, rfl⟩
  | ok rows => exact iff_of_false nofun nofun

/-- Without a projection and a limit, each error comes up. -/
theorem plannedRows_star_iff (h : Plain stmt) (hstar : isSelectStar stmt.columns = true)
    (hlimit : stmt.limit = none) (hwhere : stmt.where = some predicate) (hfrom : stmt.from ≠ [])
    (hd : db.catalog.getTable stmt.from = .ok d)
    (hjoins : ∀ join ∈ stmt.joins, ∃ d, db.catalog.getTable join.table = .ok d)
    (hrows : (db.scan d).rows = .ok rows) :
    plannedRows db stmt = pipelineRows db stmt ↔
      ((∃ row ∈ rows, FailsBelow db d stmt.joins predicate row) ↔
        ∃ row ∈ rows, FailsAbove db d stmt.joins predicate row) := by
  obtain ⟨⟨join, hjoin, hmissing⟩, -⟩ | ⟨o, o', columns, ho, ho', hleft, hright⟩ :=
    both_sides h hfrom hd
  · obtain ⟨d', hd'⟩ := hjoins join hjoin
    exact absurd hd' (hmissing d')
  obtain ⟨hscan, rfl⟩ := scan_of_rows hrows
  have hagg : hasAggregates stmt.columns = false := by
    match hcolumns : stmt.columns, hstar with
    | [.starExpr], _ => rfl
  have hfinished : ∀ o, finished stmt columns o = o := by
    intro o
    rw [finished, Cursor.projected, if_pos hstar, hlimit]
    rfl
  rw [plannedRows_eq_iff h, hleft, hright, overJoins_eq h hagg, hfinished, hfinished,
    rows_toOption_eq_none, rows_toOption_eq_none]
  rw [filtered, hwhere] at ho ⊢
  rw [fails_below ho, Option.elim_some, fails_above ho', or_iff_right hscan, or_iff_right hscan]

/-- The plan of a `SELECT` without aggregates and the pipeline of the executor
return the same rows if both return. They do return the same, errors included,
if nothing in the `WHERE` and the joins can fail; and a `SELECT *` without a
limit tells exactly which errors make the difference. -/
theorem plannedRows_pipelineRows (h : Plain stmt) :
    (∀ rows rows', plannedRows db stmt = some rows → pipelineRows db stmt = some rows' →
      rows = rows') ∧
    (PlanSafe db stmt → plannedRows db stmt = pipelineRows db stmt) ∧
    ∀ predicate d rows, isSelectStar stmt.columns = true → stmt.limit = none →
      stmt.where = some predicate → stmt.from ≠ [] → db.catalog.getTable stmt.from = .ok d →
      (∀ join ∈ stmt.joins, ∃ d, db.catalog.getTable join.table = .ok d) →
      (db.scan d).rows = .ok rows →
      (plannedRows db stmt = pipelineRows db stmt ↔
        ((∃ row ∈ rows, FailsBelow db d stmt.joins predicate row) ↔
          ∃ row ∈ rows, FailsAbove db d stmt.joins predicate row)) :=
  ⟨fun _ _ hplan hpipeline => rows_eq_of_both h hplan hpipeline, plannedRows_of_planSafe h,
    fun _ _ _ hstar hlimit hwhere hfrom hd hjoins hrows =>
      plannedRows_star_iff h hstar hlimit hwhere hfrom hd hjoins hrows⟩

/-- `SELECT * FROM t JOIN t ON 1 = 1 WHERE id > 1 LIMIT 1`. -/
def firstPair : SelectStmt where
  columns := [.starExpr]
  «from» := ascii "t"
  joins := [⟨ascii "t", [], some (.binaryExpr (integer "1") .eq (integer "1"))⟩]
  «where» := some (.binaryExpr (.columnRef [] (ascii "id")) .gt (integer "1"))
  limit := some 1

theorem plannedRows_pipelineRows_pair :
    plannedRows twoKeys.db firstPair = some [[{ intVal := 2 }, { intVal := 1 }]] ∧
      plannedRows twoKeys.db firstPair = pipelineRows twoKeys.db firstPair := by
  refine ⟨by decide +kernel, (plannedRows_pipelineRows ⟨rfl, rfl, rfl, rfl⟩).2.1
    ⟨fun _ => by decide, fun _ => rfl, ?_⟩⟩
  intro _ predicate d hpredicate hd
  obtain rfl : keyTable = d := Except.ok.inj (getTable_twoKeys.symm.trans hd)
  cases hpredicate
  refine .inr ⟨[[{ intVal := 1 }], [{ intVal := 2 }]], by decide +kernel, ?_⟩
  have hext : ∀ row ∈ [[{ intVal := 1 }], [{ intVal := 2 }]],
      (extensions twoKeys.db keyTable.columns firstPair.joins row).drain.toOption =
        some [row ++ [{ intVal := 1 }], row ++ [{ intVal := 2 }]] := by
    decide +kernel
  have heval : ∀ row ∈ [[{ intVal := 1 }], [{ intVal := 2 }]],
      evalExpr (.binaryExpr (.columnRef [] (ascii "id")) .gt (integer "1")) row keyTable.columns =
        .ok (.bool (row = [{ intVal := 2 }])) := by
    decide +kernel
  intro row hrow
  refine ⟨⟨_, heval row hrow⟩, fun hfails => ?_⟩
  obtain ⟨e, he⟩ := Stream.fails_iff_drain.mp hfails
  rw [toOption_eq_some.mp (hext row hrow)] at he
  cases he

/-- `t` has a row with `id` 1, and `u` one with `n` 2. -/
def oneOfEach : World :=
  ((((World.new plainEnv).step 1
    (.createTableStmt { table := ascii "t", columns := [idColumn] })).step 1
    (.createTableStmt
      { table := ascii "u", columns := [{ intColumn "n" with primaryKey := true }] })).step 1
    (insertInto "t" [["1"]])).step 1
    (insertInto "u" [["2"]])

/-- `SELECT * FROM t JOIN u ON 1 = 1 WHERE n > 1`. -/
def largeOther : SelectStmt where
  columns := [.starExpr]
  «from» := ascii "t"
  joins := [⟨ascii "u", [], some (.binaryExpr (integer "1") .eq (integer "1"))⟩]
  «where» := some (.binaryExpr (.columnRef [] (ascii "n")) .gt (integer "1"))

/-- The `WHERE` names a column of the joined table. -/
theorem plannedRows_joined_column :
    plannedRows oneOfEach.db largeOther = none ∧
      pipelineRows oneOfEach.db largeOther = some [[{ intVal := 1 }, { intVal := 2 }]] := by
  decide +kernel

end MySQLight.Planner
