import MySQLight.Data.StableSort
import MySQLight.Data.Traverse
import MySQLight.Executor.Cursor

/-!
What a `SELECT` without groups is meant to return, on lists: the rows of the
tables side by side, those that meet the conditions, in order, the values
that are asked for, the first of them.

An expression that cannot be evaluated counts as one that is not true, or as
NULL. The executor fails where it comes to such an expression, so this makes
no difference to the rows that it returns.
-/

namespace MySQLight.Sql

open MySQLight.Data MySQLight.Schema MySQLight.Effect

/-- The condition is true of the row. -/
def isTrue (condition : Expr) (columns : List ColumnDef) (row : Row) : Bool :=
  match evalExpr condition row columns with
  | .ok (.bool b) => b
  | _ => false

namespace Reference

/-- The rows of a table in key order. -/
def tableRows (db : Database) (d : TableDef) : List Row :=
  ((db.trees d.rootPageID).entries.map (·.2)).filterMap fun value =>
    (decodeRow value d.columns).toOption

/-- Each row of the left side with each row of the right side, if the
condition is true of them. -/
def pairs (leftRows rightRows : List Row) (condition : Option Expr) (columns : List ColumnDef) :
    List Row :=
  leftRows.flatMap fun leftRow =>
    (rightRows.map (leftRow ++ ·)).filter fun row => condition.all (isTrue · columns row)

def joined (db : Database) (rows : List Row) (columns : List ColumnDef) :
    List JoinClause → List Row × List ColumnDef
  | [] => (rows, columns)
  | join :: joins =>
    match db.catalog.getTable join.table with
    | .error _ => ([], columns)
    | .ok d =>
      joined db (pairs rows (tableRows db d) join.on (columns ++ d.columns))
        (columns ++ d.columns) joins

/-- The rows of which the `WHERE` is true, and their columns. -/
def selected (db : Database) (stmt : SelectStmt) : List Row × List ColumnDef :=
  match db.catalog.getTable stmt.from with
  | .error _ => ([], [])
  | .ok d =>
    let (rows, columns) := joined db (tableRows db d) d.columns stmt.joins
    (rows.filter fun row => stmt.where.all (isTrue · columns row), columns)

/-- The comparisons of an `ORDER BY`, one after the other. -/
def compareRows (columns : List ColumnDef) (orderBy : List OrderClause) : Row → Row → Ordering :=
  compareAll (orderBy.map fun clause a b =>
    let o := compareValues (sortKey clause.expr columns a) (sortKey clause.expr columns b)
    if clause.desc then o.swap else o)

/-- The values that are asked for. -/
def output (exprs : List Expr) (columns : List ColumnDef) (row : Row) : Row :=
  if isSelectStar exprs then row
  else exprs.map fun expr =>
    match evalExpr expr row columns with
    | .ok d => toValue d
    | .error _ => .null

/-- Rows that compare equal stay in their order. -/
def sorted (columns : List ColumnDef) (orderBy : List OrderClause) (rows : List Row) : List Row :=
  rows.insertionSort fun a b => (compareRows columns orderBy a b).isLE

/-- The rows in order, as they are asked for, the first of them. -/
def results (stmt : SelectStmt) (rows : List Row) (columns : List ColumnDef) : List Row :=
  let rows := (sorted columns stmt.orderBy rows).map (output stmt.columns columns)
  stmt.limit.elim rows fun n => rows.take n.toNat

def select (db : Database) (stmt : SelectStmt) : List Row :=
  let (rows, columns) := selected db stmt
  results stmt rows columns

/-! ### The order of the rows -/

/-- An integer or NULL. -/
def IsInteger : Datum → Prop
  | .null | .int _ => True
  | _ => False

instance : DecidablePred IsInteger
  | .null | .int _ => .isTrue trivial
  | .float _ | .text _ | .blob _ | .bool _ => .isFalse id

/-- A text or NULL. -/
def IsText : Datum → Prop
  | .null | .text _ => True
  | _ => False

/-- The keys of an `ORDER BY` are all integers, or all texts. -/
def Orderable (columns : List ColumnDef) (rows : List Row) (clause : OrderClause) : Prop :=
  (∀ row ∈ rows, IsInteger (sortKey clause.expr columns row)) ∨
    ∀ row ∈ rows, IsText (sortKey clause.expr columns row)

end Reference

/-! ### Comparisons of values -/

theorem compareValues_swap (a b : Datum) : (compareValues a b).swap = compareValues b a := by
  have hfloats : ∀ x y : Float64,
      Ordering.swap (if x.lt y then .lt else if y.lt x then .gt else .eq)
      = if y.lt x then .lt else if x.lt y then .gt else .eq := by
    intro x y
    have hasymm : x.lt y → ¬ y.lt x := Float64.lt_asymm
    split_ifs <;> first | rfl | exact absurd ‹_› (hasymm ‹_›)
  cases a <;> cases b <;>
    first | rfl | exact hfloats _ _ | exact compareBytes_swap _ _

instance : Std.TransCmp compareBytes where
  eq_swap {a b} := (compareBytes_swap b a).symm
  isLE_trans {a b c} hab hbc := by
    have hle : ∀ a b, (compareBytes a b).isLE = true ↔ a ≤ b := by
      intro a b
      rw [← not_lt, ← compareBytes_eq_gt]
      cases compareBytes a b <;> decide
    rw [hle] at hab hbc ⊢
    exact hab.trans hbc

namespace Reference

/-- The place of an integer or NULL in the order. -/
def intRank : Datum → Int
  | .int i => (Float64.ofInt i.toInt).rank
  | _ => -2 ^ 64

/-- The place of a text or NULL in the order. -/
def textRank : Datum → Bytes
  | .text s => 0 :: s
  | _ => []

theorem compareValues_of_isInteger {a b : Datum} (ha : IsInteger a) (hb : IsInteger b) :
    compareValues a b = compare (intRank a) (intRank b) := by
  have hlow : ∀ i : Int64, (-2 ^ 64 : Int) < (Float64.ofInt i.toInt).rank := by
    intro i
    have := Float64.neg_lt_rank (Float64.ofInt i.toInt)
    omega
  cases a with
  | null =>
    cases b with
    | null => rfl
    | int j => exact (compare_lt_iff_lt.mpr (hlow j)).symm
    | _ => exact hb.elim
  | int i =>
    cases b with
    | null => exact (compare_gt_iff_gt.mpr (hlow i)).symm
    | int j => exact Float64.compare_ofInt i.toInt j.toInt
    | _ => exact hb.elim
  | _ => exact ha.elim

theorem compareValues_of_isText {a b : Datum} (ha : IsText a) (hb : IsText b) :
    compareValues a b = compareBytes (textRank a) (textRank b) := by
  cases a with
  | null | text =>
    cases b with
    | null | text => rfl
    | _ => exact hb.elim
  | _ => exact ha.elim

variable {columns : List ColumnDef}

/-- A clause of an `ORDER BY` is a total preorder of the rows. -/
theorem transCmp_clause {rows : List Row} {clause : OrderClause}
    (h : Orderable columns rows clause) :
    Std.TransCmp fun a b : { row // row ∈ rows } =>
      let o := compareValues (sortKey clause.expr columns a) (sortKey clause.expr columns b)
      if clause.desc then o.swap else o := by
  have hup : Std.TransCmp fun a b : { row // row ∈ rows } =>
      compareValues (sortKey clause.expr columns a) (sortKey clause.expr columns b) := by
    obtain h | h := h
    · have hcmp := transCmp_on (compare : Int → Int → Ordering)
        fun a : { row // row ∈ rows } => intRank (sortKey clause.expr columns a)
      convert hcmp using 3 with a b
      exact compareValues_of_isInteger (h a a.2) (h b b.2)
    · have hcmp := transCmp_on compareBytes
        fun a : { row // row ∈ rows } => textRank (sortKey clause.expr columns a)
      convert hcmp using 3 with a b
      exact compareValues_of_isText (h a a.2) (h b b.2)
  cases clause.desc with
  | false => exact hup
  | true =>
    have hdown : Std.TransCmp fun a b : { row // row ∈ rows } =>
        compareValues (sortKey clause.expr columns b) (sortKey clause.expr columns a) :=
      inferInstance
    convert hdown using 3 with a b
    exact compareValues_swap _ _

/-- `Sort` and the sort by insertion agree. -/
theorem mergeSort_eq_sorted {rows : List Row} {orderBy : List OrderClause}
    (h : ∀ clause ∈ orderBy, Orderable columns rows clause) :
    (rows.mergeSort fun a b => !sortLess columns b a orderBy) = sorted columns orderBy rows := by
  have hless : ∀ a b, (!sortLess columns b a orderBy) = (compareRows columns orderBy a b).isLE := by
    intro a b
    rw [compareRows]
    clear h
    induction orderBy with
    | nil => rfl
    | cons clause clauses ih =>
      rw [sortLess, List.map_cons, compareAll, ← compareValues_swap]
      cases compareValues (sortKey clause.expr columns a) (sortKey clause.expr columns b) <;>
        cases clause.desc <;> first | rfl | exact ih
  have htrans : Std.TransCmp fun a b : { row // row ∈ rows } =>
      compareRows columns orderBy a b := by
    refine transCmp_compareAll (List.forall_mem_map.mpr fun clause hclause => ?_)
    exact transCmp_clause (h clause hclause)
  simp only [hless]
  exact mergeSort_eq_insertionSort_of_mem htrans

theorem sorted_nil (columns : List ColumnDef) (rows : List Row) :
    sorted columns [] rows = rows := by
  induction rows with
  | nil => rfl
  | cons row rows ih =>
    rw [sorted, List.insertionSort_cons]
    rw [sorted] at ih
    rw [ih]
    cases rows <;> rfl

/-! ### The operators -/

/-- What is delivered are rows of the list, from the first one on. -/
def Follows (o : Cursor) (rows : List Row) : Prop := ∀ v, o = .ok v → v.Follows rows

variable {o o₁ o₂ : Cursor} {rows rows₁ rows₂ : List Row}

theorem Follows.map {f : Delivery ExecErr Row → Delivery ExecErr Row} {rows' : List Row}
    (h : Follows o rows) (hf : ∀ v : Delivery ExecErr Row, v.Follows rows → (f v).Follows rows') :
    Follows (do return f (← o)) rows' := by
  intro v hv
  cases o with
  | error e => cases hv
  | ok w =>
    cases hv
    exact hf w (h w rfl)

theorem exists_of_holds {condition : Expr} {row : Row} {b : Bool}
    (h : holds condition columns row = .ok b) :
    ∃ d, evalExpr condition row columns = .ok d ∧ b = decide (d = .bool true) := by
  rw [holds] at h
  cases heval : evalExpr condition row columns with
  | error e =>
    rw [heval] at h
    cases h
  | ok d =>
    rw [heval] at h
    cases h
    exact ⟨d, rfl, rfl⟩

theorem exists_of_decoded {value : Bytes} {row : Option Row}
    (h : ((decodeRow value columns).mapError ExecErr.row).map some = .ok row) :
    ∃ row', decodeRow value columns = .ok row' ∧ row = some row' := by
  cases hdecode : decodeRow value columns with
  | error e =>
    rw [hdecode] at h
    cases h
  | ok row' =>
    rw [hdecode] at h
    cases h
    exact ⟨row', rfl, rfl⟩

theorem exists_of_joinTables {db : Database} {join : JoinClause} {joins : List JoinClause}
    {r : Cursor × List ColumnDef} (h : db.joinTables o columns (join :: joins) = .ok r) :
    ∃ d, db.catalog.getTable join.table = .ok d ∧
      db.joinTables (o.join (db.scan d) join.on (columns ++ d.columns)) (columns ++ d.columns)
        joins = .ok r := by
  obtain ⟨d, hd, hr⟩ := exists_of_bind_ok h
  exact ⟨d, mapError_eq_ok.mp hd, hr⟩

theorem isTrue_of_holds {condition : Expr} {row : Row} {b : Bool}
    (h : holds condition columns row = .ok b) : isTrue condition columns row = b := by
  obtain ⟨d, hd, hb⟩ := exists_of_holds h
  rw [isTrue, hd, hb]
  cases d with
  | bool b => cases b <;> rfl
  | _ => rfl

theorem follows_scan (db : Database) (d : TableDef) : Follows (db.scan d) (tableRows db d) := by
  intro v hv
  cases hv
  refine (Stream.Follows.ofList _).filterMap fun value row hrow => ?_
  obtain ⟨row', hdecode, rfl⟩ := exists_of_decoded hrow
  exact toOption_eq_some.mpr hdecode

theorem follows_filter (h : Follows o rows) (predicate : Expr) (columns : List ColumnDef) :
    Follows (o.filter predicate columns) (rows.filter (isTrue predicate columns)) := by
  refine h.map fun v hv => ?_
  rw [← List.filterMap_eq_filter]
  refine hv.filterMap fun row b hb => ?_
  obtain ⟨b', hholds, hb⟩ := exists_of_bind_ok hb
  cases hb
  rw [Option.guard, isTrue_of_holds hholds]

theorem combine_eq_ok {condition : Option Expr} {leftRow rightRow : Row} {b : Option Row}
    (h : combine condition columns leftRow rightRow = .ok b) :
    b = Option.guard (fun row => condition.all (isTrue · columns row)) (leftRow ++ rightRow) := by
  cases condition with
  | none =>
    cases h
    rfl
  | some predicate =>
    obtain ⟨b', hholds, h⟩ := exists_of_bind_ok h
    cases h
    rw [Option.guard, Option.all_some, isTrue_of_holds hholds]

theorem follows_join (h₁ : Follows o₁ rows₁) (h₂ : Follows o₂ rows₂) (condition : Option Expr)
    (columns : List ColumnDef) :
    Follows (o₁.join o₂ condition columns) (pairs rows₁ rows₂ condition columns) := by
  intro v hv
  cases o₁ with
  | error e => cases hv
  | ok leftRows =>
    cases o₂ with
    | error e => cases hv
    | ok rightRows =>
      have hpairs : (leftRows.flatMap fun leftRow =>
          rightRows.filterMap (combine condition columns leftRow)).Follows
            (pairs rows₁ rows₂ condition columns) := by
        refine (h₁ _ rfl).flatMap fun leftRow => ?_
        rw [← List.filterMap_eq_filter, List.filterMap_map]
        exact (h₂ _ rfl).filterMap fun rightRow b hb => (combine_eq_ok hb).symm
      cases leftRows with
      | fail e => cases hv
      | done =>
        cases hv
        exact hpairs
      | emit a rest =>
        cases hv
        exact hpairs
      | call o => exact o.elim

theorem follows_joinTables (db : Database) (joins : List JoinClause) (h : Follows o rows)
    {r : Cursor × List ColumnDef} (hr : db.joinTables o columns joins = .ok r) :
    Follows r.1 (joined db rows columns joins).1 ∧ r.2 = (joined db rows columns joins).2 := by
  induction joins generalizing o rows columns with
  | nil =>
    cases hr
    exact ⟨h, rfl⟩
  | cons join joins ih =>
    obtain ⟨d, hd, hr⟩ := exists_of_joinTables hr
    rw [joined, hd]
    exact ih (follows_join h (follows_scan db d) join.on _) hr

theorem projectRow_eq_ok {exprs : List Expr} {row : Row} {b : Option Row}
    (hstar : isSelectStar exprs = false) (h : projectRow exprs columns row = .ok b) :
    b = some (output exprs columns row) := by
  obtain ⟨values, hvalues, h⟩ := exists_of_bind_ok h
  cases h
  rw [output, if_neg (by rw [hstar]; decide)]
  refine congrArg some ?_
  have hall := forall₂_of_mapM_ok hvalues
  clear hvalues h hstar
  induction hall with
  | nil => rfl
  | cons hvalue hvalues ih =>
    rw [List.map_cons, List.map_cons, ih, mapError_eq_ok.mp hvalue]

theorem follows_project (h : Follows o rows) {exprs : List Expr}
    (hstar : isSelectStar exprs = false)
    (columns : List ColumnDef) :
    Follows (o.project exprs columns) (rows.map (output exprs columns)) := by
  refine h.map fun v hv => ?_
  rw [← List.filterMap_eq_map]
  exact hv.filterMap fun row b hb => (projectRow_eq_ok hstar hb).symm

theorem follows_projected (stmt : SelectStmt) (columns : List ColumnDef) (h : Follows o rows) :
    Follows (Cursor.projected stmt columns o) (rows.map (output stmt.columns columns)) := by
  rw [Cursor.projected]
  split_ifs with hstar
  · have hid : output stmt.columns columns = id := by
      funext row
      rw [output, if_pos hstar]
      rfl
    rw [hid, List.map_id]
    exact h
  · exact follows_project h (Bool.eq_false_iff.mpr hstar) columns

theorem Follows.eq_of_rows {rows' : List Row} (h : Follows o rows) (hrows : o.rows = .ok rows') :
    rows' = rows := by
  cases o with
  | error e => cases hrows
  | ok v => exact (h v rfl).eq_of_drain hrows

theorem sort_of_rows (h : o.rows = .ok rows) {orderBy : List OrderClause}
    (horder : ∀ clause ∈ orderBy, Orderable columns rows clause) :
    o.sort orderBy columns = .ok (.ofList (sorted columns orderBy rows)) := by
  rw [Cursor.sort, h, ← mergeSort_eq_sorted horder]
  rfl

theorem follows_sort (h : Follows o rows) {orderBy : List OrderClause}
    (horder : ∀ clause ∈ orderBy, Orderable columns rows clause) :
    Follows (o.sort orderBy columns) (sorted columns orderBy rows) := by
  intro v hv
  obtain ⟨rows', hrows, hv⟩ := exists_of_bind_ok hv
  cases hv
  rw [h.eq_of_rows hrows, mergeSort_eq_sorted horder]
  exact .ofList _

theorem follows_overJoins {stmt : SelectStmt} (h : Follows o rows) (hgroup : stmt.groupBy = [])
    (hagg : hasAggregates stmt.columns = false)
    (horder : ∀ clause ∈ stmt.orderBy, Orderable columns
      (rows.filter fun row => stmt.where.all (isTrue · columns row)) clause) :
    Follows (Cursor.overJoins stmt o columns)
      (results stmt (rows.filter fun row => stmt.where.all (isTrue · columns row)) columns) := by
  have hfiltered : Follows (stmt.where.elim o fun predicate => o.filter predicate columns)
      (rows.filter fun row => stmt.where.all (isTrue · columns row)) := by
    cases stmt.where with
    | none =>
      rw [Option.elim_none]
      simpa using h
    | some predicate => exact follows_filter h predicate columns
  have hsorted := fun o (h : Follows o _) =>
    show Follows (Cursor.sorted stmt columns o) (sorted columns stmt.orderBy
      (rows.filter fun row => stmt.where.all (isTrue · columns row))) by
    rw [Cursor.sorted]
    split_ifs with hempty
    · rw [List.isEmpty_iff.mp hempty, sorted_nil]
      exact h
    · exact follows_sort h horder
  rw [Cursor.overJoins, results, hgroup, hagg]
  have hshaped := follows_projected stmt columns (hsorted _ hfiltered)
  cases stmt.limit with
  | none => exact hshaped
  | some n => exact hshaped.map fun v hv => hv.take n.toNat

theorem follows_select {db : Database} {stmt : SelectStmt} (hgroup : stmt.groupBy = [])
    (hagg : hasAggregates stmt.columns = false)
    (horder : ∀ clause ∈ stmt.orderBy, Orderable (selected db stmt).2 (selected db stmt).1 clause) :
    Follows (db.select stmt) (select db stmt) := by
  intro v hv
  obtain ⟨d, hd, hv⟩ := exists_of_bind_ok hv
  obtain ⟨r, hjoin, hv⟩ := exists_of_bind_ok hv
  obtain ⟨hr, hcolumns⟩ := follows_joinTables db stmt.joins (follows_scan db d) hjoin
  have hselected : selected db stmt =
      ((joined db (tableRows db d) d.columns stmt.joins).1.filter fun row =>
        stmt.where.all (isTrue · r.2 row), r.2) := by
    rw [selected, mapError_eq_ok.mp hd, hcolumns]
  rw [hselected] at horder
  rw [select, hselected]
  exact follows_overJoins hr hgroup hagg horder v hv

end Reference

/-- A `SELECT` without groups that returns rows returns those of the
reference, if its keys can be ordered. -/
theorem select_returns_reference {depth : Nat} {w : World} {stmt : SelectStmt} {rows : List Row}
    (hgroup : stmt.groupBy = []) (hagg : hasAggregates stmt.columns = false)
    (horder : ∀ clause ∈ stmt.orderBy, Reference.Orderable (Reference.selected w.db stmt).2
      (Reference.selected w.db stmt).1 clause)
    (h : w.outcome depth (.selectStmt stmt) = .ok rows) : rows = Reference.select w.db stmt := by
  obtain ⟨hblocked, -⟩ | hrows := outcome_selectStmt depth w stmt
  · rw [hblocked] at h
    cases h
  · exact (Reference.follows_select hgroup hagg horder).eq_of_rows (hrows.symm.trans h)

/-- The rows 1 and 2 of a table with one column. -/
def twoKeys : World :=
  ((World.new plainEnv).step 1
    (.createTableStmt { table := ascii "t", columns := [idColumn] })).step 1
    (insertInto "t" [["1"], ["2"]])

/-- The table of `twoKeys`. -/
def keyTable : TableDef where
  name := ascii "t"
  columns := [{ name := ascii "id", type := .typeInt, primaryKey := true }]
  foreignKeys := []
  rootPageID := 1

theorem getTable_twoKeys : twoKeys.db.catalog.getTable (ascii "t") = .ok keyTable := by
  decide +kernel

/-- `SELECT * FROM t JOIN t ON 1 = 1 WHERE id < 3 ORDER BY id DESC LIMIT 3`. -/
def lastPairs : SelectStmt where
  columns := [.starExpr]
  «from» := ascii "t"
  joins := [⟨ascii "t", [], some (.binaryExpr (integer "1") .eq (integer "1"))⟩]
  «where» := some (.binaryExpr (.columnRef [] (ascii "id")) .lt (integer "3"))
  orderBy := [⟨.columnRef [] (ascii "id"), true⟩]
  limit := some 3

theorem select_returns_reference_pairs :
    [[{ intVal := 2 }, { intVal := 1 }], [{ intVal := 2 }, { intVal := 2 }],
      [{ intVal := 1 }, { intVal := 1 }]] = Reference.select twoKeys.db lastPairs := by
  let columns := keyTable.columns ++ keyTable.columns
  let pairs : List Row := [[{ intVal := 1 }, { intVal := 1 }], [{ intVal := 1 }, { intVal := 2 }],
    [{ intVal := 2 }, { intVal := 1 }], [{ intVal := 2 }, { intVal := 2 }]]
  let scan := twoKeys.db.scan keyTable
  let filtered :=
    (scan.join scan (some (.binaryExpr (integer "1") .eq (integer "1"))) columns).filter
      (.binaryExpr (.columnRef [] (ascii "id")) .lt (integer "3")) columns
  have hfiltered : filtered.rows = .ok pairs := by decide +kernel
  have horder : ∀ clause ∈ lastPairs.orderBy, Reference.Orderable columns pairs clause := by
    refine List.forall_mem_singleton.mpr (.inl ?_)
    decide +kernel
  have hselect :
      twoKeys.db.select lastPairs = (filtered.sort lastPairs.orderBy columns).limit 3 := by
    rw [Database.select_of_getTable getTable_twoKeys, lastPairs, Database.joinTables,
      getTable_twoKeys]
    rfl
  have hselected : Reference.selected twoKeys.db lastPairs = (pairs, columns) := by decide +kernel
  refine select_returns_reference rfl rfl (by rwa [hselected])
    (((outcome_selectStmt 1 twoKeys lastPairs).resolve_left ?_).trans ?_)
  · rintro ⟨-, htxn⟩
    exact htxn (by decide +kernel)
  · rw [hselect, Reference.sort_of_rows hfiltered horder]
    decide +kernel

end MySQLight.Sql
