import MySQLight.Data.Traverse
import MySQLight.Executor.Calls

/-!
What the foreign-key actions and the statements that call them keep.

The actions delete rows and set columns of rows they have read before. What
each of these writes keeps, the actions keep, however deep the recursion goes
and wherever it stops (`Kept`). What the writes of whole rows keep as well,
the statements keep (`Upheld`).
-/

namespace MySQLight.Sql

open MySQLight.Data MySQLight.Schema MySQLight.Effect

/-- A table of the catalog, with its indexes. -/
structure Target (db : Database) (d : TableDef) (indexes : List IndexDef) : Prop where
  table : db.catalog.tables.lookup d.name = some d
  indexes : db.catalog.indexesForTable d.name = .ok indexes

theorem target_of {c : Catalog} (hname : ∀ name d, c.tables.lookup name = some d → d.name = name)
    {t : Database} (ht : t.catalog = c) {name : Bytes} {d : TableDef} {indexes : List IndexDef}
    (hd : c.tables.lookup name = some d) (hindexes : c.indexesForTable name = .ok indexes) :
    Target t d indexes := by
  have hdname := hname name d hd
  subst hdname
  exact ⟨ht ▸ hd, ht ▸ hindexes⟩

/-- The key is that of the row. -/
def KeyOf (d : TableDef) (row : Row) (key : Bytes) : Prop :=
  ∃ i, pkIndex d.columns = some i ∧ columnKey d.columns i (row.getD i .null) = .ok key

/-! ### Actions -/

/-- The scans of the tables `reads` and the actions' writes of the tables
`writes` are as `require` wants them, and keep `I`. `Gone` is known of the
rows that are deleted and `Read` of those that are changed, both from having
read them; the values that columns are set to are among `values`. -/
structure Kept (c : Catalog) (require : DbOp → Database → Prop) (reads writes : Bytes → Prop)
    (values : Value → Prop) (Gone Read : TableDef → Row → Prop) (I : Database → Prop) :
    Prop where
  asks : Asks require
  name : ∀ name d, c.tables.lookup name = some d → d.name = name
  catalog : ∀ t, I t → t.catalog = c
  tick : ∀ t, I t → I t.tick
  scan : ∀ d t, I t → t.catalog.tables.lookup d.name = some d → reads d.name → require (.scan d) t
  read : ∀ d t, I t → t.catalog.tables.lookup d.name = some d → ∀ row, Stored t d row →
    Gone d row ∧ Read d row
  delete : ∀ d indexes row key t, I t → Target t d indexes → writes d.name → KeyOf d row key →
    Gone d row → require (.deleteRow d indexes row key) t ∧
      I (Database.handler (.deleteRow d indexes row key) t).2
  set : ∀ d indexes column i row v key t, I t → Target t d indexes → writes d.name →
    KeyOf d row key → colIndex d.columns column = some i →
    (v.isNull = true → ∀ c, d.columns[i]? = some c → c.notNull = false) → values v → Read d row →
    require (.setColumn d indexes column i row v key) t ∧
      I (Database.handler (.setColumn d indexes column i row v key) t).2

namespace Kept

variable {c : Catalog} {require : DbOp → Database → Prop} {reads writes : Bytes → Prop}
  {values : Value → Prop} {Gone Read : TableDef → Row → Prop} {I : Database → Prop}
  (h : Kept c require reads writes values Gone Read I) {d : TableDef} {s : Session} {t : Database}

include h

theorem lookup (ht : I t) (hd : c.tables.lookup d.name = some d) :
    t.catalog.tables.lookup d.name = some d := by
  rw [h.catalog t ht, hd]

theorem lookup_of_table {name : Bytes} (ht : I t) (hd : t.catalog.tables.lookup name = some d) :
    c.tables.lookup d.name = some d := by
  rw [h.catalog t ht] at hd
  rw [h.name name d hd, hd]

theorem updateColumnInRows (hd : c.tables.lookup d.name = some d) (hwrite : writes d.name)
    {column : Bytes} {v : Value} (hv : values v) {rows : List Row} (ht : I t)
    (hrows : ∀ row ∈ rows, Stored t d row) :
    Proc.wp (Database.checked (fun _ _ => True) require) (updateColumnInRows d column v rows)
      (fun _ _ t' => I t') s t := by
  refine wp_updateColumnInRows h.asks (fun _ _ _ => ht) fun i pk indexes hi hnull hpk hindexes => ?_
  rw [h.catalog t ht] at hindexes
  refine Proc.wp_forEach_keeps (J := fun _ t => I t) ht fun row hrow s t' ht' => ?_
  refine wp_setOne (fun _ _ => ht') fun key hkey _ => ?_
  exact h.set d indexes column i row v key t' ht' (target_of h.name (h.catalog t' ht') hd hindexes)
    hwrite ⟨pk, hpk, hkey⟩ hi hnull hv (h.read d t ht (h.lookup ht hd) row (hrows row hrow)).2

theorem onDelete (hnull : values .null) {delete : TableDef → List Row → Exec Unit}
    {parentTable : Bytes} {pkValue : Value} {fk : ForeignKeyDef}
    (hd : c.tables.lookup d.name = some d)
    (hcover : fk.refTable = parentTable → reads d.name ∧ writes d.name)
    (hdelete : fk.refTable = parentTable → ∀ rows s t, I t → (∀ row ∈ rows, Gone d row) →
      Proc.wp (Database.checked (fun _ _ => True) require) (delete d rows) (fun _ _ t' => I t') s t)
    (ht : I t) :
    Proc.wp (Database.checked (fun _ _ => True) require) (onDelete delete parentTable pkValue d fk)
      (fun _ _ t' => I t') s t := by
  refine wp_onDelete (fun _ => ht) (fun href _ => h.scan d t ht (h.lookup ht hd) (hcover href).1)
    (fun _ _ _ _ => ht) (fun _ _ _ _ => ht) fun href i rows _ _ hrows => ?_
  have hstored : ∀ row ∈ rows, Stored t d row := fun row hrow => ((hrows.mem_iff row).mp hrow).1
  refine ⟨fun _ => ht, fun _ => hdelete href rows s t ht fun row hrow => ?_,
    fun _ => h.updateColumnInRows hd (hcover href).2 hnull ht hstored⟩
  exact (h.read d t ht (h.lookup ht hd) row (hstored row hrow)).1

/-- Deleting one row keeps what deleting those that refer to it keeps. -/
theorem deleteOne (hnull : values .null)
    (hclosed : ∀ child, c.tables.lookup child.name = some child → ∀ fk ∈ child.foreignKeys,
      writes fk.refTable → reads child.name ∧ writes child.name)
    {delete : TableDef → List Row → Exec Unit}
    (hdelete : ∀ child, c.tables.lookup child.name = some child → writes child.name →
      ∀ rows s t, I t → (∀ row ∈ rows, Gone child row) →
      Proc.wp (Database.checked (fun _ _ => True) require) (delete child rows)
        (fun _ _ t' => I t') s t)
    (hd : c.tables.lookup d.name = some d) (hwrite : writes d.name) {pk : Nat}
    (hpk : pkIndex d.columns = some pk) {indexes : List IndexDef}
    (hindexes : c.indexesForTable d.name = .ok indexes) {row : Row} (hrow : Gone d row)
    (ht : I t) :
    Proc.wp (Database.checked (fun _ _ => True) require) (deleteOne delete d pk indexes row)
      (fun _ _ t' => I t') s t := by
  refine wp_deleteOne (wp_forEachKey h.asks (J := fun _ t => I t) (D := fun _ _ _ => True)
    (h.tick t ht) ?_ fun s' t' ht' _ => ⟨fun _ _ => ht', fun key hkey _ => ?_⟩)
  · intro name child hchild fk hfk s t' ht'
    replace hchild := h.lookup_of_table ht hchild
    have hcover : fk.refTable = d.name → reads child.name ∧ writes child.name :=
      fun href => hclosed child hchild fk hfk (href ▸ hwrite)
    refine Proc.wp_mono (h.onDelete hnull hchild hcover
      (fun href => hdelete child hchild (hcover href).2) ht') fun r _ _ hr => ?_
    cases r with
    | ok _ => exact ⟨hr, trivial, fun _ _ _ => trivial⟩
    | error e => exact hr
  · exact h.delete d indexes row key t' ht' (target_of h.name (h.catalog t' ht') hd hindexes)
      hwrite ⟨pk, hpk, hkey⟩ hrow

/-- The tables that are written include those that refer to them. -/
theorem deleteRowsFromTable (hnull : values .null)
    (hclosed : ∀ child, c.tables.lookup child.name = some child → ∀ fk ∈ child.foreignKeys,
      writes fk.refTable → reads child.name ∧ writes child.name)
    (depth : Nat) (hd : c.tables.lookup d.name = some d) (hwrite : writes d.name)
    {rows : List Row} (hrows : ∀ row ∈ rows, Gone d row) (ht : I t) :
    Proc.wp (Database.checked (fun _ _ => True) require) (deleteRowsFromTable depth d rows)
      (fun _ _ t' => I t') s t := by
  induction depth generalizing d rows s t with
  | zero => exact ht
  | succ depth ih =>
    refine wp_deleteRowsFromTable_succ h.asks (fun _ _ _ => ht) fun pk indexes hpk hindexes => ?_
    rw [h.catalog t ht] at hindexes
    exact Proc.wp_forEach_keeps (J := fun _ t => I t) ht fun row hrow s t ht =>
      h.deleteOne hnull hclosed (fun _ hchild hcover _ _ _ ht hrows => ih hchild hcover hrows ht)
        hd hwrite hpk hindexes (hrows row hrow) ht

/-- The new key goes to the tables that refer to the old one. -/
theorem propagateKey {table : Bytes} {pk : Nat} {oldRow newRow : Row} (hnull : values .null)
    (hvalue : values (newRow.getD pk .null))
    (hcover : ∀ child, c.tables.lookup child.name = some child → ∀ fk ∈ child.foreignKeys,
      fk.refTable = table → reads child.name ∧ writes child.name) (ht : I t) :
    Proc.wp (Database.checked (fun _ _ => True) require) (propagateKey d table pk oldRow newRow)
      (fun _ _ t' => I t') s t := by
  rw [Sql.propagateKey]
  split_ifs
  · exact ht
  · refine wp_forEachKey h.asks (J := fun _ t => I t) (D := fun _ _ _ => True) (h.tick t ht) ?_
      fun _ _ h _ => h
    intro name child hchild fk hfk s t' ht'
    replace hchild := h.lookup_of_table ht hchild
    have hround : Proc.wp (Database.checked (fun _ _ => True) require)
        (onUpdate table (oldRow.getD pk .null) (newRow.getD pk .null) child fk)
        (fun _ _ t' => I t') s t' := by
      refine wp_onUpdate (fun _ => ht') (fun href _ => ?_) (fun _ _ _ => ht')
        fun href i rows _ hrows => ?_
      · exact h.scan child t' ht' (h.lookup ht' hchild) (hcover child hchild fk hfk href).1
      · have hset : ∀ v, values v → Proc.wp (Database.checked (fun _ _ => True) require)
            (Sql.updateColumnInRows child fk.columnName v rows) (fun _ _ t' => I t') s t' :=
          fun v hv => h.updateColumnInRows hchild (hcover child hchild fk hfk href).2 hv ht'
            fun row hrow => ((hrows.mem_iff row).mp hrow).1
        exact ⟨fun _ => ht', fun _ => hset _ hvalue, fun _ => hset _ hnull⟩
    refine Proc.wp_mono hround fun r _ _ hr => ?_
    cases r with
    | ok _ => exact ⟨hr, trivial, fun _ _ _ => trivial⟩
    | error e => exact hr

end Kept

/-! ### Rows as long as the table is wide -/

/-- What every step of a fold keeps, the fold keeps. -/
theorem invariant_of_foldlM {α β ε : Type} {f : β → α → Except ε β} {P : β → Prop}
    (hstep : ∀ b a b', P b → f b a = .ok b' → P b') {xs : List α} {b b' : β} (hb : P b)
    (h : xs.foldlM f b = .ok b') : P b' := by
  induction xs generalizing b with
  | nil =>
    cases h
    exact hb
  | cons x xs ih =>
    rw [List.foldlM_cons] at h
    cases hx : f b x with
    | error e =>
      rw [hx] at h
      cases h
    | ok b₁ =>
      rw [hx] at h
      exact ih (hstep b x b₁ hb hx) h

theorem length_of_set {r : Except ExecErr Value} {row row' : Row} {i : Nat}
    (h : (do let value ← r; return row.set i value : Except ExecErr Row) = .ok row') :
    row'.length = row.length := by
  cases r with
  | error e => cases h
  | ok value =>
    cases h
    exact List.length_set

theorem length_of_setNamed {columns : List ColumnDef} {row row' : Row} {item : Bytes × Expr}
    (h : setNamed columns row item = .ok row') : row'.length = row.length := by
  rw [setNamed] at h
  split at h
  · cases h
  · exact length_of_set h

theorem length_of_buildInsertRow {valueExprs : List Expr} {columnNames : List Bytes}
    {d : TableDef} {row : Row} (h : buildInsertRow valueExprs columnNames d = .ok row) :
    row.length = d.columns.length := by
  rw [buildInsertRow] at h
  split_ifs at h with hnames hcount hcount
  · rw [← (forall₂_of_mapM_ok h).length_eq, List.length_zip, not_not.mp hcount, Nat.min_self]
  · refine invariant_of_foldlM (P := fun row => row.length = d.columns.length) ?_
      (List.length_map _) h
    exact fun row item row' hrow hset => (length_of_setNamed hset).trans hrow

theorem length_of_assign {d : TableDef} {table : Bytes} {row row' : Row} {a : Assignment}
    (h : assign d table row a = .ok row') : row'.length = row.length := by
  rw [assign] at h
  split at h
  · cases h
  · exact length_of_set h

theorem length_of_assignments {d : TableDef} {table : Bytes} {row row' : Row}
    {set : List Assignment} (h : set.foldlM (assign d table) row = .ok row') :
    row'.length = row.length :=
  invariant_of_foldlM (P := fun r => r.length = row.length)
    (fun _ _ _ hrow hset => (length_of_assign hset).trans hrow) rfl h

/-! ### Statements -/

/-- The calls of `INSERT`, `UPDATE` and `DELETE` are as `require` wants them,
and keep `I`. -/
structure Upheld (c : Catalog) (require : DbOp → Database → Prop) (reads writes : Bytes → Prop)
    (Read : TableDef → Row → Prop) (I : Database → Prop) : Prop extends
    Kept c require reads writes (fun _ => True) (fun d row => row.length = d.columns.length)
      Read I where
  acquire : ∀ txnID table t, I t → require (.acquire txnID table .lockExclusive) t
  locked : ∀ s table t, I t → I (locked s table .lockExclusive t)
  insert : ∀ d indexes row key t, I t → Target t d indexes → writes d.name → KeyOf d row key →
    row.length = d.columns.length → checkNotNull d.columns row = .ok () →
    require (.insertRow d indexes row key) t ∧
      I (Database.handler (.insertRow d indexes row key) t).2
  update : ∀ d indexes oldRow newRow oldPK newPK t, I t → Target t d indexes → writes d.name →
    KeyOf d oldRow oldPK → KeyOf d newRow newPK → oldRow.length = d.columns.length →
    newRow.length = d.columns.length → checkNotNull d.columns newRow = .ok () →
    require (.updateRow d indexes oldRow newRow oldPK newPK) t ∧
      I (Database.handler (.updateRow d indexes oldRow newRow oldPK newPK) t).2

namespace Upheld

variable {c : Catalog} {require : DbOp → Database → Prop} {reads writes : Bytes → Prop}
  {Read : TableDef → Row → Prop} {I : Database → Prop} (h : Upheld c require reads writes Read I)
  {s : Session} {t : Database}

include h

theorem asking (ht : I t) (table : Bytes) : Asking (fun _ _ => True) require I s table t where
  call _ _ _ := h.acquire _ table t ht
  locked := h.locked s table t ht

/-- The table of a statement, and its indexes. -/
theorem target_of_opened {table : Bytes} {d : TableDef} {pk : Nat} {indexes : List IndexDef}
    (ht : I t) (hopen : Opened t table d pk indexes) {t' : Database} (ht' : I t') :
    d.name = table ∧ Target t' d indexes := by
  obtain ⟨hd, -, hindexes⟩ := hopen
  rw [h.catalog t ht] at hd hindexes
  exact ⟨h.name table d hd, target_of h.name (h.catalog t' ht') hd hindexes⟩

theorem scan_table {table : Bytes} {d : TableDef} (ht : I t)
    (hd : t.catalog.tables.lookup table = some d) (hread : reads table) :
    require (.scan d) t := by
  have hdname := h.name table d (h.catalog t ht ▸ hd)
  subst hdname
  exact h.scan d t ht hd hread

/-- `INSERT` reads the tables its own refers to, and writes its own. -/
theorem executeInsert {statement : InsertStmt} (hwrite : writes statement.table)
    (hparents : ∀ d, c.tables.lookup statement.table = some d →
      ∀ fk ∈ d.foreignKeys, reads fk.refTable) (ht : I t) :
    Proc.wp (Database.checked (fun _ _ => True) require) (executeInsert statement)
      (fun _ _ t' => I t') s t := by
  refine wp_executeInsert h.asks (h.asking ht statement.table) ?_
  intro d pk indexes _ hopen valueExprs _ s' t' ht'
  have hlocked := h.locked s statement.table t ht
  obtain ⟨hdname, htarget⟩ := h.target_of_opened hlocked hopen ht'
  refine wp_insertOne h.asks (fun fk hfk parent hparent _ => ?_) (fun _ => ht')
    fun row key hrow hnull _ hkey _ => ?_
  · exact h.scan_table ht' hparent (hparents d (h.catalog _ hlocked ▸ hopen.lookup) fk hfk)
  · exact h.insert d indexes row key t' ht' htarget (hdname ▸ hwrite) ⟨pk, hopen.key, hkey⟩
      (length_of_buildInsertRow hrow) hnull

/-- `UPDATE` reads its own table and those its own refers to, reads and
writes those that refer to its own, and writes its own. -/
theorem executeUpdate {statement : UpdateStmt} (hread : reads statement.table)
    (hwrite : writes statement.table)
    (hparents : ∀ d, c.tables.lookup statement.table = some d →
      ∀ fk ∈ d.foreignKeys, reads fk.refTable)
    (hchildren : ∀ child, c.tables.lookup child.name = some child → ∀ fk ∈ child.foreignKeys,
      fk.refTable = statement.table → reads child.name ∧ writes child.name) (ht : I t) :
    Proc.wp (Database.checked (fun _ _ => True) require) (executeUpdate statement)
      (fun _ _ t' => I t') s t := by
  have hlocked := h.locked s statement.table t ht
  refine wp_executeUpdate h.asks (h.asking ht statement.table)
    (fun d _ hd _ => h.scan_table hlocked hd hread) ?_
  intro d pk indexes _ hopen oldRow hstored s' t' ht'
  refine wp_updateOne h.asks (fun fk hfk parent hparent _ => ?_) (fun _ => ht')
    fun newRow oldPK newPK hnew hnull hold hnewPK _ => ?_
  · exact h.scan_table ht' hparent (hparents d (h.catalog _ hlocked ▸ hopen.lookup) fk hfk)
  · refine Proc.wp_mono (h.propagateKey trivial trivial hchildren ht') fun r _ t'' ht'' => ?_
    cases r with
    | error e => exact ht''
    | ok _ =>
      intro _
      obtain ⟨hdname, htarget⟩ := h.target_of_opened hlocked hopen ht''
      have hlength := length_of_stored hstored
      exact h.update d indexes oldRow newRow oldPK newPK t'' ht'' htarget (hdname ▸ hwrite)
        ⟨pk, hopen.key, hold⟩ ⟨pk, hopen.key, hnewPK⟩ hlength
        ((length_of_assignments hnew).trans hlength) hnull

/-- `DELETE` reads and writes its own table and those that refer to what it
writes. -/
theorem executeDelete {statement : DeleteStmt} (hread : reads statement.table)
    (hwrite : writes statement.table)
    (hclosed : ∀ child, c.tables.lookup child.name = some child → ∀ fk ∈ child.foreignKeys,
      writes fk.refTable → reads child.name ∧ writes child.name) (depth : Nat) (ht : I t) :
    Proc.wp (Database.checked (fun _ _ => True) require) (executeDelete depth statement)
      (fun _ _ t' => I t') s t := by
  have hlocked := h.locked s statement.table t ht
  refine wp_executeDelete h.asks rfl (fun _ _ _ => h.acquire _ _ t ht) (fun _ => hlocked)
    (fun _ _ => hlocked) fun d _ hd => ?_
  refine ⟨fun _ => h.scan_table hlocked hd hread, fun _ _ _ => hlocked, fun rows hscanned => ?_⟩
  have hdname := h.name _ d (h.catalog _ hlocked ▸ hd)
  exact h.deleteRowsFromTable trivial hclosed depth (h.lookup_of_table hlocked hd)
    (hdname ▸ hwrite) (fun row hrow => length_of_stored ((hscanned.mem_iff row).mp hrow).1) hlocked

end Upheld

end MySQLight.Sql
