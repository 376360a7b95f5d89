import MySQLight.Executor.Failures
import MySQLight.Executor.Indexes

/-!
Columns that an `INSERT` leaves out.

`buildInsertRow` starts from the defaults of the definition, and the catalog
writes and reads them with it. But `astToTableDef` copies the name, the type
and the constraints of a column and not its `DEFAULT`, so no definition that
a statement makes has one: a column that is left out is NULL.
-/

namespace MySQLight.Sql

open MySQLight.Data MySQLight.Schema MySQLight.Effect MySQLight.Storage

/-! ### The rows of an `INSERT` -/

section Inserted

variable {d : TableDef} {indexes : List IndexDef} {row : Row} {key : Bytes}

/-- A row that was inserted is in the table's tree. -/
theorem lookup_of_insertRow {trees : Trees}
    (hok : ((insertRow d indexes row key).run trees).1 = .ok ()) :
    (((insertRow d indexes row key).run trees).2 d.rootPageID).lookup key =
      some (encodeRow row d.columns) ∧ BTree.entrySize key
        (encodeRow row d.columns) ≤ entryCap := by
  by_cases htakes : Takes (trees d.rootPageID) key (encodeRow row d.columns)
  · obtain ⟨tree, hrun, htree⟩ := run_treeInsert htakes .insertingRow
    refine ⟨?_, htakes.1⟩
    rw [insertRow, Fallible.run_bind_of_ok hrun]
    -- The indexes are written after the row, and no entry is lost.
    refine Fallible.Keeps.forEach (R := EntriesStay) (fun x => ?_) indexes _ d.rootPageID key _ ?_
    · split
      · exact .pure _
      · exact .bind (keeps_keyOr _ _) fun _ => entriesStay_treeInsert _ _ _ _
    · rw [Function.update_self, htree, Function.update_self]
  · obtain ⟨e, hrun⟩ := run_treeInsert_of_not_takes htakes .insertingRow
    rw [insertRow, Fallible.run_bind_of_error hrun] at hok
    cases hok

/-- The row that the values of an `INSERT` make is stored under its key. -/
def Inserted (d : TableDef) (columnNames : List Bytes) (valueExprs : List Expr) (t : Database) :
    Prop :=
  ∃ row key, buildInsertRow valueExprs columnNames d = .ok row ∧ KeyOf d row key ∧
    StoredAt t d key (canonRow row d.columns)

/-- An `INSERT` that succeeds stores all its rows. -/
theorem inserted_of_executeInsert {statement : InsertStmt} {s s' : Session} {db db' : Database}
    (hd : db.catalog.tables.lookup statement.table = some d)
    (hrun : Proc.run Database.handler (executeInsert statement) s db = ((.ok (), s'), db')) :
    ∀ valueExprs ∈ statement.values, Inserted d statement.columns valueExprs db' := by
  obtain ⟨e, hfail⟩ | ⟨d', pk, indexes, hopened, hloop⟩ :=
    run_executeInsert statement.table statement.columns s db
  · cases (hfail statement.values).symm.trans hrun
  have hsame := hopened.lookup
  rw [catalog_locked, hd] at hsame
  cases hsame
  refine Proc.run_of_wp (Q := fun r _ t' => r = .ok () → ∀ valueExprs ∈ statement.values,
    Inserted d statement.columns valueExprs t') ?_ ((hloop statement.values).symm.trans hrun) rfl
  refine Proc.wp_forEach_done (J := fun done _ t => ∀ valueExprs ∈ done,
    Inserted d statement.columns valueExprs t) nofun (fun done valueExprs rest _ s t hdone => ?_)
    fun _ _ h _ => h
  have hstep : Proc.wp Database.any (insertOne d statement.columns pk indexes valueExprs)
      (fun r _ t' => r = .ok () → ∀ valueExprs' ∈ done ++ [valueExprs],
        Inserted d statement.columns valueExprs' t') s t := by
    refine wp_insertOne asks_any (fun _ _ _ _ _ => trivial) (fun _ => nofun)
      fun row key hrow _ _ hkey _ => ⟨trivial, fun hok valueExprs' hmem => ?_⟩
    obtain ⟨hlookup, hfits⟩ := lookup_of_insertRow hok
    obtain hmem | hmem := List.mem_append.mp hmem
    · obtain ⟨row', key', hrow', hkey', value, hvalue, hdecode⟩ := hdone valueExprs' hmem
      have hstay : EntriesStay t.trees ((insertRow d indexes row key).run t.trees).2 :=
        keeps_insertRow (entriesStay_treeInsert _ _ _ _)
          (fun _ _ _ _ _ => entriesStay_treeInsert _ _ _ _) t.trees
      exact ⟨row', key', hrow', hkey', value, hstay _ _ _ hvalue, hdecode⟩
    · obtain rfl := List.mem_singleton.mp hmem
      exact ⟨row, key, hrow, ⟨pk, hopened.key, hkey⟩, _, hlookup,
        decodeRow_of_fits (length_of_buildInsertRow hrow) hfits⟩
  refine Proc.wp_mono hstep fun r _ t' h => ?_
  cases r with
  | error e => exact nofun
  | ok _ => exact h rfl

end Inserted

/-! ### Columns that are left out -/

/-- The definition that `CREATE TABLE` makes, or the one that is read back
when the catalog is opened again. -/
def Defines (create : CreateTableStmt) (d : TableDef) : Prop :=
  ∃ d₀ made : TableDef, astToTableDef create = .ok d₀ ∧ made.columns = d₀.columns ∧
    (d = made ∨ (encodeTableDef made).length ≤ entryCap ∧
      decodeTableDef (encodeTableDef made) = .ok d)

/-- The value that `CREATE TABLE` declares for a column that is left out. -/
def declaredDefault (c : ColumnDefAST) : Except ExecErr Value :=
  match c.default with
  | none => .ok .null
  | some expr => do (evalExprToValue expr (← parseDataType c.typeName)).mapError .store

theorem columns_of_defines {create : CreateTableStmt} {d : TableDef} (h : Defines create d) :
    ∃ d₀, astToTableDef create = .ok d₀ ∧ d.columns = d₀.columns := by
  obtain ⟨d₀, made, hd₀, hcolumns, rfl | ⟨hlen, hread⟩⟩ := h
  · exact ⟨d₀, hd₀, hcolumns⟩
  · have hencodable : made.Encodable := by
      refine TableDef.encodable_of_length (fun c hc v hv => ?_) (by
        have hcap : entryCap = 1362 := rfl
        omega)
      rw [hcolumns] at hc
      rw [default_of_astToTableDef hd₀ hc] at hv
      cases hv
    rw [hencodable.decode_encode] at hread
    cases hread
    exact ⟨d₀, hd₀, hcolumns⟩

/-- A column that is not named keeps the value the row starts with. -/
theorem getD_of_foldlM_setNamed {columns : List ColumnDef} {items : List (Bytes × Expr)}
    {row row' : Row} {j : Nat} {c : ColumnDef} (hc : columns[j]? = some c)
    (hout : ∀ item ∈ items, item.1 ≠ c.name)
    (h : items.foldlM (setNamed columns) row = .ok row') :
    row'.getD j .null = row.getD j .null := by
  induction items generalizing row with
  | nil =>
    cases h
    rfl
  | cons item items ih =>
    obtain ⟨hne, hout⟩ := List.forall_mem_cons.mp hout
    rw [List.foldlM_cons] at h
    obtain ⟨row₁, hset, h⟩ := exists_of_bind_ok h
    rw [ih hout h]
    rw [setNamed] at hset
    cases hcol : colIndex columns item.1 with
    | none =>
      rw [hcol] at hset
      cases hset
    | some i =>
      rw [hcol] at hset
      obtain ⟨v, -, hset⟩ := exists_of_bind_ok hset
      cases hset
      have hij : i ≠ j := by
        rintro rfl
        obtain ⟨hi, hname, -⟩ := List.findIdx?_eq_some_iff_getElem.mp hcol
        rw [List.getElem?_eq_getElem hi] at hc
        cases hc
        exact hne (of_decide_eq_true hname).symm
      rw [List.getD_eq_getElem?_getD, List.getElem?_set_ne hij, ← List.getD_eq_getElem?_getD]

/-- After an `INSERT` that names its columns, every row is stored, and in it
a column that is not named holds its declared default exactly if that is
NULL. -/
theorem omitted_columns {create : CreateTableStmt} {d : TableDef} (hdefines : Defines create d)
    {statement : InsertStmt} (hnames : statement.columns ≠ []) {s s' : Session} {db db' : Database}
    (hd : db.catalog.tables.lookup statement.table = some d)
    (hrun : Proc.run Database.handler (executeInsert statement) s db = ((.ok (), s'), db')) :
    ∀ valueExprs ∈ statement.values, ∃ row key,
      buildInsertRow valueExprs statement.columns d = .ok row ∧ KeyOf d row key ∧
      StoredAt db' d key (canonRow row d.columns) ∧
      ∀ j c v, create.columns[j]? = some c → c.name ∉ statement.columns →
        declaredDefault c = .ok v →
        ((canonRow row d.columns).getD j .null = v ↔ v = .null) := by
  intro valueExprs hvalues
  obtain ⟨row, key, hrow, hkey, hstored⟩ := inserted_of_executeInsert hd hrun valueExprs hvalues
  refine ⟨row, key, hrow, hkey, hstored, fun j ast v hast hout _ => ?_⟩
  obtain ⟨d₀, hd₀, hcolumns⟩ := columns_of_defines hdefines
  have hcreated := hcolumns ▸ columns_of_astToTableDef hd₀
  obtain ⟨hj, rfl⟩ := List.getElem?_eq_some_iff.mp hast
  have hj' : j < d.columns.length := hcreated.length_eq ▸ hj
  obtain ⟨hname, hdefault⟩ := hcreated.get hj hj'
  have hc := List.getElem?_eq_getElem hj'
  have hnull : row.getD j .null = .null := by
    rw [buildInsertRow, if_neg hnames] at hrow
    split_ifs at hrow
    rw [getD_of_foldlM_setNamed hc (fun item hitem => ?_) hrow, List.getD_eq_getElem?_getD,
      List.getElem?_map, hc]
    · exact congrArg (·.getD .null) hdefault
    · rintro heq
      exact hout (heq.trans hname ▸ (List.of_mem_zip hitem).1)
  rw [getElem?_canonRow (length_of_buildInsertRow hrow) hc, hnull, eq_comm]
  rfl

/-- `CREATE TABLE t (id INT PRIMARY KEY, a INT)`, with a default for `a`. -/
def tableWith (default : Option Expr) : CreateTableStmt :=
  { table := ascii "t", columns := [idColumn, { intColumn "a" with default }] }

/-- `INSERT INTO t (id) VALUES (1)`. -/
def insertKey : InsertStmt :=
  { table := ascii "t", columns := [ascii "id"], values := [[integer "1"]] }

theorem omitted_columns_five :
    ∃ s' db', Proc.run Database.handler (executeInsert insertKey) {}
        ((World.new plainEnv).step 1 (.createTableStmt (tableWith (some (integer "5"))))).db =
        ((.ok (), s'), db') ∧
      ∃ row key, StoredAt db' tableT key (canonRow row tableT.columns) ∧
        ((canonRow row tableT.columns).getD 1 .null = { intVal := 5 } ↔
          ({ intVal := 5 } : Value) = .null) := by
  have hok : (Proc.run Database.handler (executeInsert insertKey) {}
      ((World.new plainEnv).step 1
        (.createTableStmt (tableWith (some (integer "5"))))).db).1.1 = .ok () := by
    decide +kernel
  have hrun := Prod.ext (Prod.ext hok rfl) rfl
  have hdefines : Defines (tableWith (some (integer "5"))) tableT :=
    ⟨{ tableT with rootPageID := 0 }, tableT, by decide +kernel, rfl, .inl rfl⟩
  obtain ⟨row, key, -, -, hstored, hrow⟩ :=
    omitted_columns hdefines (by decide) (by decide +kernel) hrun _ List.mem_cons_self
  exact ⟨_, _, hrun, row, key, hstored, hrow 1 _ _ rfl (by decide +kernel) (by decide +kernel)⟩

/-- The declared default is lost, and NULL is stored. -/
theorem default_is_dropped :
    declaredDefault { intColumn "a" with default := some (integer "5") } =
        .ok { intVal := 5 } ∧
      (((World.new plainEnv).step 1 (.createTableStmt (tableWith (some (integer "5"))))).step 1
        (.insertStmt insertKey)).outcome 1
          (.selectStmt { columns := [.starExpr], «from» := ascii "t" }) =
        .ok [[{ intVal := 1 }, .null]] := by
  decide +kernel

end MySQLight.Sql
