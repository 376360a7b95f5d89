import MySQLight.Executor.RowKeys

/-!
Every stored value is a whole row.

Rows are written by `INSERT`, by `UPDATE` and by the foreign-key actions. The
first two check `NOT NULL` on the whole row before they write it. The actions
check it only for the column that they set; the others come from a row that
was read before, and so from the invariant itself.
-/

namespace MySQLight.Sql

open MySQLight.Data MySQLight.Schema MySQLight.Effect MySQLight.Storage MySQLight.Txn

/-- There is no NULL in a column that is `NOT NULL`. -/
def NotNull (columns : List ColumnDef) (row : Row) : Prop :=
  ∀ i c, columns[i]? = some c → c.notNull = true → (row.getD i .null).isNull = false

/-- The bytes are a row of the columns and nothing else. -/
structure WholeRow (columns : List ColumnDef) (value : Bytes) (row : Row) : Prop where
  decoded : decodeRow value columns = .ok row
  consumed : (decodeFields (value.take (bitmapSize columns)) 0 columns).run
    (value.drop (bitmapSize columns)) = .ok (row, [])
  length : row.length = columns.length
  notNull : NotNull columns row

section Rows

variable {columns : List ColumnDef} {row : Row}

theorem notNull_of_checkNotNull (hlen : row.length = columns.length)
    (h : checkNotNull columns row = .ok ()) : NotNull columns row := by
  intro i c hc hnotNull
  have hi : i < row.length := hlen ▸ (List.getElem?_eq_some_iff.mp hc).1
  have hmem : (c, row[i]) ∈ columns.zip row := by
    refine List.mem_of_getElem? (i := i) ?_
    rw [List.getElem?_zip_eq_some]
    exact ⟨hc, List.getElem?_eq_getElem hi⟩
  rw [checkNotNull] at h
  cases hfind : (columns.zip row).find? fun p => p.1.notNull && p.2.isNull with
  | some p =>
    rw [hfind] at h
    cases h
  | none =>
    have hnone := List.find?_eq_none.mp hfind _ hmem
    rw [Bool.and_eq_true, not_and, Bool.not_eq_true] at hnone
    rw [List.getD_eq_getElem?_getD, List.getElem?_eq_getElem hi]
    exact hnone hnotNull

theorem NotNull.canonRow (hlen : row.length = columns.length) (h : NotNull columns row) :
    NotNull columns (canonRow row columns) := by
  intro i c hc hnotNull
  rw [getElem?_canonRow hlen hc, Value.isNull_canon]
  exact h i c hc hnotNull

/-- The check that the actions make. -/
theorem NotNull.set (h : NotNull columns row) {i : Nat} {v : Value}
    (hv : v.isNull = true → ∀ c, columns[i]? = some c → c.notNull = false) :
    NotNull columns (row.set i v) := by
  intro j c hc hnotNull
  rw [List.getD_eq_getElem?_getD, List.getElem?_set]
  split_ifs with hij hi
  · subst hij
    refine Bool.eq_false_iff.mpr fun hnull => ?_
    rw [hv hnull c hc] at hnotNull
    cases hnotNull
  · have hnone := h j c hc hnotNull
    rwa [List.getD_eq_getElem?_getD, List.getElem?_eq_none (by omega)] at hnone
  · rw [← List.getD_eq_getElem?_getD]
    exact h j c hc hnotNull

/-- A row that fits into an entry. -/
theorem wholeRow_encodeRow (hlen : row.length = columns.length) (hnull : NotNull columns row)
    {key : Bytes} (hfits : BTree.entrySize key (encodeRow row columns) ≤ entryCap) :
    WholeRow columns (encodeRow row columns) (canonRow row columns) where
  decoded := decodeRow_of_fits hlen hfits
  consumed := by
    have hrun := reads_encodeFields (storable_of_fits hlen hfits) []
    have hsize := length_markNulls_replicate columns row
    rw [List.append_nil] at hrun
    rw [encodeRow, List.take_left' hsize, List.drop_left' hsize]
    exact hrun
  length := length_of_decodeRow (decodeRow_of_fits hlen hfits)
  notNull := hnull.canonRow hlen

end Rows

/-! ### Statements -/

/-- All that is stored in tables. -/
def RowsWhole (db : Database) : Prop :=
  Entries (fun d _ value => ∃ row, WholeRow d.columns value row) db.catalog db.trees

theorem notNull_of_stored {db : Database} (h : RowsWhole db) {d : TableDef}
    (hd : db.catalog.tables.lookup d.name = some d) {row : Row} (hrow : Stored db d row) :
    NotNull d.columns row := by
  obtain ⟨key, value, hlookup, hdecode⟩ := hrow
  obtain ⟨row', hwhole⟩ := h d.name d hd key value hlookup
  cases hdecode.symm.trans hwhole.decoded
  exact hwhole.notNull

theorem rowsWhole_locked {s : Session} {table : Bytes} {mode : LockMode} {db : Database}
    (h : RowsWhole db) : RowsWhole (locked s table mode db) := by
  rw [RowsWhole, catalog_locked, trees_locked]
  exact h

theorem rooted_locked {s : Session} {table : Bytes} {mode : LockMode} {db : Database}
    (h : Rooted db) : Rooted (locked s table mode db) := by
  rw [locked]
  split
  · exact h
  · exact h.handler _

theorem upheld_rowsWhole {db : Database} (hrooted : Rooted db) :
    Upheld db.catalog (fun _ _ => True) (fun _ => True) (fun _ => True)
      (fun d row => row.length = d.columns.length ∧ NotNull d.columns row)
      (fun t => t.catalog = db.catalog ∧ Rooted t ∧ RowsWhole t) where
  asks := asks_any
  name := hrooted.table_name
  catalog _ h := h.1
  tick _ h := ⟨h.1, h.2.1.handler .listTables, h.2.2⟩
  scan _ _ _ _ _ := trivial
  read _ _ h hd _ hrow :=
    ⟨length_of_stored hrow, length_of_stored hrow, notNull_of_stored h.2.2 hd hrow⟩
  delete d indexes row key _ h _ _ _ _ :=
    ⟨trivial, h.1, h.2.1.handler _, entries_deleteRow h.2.2 d indexes row key⟩
  set _ _ _ _ _ _ _ _ h htarget _ _ _ hv _ hread :=
    ⟨trivial, h.1, h.2.1.handler _, entries_setColumn h.2.1 h.2.2 htarget fun hfits =>
      ⟨_, wholeRow_encodeRow (List.length_set.trans hread.1) (hread.2.set hv) hfits⟩⟩
  acquire _ _ _ _ := trivial
  locked s table t h := ⟨(catalog_locked s table _ t).trans h.1, rooted_locked h.2.1,
    rowsWhole_locked h.2.2⟩
  insert _ _ _ _ _ h htarget _ _ hlen hnull :=
    ⟨trivial, h.1, h.2.1.handler _, entries_insertRow h.2.1 h.2.2 htarget fun hfits =>
      ⟨_, wholeRow_encodeRow hlen (notNull_of_checkNotNull hlen hnull) hfits⟩⟩
  update _ _ _ _ _ _ _ h htarget _ _ _ _ hlen hnull :=
    ⟨trivial, h.1, h.2.1.handler _, entries_updateRow h.2.1 h.2.2 htarget fun hfits =>
      ⟨_, wholeRow_encodeRow hlen (notNull_of_checkNotNull hlen hnull) hfits⟩⟩

/-- One statement. -/
theorem rowsWhole_step (depth : Nat) {w : World} (hrooted : Rooted w.db) (h : RowsWhole w.db)
    {stmt : Statement} (hchanges : stmt.changes = true) : RowsWhole (w.step depth stmt).db := by
  have hupheld := upheld_rowsWhole hrooted
  -- What a procedure leaves behind, the statement leaves behind.
  have hrun : ∀ x : Exec Unit, Proc.wp Database.any x
      (fun _ _ t => t.catalog = w.db.catalog ∧ Rooted t ∧ RowsWhole t) w.session w.db →
      RowsWhole (Prog.run Database.handler
        ((x >>= fun _ => pure ([] : List Row)) w.session) w.db).2 := by
    intro x hx
    have hall : Proc.wp Database.any (x >>= fun _ => pure ([] : List Row))
        (fun _ _ t => RowsWhole t) w.session w.db :=
      Proc.wp_bind hx (fun _ _ _ h => h.2.2) fun _ _ _ h => h.2.2
    exact (Prog.along_of_wp hall (Prog.along_true _ _ _)).2
  rw [World.step]
  split_ifs
  · exact h
  · cases stmt with
    | createTableStmt stmt =>
      rw [execute]
      cases hd : astToTableDef stmt with
      | error e => exact h
      | ok d =>
        show RowsWhole (Prog.run _ (ddl (Database.handler (.createTable d) w.db).1 w.session)
          (w.db.createTable d).2).2
        cases (Database.handler (.createTable d) w.db).1 <;>
          exact entries_createTable hrooted h d
    | createIndexStmt stmt =>
      show RowsWhole (Prog.run _ (ddl (Database.handler (.createIndex _) w.db).1 w.session)
        (w.db.createIndex _).2).2
      cases (Database.handler (.createIndex _) w.db).1 <;> exact entries_createIndex hrooted h _
    | insertStmt stmt =>
      exact hrun _ (hupheld.executeInsert trivial (fun _ _ _ _ => trivial) ⟨rfl, hrooted, h⟩)
    | updateStmt stmt =>
      exact hrun _ (hupheld.executeUpdate trivial trivial (fun _ _ _ _ => trivial)
        (fun _ _ _ _ _ => ⟨trivial, trivial⟩) ⟨rfl, hrooted, h⟩)
    | deleteStmt stmt =>
      exact hrun _ (hupheld.executeDelete trivial trivial
        (fun _ _ _ _ _ => ⟨trivial, trivial⟩) depth ⟨rfl, hrooted, h⟩)
    | _ => cases hchanges

/-- After every run of statements, and whatever they return, every value that
a table stores is exactly a row of it, with no NULL where none may be. -/
theorem stored_values_whole {env : Env} {depth : Nat} {stmts : List Statement}
    (hchanges : ∀ stmt ∈ stmts, stmt.changes = true) {name : Bytes} {d : TableDef}
    (hd : (stmts.foldl (World.step depth) (World.new env)).db.catalog.tables.lookup name = some d)
    {key value : Bytes}
    (hvalue : ((stmts.foldl (World.step depth) (World.new env)).db.trees d.rootPageID).lookup key =
      some value) :
    ∃ row, WholeRow d.columns value row := by
  have hstep : ∀ (w : World) (stmt : Statement), Rooted w.db ∧ RowsWhole w.db →
      stmt.changes = true → Rooted (w.step depth stmt).db ∧ RowsWhole (w.step depth stmt).db :=
    fun w stmt hw hstmt => ⟨w.rooted_step depth hw.1 stmt, rowsWhole_step depth hw.1 hw.2 hstmt⟩
  have hall : Effect.Along (World.step depth) (fun _ stmt => stmt.changes = true) stmts
      (World.new env) := Effect.Along.of_forall (fun stmt hmem _ => hchanges stmt hmem) _
  have hnew : RowsWhole (World.new env).db := nofun
  have hrun := Effect.Along.invariant (J := fun w => Rooted w.db ∧ RowsWhole w.db) hstep
    ⟨Rooted.new env, hnew⟩ hall
  exact hrun.2 name d hd key value hvalue

/-- The child's row after the action has set its foreign key. -/
theorem stored_values_whole_cascade :
    ∃ d row, (cascadeBesideKey.foldl (World.step 1) (World.new plainEnv)).db.catalog.tables.lookup
      (ascii "c") = some d ∧ WholeRow d.columns (0 :: be 8 7 ++ be 8 2) row := by
  have hroot : ((cascadeBesideKey.foldl (World.step 1)
      (World.new plainEnv)).db.catalog.tables.lookup (ascii "c")).map TableDef.rootPageID =
      some 2 := by decide +kernel
  have hentry : ((cascadeBesideKey.foldl (World.step 1) (World.new plainEnv)).db.trees 2).lookup
      (be 8 7) = some (0 :: be 8 7 ++ be 8 2) := by decide +kernel
  obtain ⟨d, hd, hpage⟩ := Option.map_eq_some_iff.mp hroot
  obtain ⟨row, hrow⟩ := stored_values_whole (by decide) hd (hpage ▸ hentry)
  exact ⟨d, row, hd, hrow⟩

end MySQLight.Sql
