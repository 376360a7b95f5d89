import MySQLight.Executor.RowWrites

/-!
What a statement that fails leaves behind.

`INSERT` and `UPDATE` go through their rows one by one, and nothing is
undone when a row fails: the rows before it stay as they are, and those
after it are not reached. Each row is checked before anything is written
for it, so a row that fails a check leaves no trace itself.
-/

namespace MySQLight.Sql

open MySQLight.Data MySQLight.Schema MySQLight.Effect MySQLight.Storage MySQLight.Txn

/-- The row of an `INSERT` passes the checks that are made before it is
written. -/
structure InsertChecks (t : Database) (d : TableDef) (columnNames : List Bytes) (pk : Nat)
    (valueExprs : List Expr) (row : Row) (key : Bytes) : Prop where
  built : buildInsertRow valueExprs columnNames d = .ok row
  notNull : checkNotNull d.columns row = .ok ()
  parents : ∀ fk ∈ d.foreignKeys, HasParent t d row fk
  key : columnKey d.columns pk (row.getD pk .null) = .ok key

/-- The row of an `UPDATE` passes the checks that are made before anything
is written for it. -/
structure UpdateChecks (t : Database) (statement : UpdateStmt) (d : TableDef) (pk : Nat)
    (oldRow newRow : Row) (oldPK newPK : Bytes) : Prop where
  built : statement.set.foldlM (assign d statement.table) oldRow = .ok newRow
  notNull : checkNotNull d.columns newRow = .ok ()
  parents : ∀ fk ∈ d.foreignKeys, HasParent t d newRow fk
  oldKey : columnKey d.columns pk (oldRow.getD pk .null) = .ok oldPK
  newKey : columnKey d.columns pk (newRow.getD pk .null) = .ok newPK

section Rows

variable {s s' : Session} {t t' : Database} {d : TableDef} {pk : Nat} {indexes : List IndexDef}
  {e : ExecErr}

/-- A row that is not inserted leaves no trace, unless the table took it and
an index did not. -/
theorem trees_of_insertOne_error {columnNames : List Bytes} {valueExprs : List Expr}
    (hrun : Proc.run Database.handler (insertOne d columnNames pk indexes valueExprs) s t =
      ((.error e, s'), t')) :
    t'.trees = t.trees ∨ ∃ row key, InsertChecks t d columnNames pk valueExprs row key ∧
      Takes (t.trees d.rootPageID) key (encodeRow row d.columns) := by
  refine Proc.run_of_wp (Q := fun r _ t' => r = .error e → t'.trees = t.trees ∨
    ∃ row key, InsertChecks t d columnNames pk valueExprs row key ∧
      Takes (t.trees d.rootPageID) key (encodeRow row d.columns)) ?_ hrun rfl
  refine wp_insertOne asks_any (fun _ _ _ _ _ => trivial) (fun _ _ => .inl rfl)
    fun row key hrow hnull hparents hkey _ => ⟨trivial, fun _ => ?_⟩
  by_cases htakes : Takes (t.trees d.rootPageID) key (encodeRow row d.columns)
  · exact .inr ⟨row, key, ⟨hrow, hnull, hparents, hkey⟩, htakes⟩
  · obtain ⟨e', hinsert⟩ := run_treeInsert_of_not_takes htakes .insertingRow
    left
    show ((insertRow d indexes row key).run t.trees).2 = t.trees
    rw [insertRow, Fallible.run_bind_of_error hinsert]

/-- A row that is not updated leaves no trace, unless it passes the checks
and its key changes or the row itself is there. -/
theorem trees_of_updateOne_error {statement : UpdateStmt} {oldRow : Row}
    (hrun : Proc.run Database.handler (updateOne statement d pk indexes oldRow) s t =
      ((.error e, s'), t')) :
    t'.trees = t.trees ∨ ∃ newRow oldPK newPK,
      UpdateChecks t statement d pk oldRow newRow oldPK newPK ∧
      ((d.columns[pk]?).any (fun c =>
          valuesEqual (oldRow.getD pk .null) (newRow.getD pk .null) c.type) = true →
        ((t.trees d.rootPageID).lookup oldPK).isSome) := by
  refine Proc.run_of_wp (Q := fun r _ t' => r = .error e → t'.trees = t.trees ∨
    ∃ newRow oldPK newPK, UpdateChecks t statement d pk oldRow newRow oldPK newPK ∧
      ((d.columns[pk]?).any (fun c =>
          valuesEqual (oldRow.getD pk .null) (newRow.getD pk .null) c.type) = true →
        ((t.trees d.rootPageID).lookup oldPK).isSome)) ?_ hrun rfl
  refine wp_updateOne asks_any (fun _ _ _ _ _ => trivial) (fun _ _ => .inl rfl)
    fun newRow oldPK newPK hnew hnull hold hnewPK hparents => ?_
  have hchecks : UpdateChecks t statement d pk oldRow newRow oldPK newPK :=
    ⟨hnew, hnull, hparents, hold, hnewPK⟩
  rw [propagateKey]
  split_ifs with hsame
  · -- Only the row itself is written.
    refine fun _ => ⟨trivial, fun _ => ?_⟩
    cases hthere : (t.trees d.rootPageID).lookup oldPK with
    | some value => exact .inr ⟨newRow, oldPK, newPK, hchecks, fun _ => by rw [hthere]; rfl⟩
    | none =>
      obtain ⟨e', hdelete⟩ := run_treeDelete_of_absent hthere .deletingOldRow
      left
      show ((updateRow d indexes oldRow newRow oldPK newPK).run t.trees).2 = t.trees
      rw [updateRow, Fallible.run_bind_of_error hdelete]
  · refine Proc.wp_mono (Q := fun _ _ _ => True) (Prog.wp_of_run trivial) fun r _ t' _ => ?_
    cases r with
    | error e' => exact fun _ => .inr ⟨newRow, oldPK, newPK, hchecks, fun h => absurd h hsame⟩
    | ok _ =>
      exact fun _ => ⟨trivial, fun _ => .inr ⟨newRow, oldPK, newPK, hchecks,
        fun h => absurd h hsame⟩⟩

end Rows

/-! ### Statements -/

/-- The lock is granted, or the call does not return. -/
theorem run_acquire (table : Bytes) (mode : LockMode) (s : Session) (db : Database) :
    ∃ r, Proc.run Database.handler (acquire table mode) s db =
      ((r, s), locked s table mode db) := by
  obtain ⟨_ | txnID⟩ := s
  · exact ⟨.ok (), rfl⟩
  · refine ⟨if (Database.handler (.acquire txnID table mode) db).1 = true then .ok ()
      else .error .blocked, ?_⟩
    show Prog.run Database.handler
      ((if (Database.handler (.acquire txnID table mode) db).1 = true then pure ()
        else throw ExecErr.blocked : Exec Unit) _) _ = _
    split_ifs <;> rfl

section Openings

variable (s : Session) (t : Database)

theorem run_getTable (name : Bytes) (wrap : CatalogErr → ExecErr) :
    Proc.run Database.handler (getTable name wrap) s t =
      (((t.catalog.getTable name).mapError wrap, s), t) := rfl

theorem run_primaryKey (columns : List ColumnDef) (table : Bytes) :
    Proc.run Database.handler (primaryKey columns table) s t =
      (((pkIndex columns).elim (.error (.noPrimaryKey table)) .ok, s), t) := rfl

theorem run_indexesForTable (name : Bytes) :
    Proc.run Database.handler (indexesForTable name) s t =
      (((t.catalog.indexesForTable name).mapError .catalog, s), t) := rfl

theorem run_matchingRows (d : TableDef) (condition : Option Expr) :
    ∃ r, Proc.run Database.handler (matchingRows d condition) s t = ((r, s), t) := ⟨_, rfl⟩

end Openings

theorem opened_of {t : Database} {table : Bytes} {d : TableDef} {pk : Nat}
    {indexes : List IndexDef} {wrap : CatalogErr → ExecErr} {e : ExecErr}
    (hd : (t.catalog.getTable table).mapError wrap = .ok d)
    (hpk : (pkIndex d.columns).elim (Except.error e) Except.ok = .ok pk)
    (hindexes : (t.catalog.indexesForTable table).mapError ExecErr.catalog = .ok indexes) :
    Opened t table d pk indexes := by
  refine ⟨Catalog.getTable_eq_ok.mp (mapError_eq_ok.mp hd), ?_, mapError_eq_ok.mp hindexes⟩
  cases hindex : pkIndex d.columns with
  | none =>
    rw [hindex] at hpk
    cases hpk
  | some i =>
    rw [hindex] at hpk
    cases hpk
    rfl

/-- `INSERT` does not get to its rows, whatever they are, or it goes through
them. -/
theorem run_executeInsert (table : Bytes) (columns : List Bytes) (s : Session) (db : Database) :
    (∃ e, ∀ values, Proc.run Database.handler (executeInsert ⟨table, columns, values⟩) s db =
      ((.error e, s), locked s table .lockExclusive db)) ∨
      ∃ d pk indexes, Opened (locked s table .lockExclusive db) table d pk indexes ∧ ∀ values,
        Proc.run Database.handler (executeInsert ⟨table, columns, values⟩) s db =
          Proc.run Database.handler (Proc.forEach (insertOne d columns pk indexes) values) s
            (locked s table .lockExclusive db) := by
  obtain ⟨r, hrun⟩ := run_acquire table .lockExclusive s db
  rcases Proc.run_bind_cases hrun with ⟨_, -, hacquire⟩ | ⟨e, -, hacquire⟩
  · rcases Proc.run_bind_cases (run_getTable s (locked s table .lockExclusive db) table
      (.tableNotFound table)) with ⟨d, hd, hget⟩ | ⟨e, -, hget⟩
    · rcases Proc.run_bind_cases (run_primaryKey s (locked s table .lockExclusive db) d.columns
        table) with ⟨pk, hpk, hprimary⟩ | ⟨e, -, hprimary⟩
      · rcases Proc.run_bind_cases (run_indexesForTable s (locked s table .lockExclusive db) table)
          with ⟨indexes, hindexes, hlist⟩ | ⟨e, -, hlist⟩
        · refine .inr ⟨d, pk, indexes, opened_of hd hpk hindexes, fun values => ?_⟩
          rw [executeInsert, hacquire, hget, hprimary, hlist]
        · refine .inl ⟨e, fun values => ?_⟩
          rw [executeInsert, hacquire, hget, hprimary, hlist]
      · refine .inl ⟨e, fun values => ?_⟩
        rw [executeInsert, hacquire, hget, hprimary]
    · refine .inl ⟨e, fun values => ?_⟩
      rw [executeInsert, hacquire, hget]
  · refine .inl ⟨e, fun values => ?_⟩
    rw [executeInsert, hacquire]

/-- `UPDATE` does not get to its rows, or it goes through those it has found. -/
theorem run_executeUpdate (statement : UpdateStmt) (s : Session) (db : Database) :
    (∃ e, Proc.run Database.handler (executeUpdate statement) s db =
      ((.error e, s), locked s statement.table .lockExclusive db)) ∨
      ∃ d pk indexes rows,
        Opened (locked s statement.table .lockExclusive db) statement.table d pk indexes ∧
        Proc.run Database.handler (matchingRows d statement.where) s
            (locked s statement.table .lockExclusive db) =
          ((.ok rows, s), locked s statement.table .lockExclusive db) ∧
        Proc.run Database.handler (executeUpdate statement) s db =
          Proc.run Database.handler (Proc.forEach (updateOne statement d pk indexes) rows) s
            (locked s statement.table .lockExclusive db) := by
  obtain ⟨r, hrun⟩ := run_acquire statement.table .lockExclusive s db
  rw [executeUpdate]
  rcases Proc.run_bind_cases hrun with ⟨_, -, hacquire⟩ | ⟨e, -, hacquire⟩ <;> rw [hacquire]
  · rcases Proc.run_bind_cases (run_getTable s (locked s statement.table .lockExclusive db)
      statement.table (.tableNotFound statement.table)) with ⟨d, hd, hget⟩ | ⟨e, -, hget⟩ <;>
      rw [hget]
    · obtain ⟨r, hrows⟩ := run_matchingRows s (locked s statement.table .lockExclusive db) d
        statement.where
      rcases Proc.run_bind_cases hrows with ⟨rows, rfl, hscan⟩ | ⟨e, -, hscan⟩ <;> rw [hscan]
      · rcases Proc.run_bind_cases (run_primaryKey s (locked s statement.table .lockExclusive db)
          d.columns statement.table) with ⟨pk, hpk, hprimary⟩ | ⟨e, -, hprimary⟩ <;> rw [hprimary]
        · rcases Proc.run_bind_cases (run_indexesForTable s
            (locked s statement.table .lockExclusive db) statement.table) with
            ⟨indexes, hindexes, hlist⟩ | ⟨e, -, hlist⟩ <;> rw [hlist]
          · exact .inr ⟨d, pk, indexes, rows, opened_of hd hpk hindexes, hrows, rfl⟩
          · exact .inl ⟨e, rfl⟩
        · exact .inl ⟨e, rfl⟩
      · exact .inl ⟨e, rfl⟩
    · exact .inl ⟨e, rfl⟩
  · exact .inl ⟨e, rfl⟩

/-! ### What is left -/

/-- No entry of a tree is lost or changed. -/
def EntriesStay (trees trees' : Trees) : Prop :=
  ∀ root key value, (trees root).lookup key = some value → (trees' root).lookup key = some value

instance : Std.Refl EntriesStay := ⟨fun _ _ _ _ h => h⟩

instance : IsTrans Trees EntriesStay :=
  ⟨fun _ _ _ h h' root key value hvalue => h' root key value (h root key value hvalue)⟩

theorem entriesStay_treeInsert (root : UInt32) (key value : Bytes) (wrap : Err → ExecErr) :
    Fallible.Keeps EntriesStay (treeInsert root key value wrap) := by
  refine keeps_treeInsert fun trees tree hinsert root' key' value' hvalue => ?_
  obtain ⟨_, hfree, rfl⟩ := OrderedTree.insert_eq_ok.mp hinsert
  by_cases hroot : root' = root
  · subst hroot
    rw [Function.update_self, OrderedTree.lookup_bind, if_neg, hvalue]
    rintro rfl
    rw [hfree] at hvalue
    cases hvalue
  · rwa [Function.update_of_ne hroot]

/-- `INSERT` only adds entries, whether or not it fails. -/
theorem entriesStay_executeInsert (statement : InsertStmt) (s : Session) (db : Database) :
    EntriesStay db.trees (Proc.run Database.handler (executeInsert statement) s db).2.trees := by
  refine Proc.run_of_wp (Q := fun _ _ (t' : Database) => EntriesStay db.trees t'.trees) ?_ rfl
  refine wp_executeInsert asks_any
    ⟨fun _ _ _ => trivial, ?_⟩ fun d pk indexes _ _ valueExprs _ s t ht => ?_
  · rw [trees_locked]
    exact refl_of EntriesStay db.trees
  · refine wp_insertOne asks_any (fun _ _ _ _ _ => trivial) (fun _ => ht)
      fun row key _ _ _ _ _ => ⟨trivial, trans_of EntriesStay ht ?_⟩
    exact keeps_insertRow (R := EntriesStay) (entriesStay_treeInsert _ _ _ _)
      (fun _ _ _ _ _ => entriesStay_treeInsert _ _ _ _) t.trees

/-- What an `INSERT` that fails has done: the rows before the one it fails
at are stored as by an `INSERT` of their own, and the run of that row from
there is all that follows. The row leaves no trace, unless it passes every
check and the table takes it. -/
def InsertLeaves (statement : InsertStmt) (s : Session) (db : Database) (e : ExecErr)
    (s' : Session) (db' : Database) : Prop :=
  ∃ d pk indexes done valueExprs rest s₁ db₁,
    Opened (locked s statement.table .lockExclusive db) statement.table d pk indexes ∧
    statement.values = done ++ valueExprs :: rest ∧
    Proc.run Database.handler (executeInsert { statement with values := done }) s db =
      ((.ok (), s₁), db₁) ∧
    Proc.run Database.handler (insertOne d statement.columns pk indexes valueExprs) s₁ db₁ =
      ((.error e, s'), db') ∧
    (db'.trees = db₁.trees ∨ ∃ row key,
      InsertChecks db₁ d statement.columns pk valueExprs row key ∧
        Takes (db₁.trees d.rootPageID) key (encodeRow row d.columns))

/-- The same for an `UPDATE` and the rows it has found. -/
def UpdateLeaves (statement : UpdateStmt) (s : Session) (db : Database) (e : ExecErr)
    (s' : Session) (db' : Database) : Prop :=
  ∃ d pk indexes done oldRow rest s₁ db₁,
    Opened (locked s statement.table .lockExclusive db) statement.table d pk indexes ∧
    Proc.run Database.handler (matchingRows d statement.where) s
        (locked s statement.table .lockExclusive db) =
      ((.ok (done ++ oldRow :: rest), s), locked s statement.table .lockExclusive db) ∧
    Proc.run Database.handler (Proc.forEach (updateOne statement d pk indexes) done) s
        (locked s statement.table .lockExclusive db) = ((.ok (), s₁), db₁) ∧
    Proc.run Database.handler (updateOne statement d pk indexes oldRow) s₁ db₁ =
      ((.error e, s'), db') ∧
    (db'.trees = db₁.trees ∨ ∃ newRow oldPK newPK,
      UpdateChecks db₁ statement d pk oldRow newRow oldPK newPK ∧
      ((d.columns[pk]?).any (fun c =>
          valuesEqual (oldRow.getD pk .null) (newRow.getD pk .null) c.type) = true →
        ((db₁.trees d.rootPageID).lookup oldPK).isSome))

theorem insertLeaves_of_error {statement : InsertStmt} {s s' : Session} {db db' : Database}
    {e : ExecErr}
    (hrun : Proc.run Database.handler (executeInsert statement) s db = ((.error e, s'), db')) :
    db'.trees = db.trees ∨ InsertLeaves statement s db e s' db' := by
  obtain ⟨e', hfail⟩ | ⟨d, pk, indexes, hopened, hrows⟩ :=
    run_executeInsert statement.table statement.columns s db
  · have hsame := hrun.symm.trans (hfail statement.values)
    cases hsame
    exact .inl (trees_locked ..)
  · have hloop := (hrows statement.values).symm.trans hrun
    obtain ⟨done, valueExprs, rest, s₁, db₁, hvalues, hdone, hrow⟩ := Proc.run_forEach_error hloop
    exact .inr ⟨d, pk, indexes, done, valueExprs, rest, s₁, db₁, hopened, hvalues,
      (hrows done).trans hdone, hrow, trees_of_insertOne_error hrow⟩

theorem updateLeaves_of_error {statement : UpdateStmt} {s s' : Session} {db db' : Database}
    {e : ExecErr}
    (hrun : Proc.run Database.handler (executeUpdate statement) s db = ((.error e, s'), db')) :
    db'.trees = db.trees ∨ UpdateLeaves statement s db e s' db' := by
  obtain ⟨e', hfail⟩ | ⟨d, pk, indexes, rows, hopened, hmatching, hrows⟩ :=
    run_executeUpdate statement s db
  · have hsame := hrun.symm.trans hfail
    cases hsame
    exact .inl (trees_locked ..)
  · have hloop := hrows.symm.trans hrun
    obtain ⟨done, oldRow, rest, s₁, db₁, rfl, hdone, hrow⟩ := Proc.run_forEach_error hloop
    exact .inr ⟨d, pk, indexes, done, oldRow, rest, s₁, db₁, hopened, hmatching, hdone, hrow,
      trees_of_updateOne_error hrow⟩

/-- A statement that fails is not undone. -/
theorem failed_statement_keeps_earlier_rows (s s' : Session) (db db' : Database) (e : ExecErr) :
    (∀ statement,
      Proc.run Database.handler (executeInsert statement) s db = ((.error e, s'), db') →
        EntriesStay db.trees db'.trees ∧
          (db'.trees = db.trees ∨ InsertLeaves statement s db e s' db')) ∧
    ∀ statement,
      Proc.run Database.handler (executeUpdate statement) s db = ((.error e, s'), db') →
        db'.trees = db.trees ∨ UpdateLeaves statement s db e s' db' := by
  refine ⟨fun statement hrun => ⟨?_, insertLeaves_of_error hrun⟩,
    fun statement hrun => updateLeaves_of_error hrun⟩
  have hstay := entriesStay_executeInsert statement s db
  rwa [hrun] at hstay

/-- A table with one column, its key. -/
def keysOnly : World :=
  (World.new plainEnv).step 1 (.createTableStmt { table := ascii "t", columns := [idColumn] })

/-- Two rows with one key. -/
def sameKeyTwice : InsertStmt :=
  { table := ascii "t", values := [[integer "1"], [integer "1"]] }

theorem failed_statement_keeps_earlier_rows_sample :
    ∃ e s' db', Proc.run Database.handler (executeInsert sameKeyTwice) {} keysOnly.db =
        ((.error e, s'), db') ∧
      EntriesStay keysOnly.db.trees db'.trees ∧
      (db'.trees = keysOnly.db.trees ∨ InsertLeaves sameKeyTwice {} keysOnly.db e s' db') := by
  have hfail : (Proc.run Database.handler (executeInsert sameKeyTwice) {} keysOnly.db).1.1 =
      .error (.insertingRow .duplicateKey) := by decide +kernel
  have hrun := Prod.ext (Prod.ext hfail rfl) rfl
  exact ⟨_, _, _, hrun, (failed_statement_keeps_earlier_rows {} _ keysOnly.db _ _).1 _ hrun⟩

/-- The second row is refused, and the first one stays. -/
theorem failed_insert_leaves_first_row :
    keysOnly.outcome 1 (.insertStmt sameKeyTwice) = .error (.insertingRow .duplicateKey) ∧
      (keysOnly.db.trees 1).lookup (be 8 1) = none ∧
      ((keysOnly.step 1 (.insertStmt sameKeyTwice)).db.trees 1).lookup (be 8 1) =
        some (0 :: be 8 1) := by
  decide +kernel

end MySQLight.Sql
