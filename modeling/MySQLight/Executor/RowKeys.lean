import MySQLight.Executor.Entries

/-!
Rows are stored under their primary keys.

`INSERT` and `UPDATE` write a row under the key of its own primary key.
The foreign-key actions write a row under the key it had before, and set one
of its columns; when that column is the primary key, the row is stored under
a key that is no longer its own. Where this does not happen, every row of
every table is found under its key.
-/

namespace MySQLight.Sql

open MySQLight.Data MySQLight.Schema MySQLight.Effect MySQLight.Storage

/-! ### What is written and read back -/

variable {row : Row} {columns : List ColumnDef} {key : Bytes} {d : TableDef} {db : Database}

theorem storable_of_fits (hlen : row.length = columns.length)
    (hfits : BTree.entrySize key (encodeRow row columns) ≤ entryCap) : Storable row columns := by
  refine storable_of_length hlen ?_
  have hcap : entryCap = 1362 := rfl
  rw [BTree.entrySize, encodeRow, List.length_append] at hfits
  omega

/-- A row that fits into an entry comes back. -/
theorem decodeRow_of_fits (hlen : row.length = columns.length)
    (hfits : BTree.entrySize key (encodeRow row columns) ≤ entryCap) :
    decodeRow (encodeRow row columns) columns = .ok (canonRow row columns) :=
  decodeRow_encodeRow (storable_of_fits hlen hfits)

theorem encodeKeyValue_canon (v : Value) (type : DataType) :
    encodeKeyValue (v.canon type) type = encodeKeyValue v type := by
  cases hnull : v.isNull with
  | true => cases type <;> simp [encodeKeyValue, hnull]
  | false =>
    have hfield : v.canon type = v.field type := by
      rw [Value.canon, hnull]
      rfl
    rw [hfield]
    cases type <;> simp [encodeKeyValue, hnull, Value.field]

theorem getElem?_canonRow {i : Nat} {c : ColumnDef} (hlen : row.length = columns.length)
    (hc : columns[i]? = some c) :
    (canonRow row columns).getD i .null = (row.getD i .null).canon c.type := by
  have hi : i < columns.length := (List.getElem?_eq_some_iff.mp hc).1
  have hrow : row[i]? = some (row.getD i .null) := by
    rw [List.getD_eq_getElem?_getD, List.getElem?_eq_getElem (by omega), Option.getD_some]
  rw [canonRow, List.getD_eq_getElem?_getD, List.getElem?_zipWith, hrow, hc]
  rfl

theorem columnKey_canonRow (hlen : row.length = columns.length) (i : Nat) :
    columnKey columns i ((canonRow row columns).getD i .null) =
      columnKey columns i (row.getD i .null) := by
  rw [columnKey, columnKey]
  cases hc : columns[i]? with
  | none => rfl
  | some c =>
    dsimp only
    rw [getElem?_canonRow hlen hc, encodeKeyValue_canon]

theorem KeyOf.canonRow (hlen : row.length = d.columns.length) (h : KeyOf d row key) :
    KeyOf d (canonRow row d.columns) key := by
  obtain ⟨i, hi, hkey⟩ := h
  exact ⟨i, hi, (columnKey_canonRow hlen i).trans hkey⟩

/-! ### All trees -/

/-- Every entry of a table's tree is a row under its key. -/
def RowTree (d : TableDef) (tree : OrderedTree) : Prop :=
  ∀ key value, tree.lookup key = some value →
    ∃ row, decodeRow value d.columns = .ok row ∧ KeyOf d row key

/-- Every table's tree holds rows under their keys. -/
def Keyed (c : Catalog) (trees : Trees) : Prop :=
  ∀ name d, c.tables.lookup name = some d → RowTree d (trees d.rootPageID)

/-- In every table each entry's key is the one of the row decoded from its
value. -/
def RowsKeyed (db : Database) : Prop := Keyed db.catalog db.trees

/-! ### Calls -/

/-- The call sets no column that is the primary key. -/
def SparesKey : DbOp → Database → Prop
  | .setColumn d _ _ i _ _ _, _ => pkIndex d.columns ≠ some i
  | _, _ => True

instance : (o : DbOp) → (db : Database) → Decidable (SparesKey o db)
  | .setColumn d _ _ i _ _ _, _ => inferInstanceAs (Decidable (pkIndex d.columns ≠ some i))
  | .getTable _, _ | .indexesForTable _, _ | .listTables, _ | .createTable _, _ | .dropTable _, _
  | .createIndex _, _ | .dropIndex _, _ | .scan _, _ | .insertRow .., _ | .updateRow .., _
  | .deleteRow .., _ | .acquire .., _ | .beginTxn, _ | .commitTxn _, _ | .rollbackTxn _, _ =>
    .isTrue trivial

theorem KeyOf.unique {key' : Bytes} (h : KeyOf d row key) (h' : KeyOf d row key') : key = key' := by
  obtain ⟨i, hi, hkey⟩ := h
  obtain ⟨i', hi', hkey'⟩ := h'
  cases hi.symm.trans hi'
  exact Except.ok.inj (hkey.symm.trans hkey')

theorem KeyOf.set (h : KeyOf d row key) {i : Nat} (hi : pkIndex d.columns ≠ some i) (v : Value) :
    KeyOf d (row.set i v) key := by
  obtain ⟨pk, hpk, hkey⟩ := h
  have hne : i ≠ pk := by
    rintro rfl
    exact hi hpk
  refine ⟨pk, hpk, ?_⟩
  rwa [List.getD_eq_getElem?_getD, List.getElem?_set_ne hne, ← List.getD_eq_getElem?_getD]

/-- A row that is written under its key. -/
theorem keyOf_decoded (hlen : row.length = d.columns.length) (hkey : KeyOf d row key)
    (hfits : BTree.entrySize key (encodeRow row d.columns) ≤ entryCap) :
    ∃ row', decodeRow (encodeRow row d.columns) d.columns = .ok row' ∧ KeyOf d row' key :=
  ⟨canonRow row d.columns, decodeRow_of_fits hlen hfits, hkey.canonRow hlen⟩

/-- A row write keeps the rows under their keys. -/
theorem rowsKeyed_proper {o : DbOp} (hrooted : Rooted db) (hkeyed : RowsKeyed db)
    (hproper : Proper (fun _ => True) (fun _ => True) o db) (hspares : SparesKey o db) :
    RowsKeyed (Database.handler o db).2 := by
  cases o with
  | insertRow d indexes row key =>
    obtain ⟨htarget, -, hlen, hkey, -⟩ := hproper
    exact entries_insertRow hrooted hkeyed htarget (keyOf_decoded hlen hkey)
  | updateRow d indexes oldRow newRow oldPK newPK =>
    obtain ⟨htarget, -, -, hlen, -, hkey, -⟩ := hproper
    exact entries_updateRow hrooted hkeyed htarget (keyOf_decoded hlen hkey)
  | deleteRow d indexes row key => exact entries_deleteRow hkeyed d indexes row key
  | setColumn d indexes column i oldRow newValue key =>
    obtain ⟨htarget, -, hlen, hkey, -, -⟩ := hproper
    exact entries_setColumn hrooted hkeyed htarget
      (keyOf_decoded (List.length_set.trans hlen) (hkey.set hspares newValue))
  | getTable _ | indexesForTable _ | listTables | acquire _ _ _ | scan _ => exact hkeyed
  | createTable _ | dropTable _ | createIndex _ | dropIndex _ | beginTxn | commitTxn _
  | rollbackTxn _ => exact hproper.elim

theorem rowsKeyed_createTable (hrooted : Rooted db) (hkeyed : RowsKeyed db) (d : TableDef) :
    RowsKeyed (db.createTable d).2 :=
  entries_createTable hrooted hkeyed d

theorem rowsKeyed_createIndex (hrooted : Rooted db) (hkeyed : RowsKeyed db) (x : IndexDef) :
    RowsKeyed (db.createIndex x).2 :=
  entries_createIndex hrooted hkeyed x

/-- If no foreign-key action sets a primary key, every row is stored under
its primary key, after every run of statements and whatever they return. -/
theorem rows_keyed_of_spared {env : Env} {depth : Nat} {stmts : List Statement}
    (hchanges : ∀ stmt ∈ stmts, stmt.changes = true)
    (hspares : Effect.Along (World.step depth) (World.Meets depth SparesKey) stmts
      (World.new env)) :
    RowsKeyed (stmts.foldl (World.step depth) (World.new env)).db := by
  refine run_keeps nofun (fun o db hrooted hkeyed hlawful hspares => ?_) hchanges hspares
  obtain ⟨_, d, -, rfl⟩ | ⟨x, rfl⟩ | hproper := hlawful
  · exact rowsKeyed_createTable hrooted hkeyed d
  · exact rowsKeyed_createIndex hrooted hkeyed x
  · exact rowsKeyed_proper hrooted hkeyed hproper hspares

/-- A parent and a child whose foreign key is another column than its key;
the parent's key changes. -/
def cascadeBesideKey : List Statement :=
  [.createTableStmt { table := ascii "p", columns := [idColumn] },
    .createTableStmt
      { table := ascii "c", columns := [idColumn, intColumn "p"],
        foreignKeys := [{ column := ascii "p", refTable := ascii "p", refColumn := ascii "id",
                          onUpdate := ascii "CASCADE" }] },
    insertInto "p" [["1"]], insertInto "c" [["7", "1"]], updateAll "p" "id" "2"]

theorem rows_keyed_of_spared_sample :
    RowsKeyed (cascadeBesideKey.foldl (World.step 1) (World.new plainEnv)).db :=
  rows_keyed_of_spared (by decide +kernel) (by decide +kernel)

/-- The same with the child's own key as the foreign key. -/
def cascadeIntoKey : List Statement :=
  [.createTableStmt { table := ascii "p", columns := [idColumn] },
    .createTableStmt
      { table := ascii "c", columns := [idColumn],
        foreignKeys := [{ column := ascii "id", refTable := ascii "p", refColumn := ascii "id",
                          onUpdate := ascii "CASCADE" }] },
    insertInto "p" [["1"]], insertInto "c" [["1"]], updateAll "p" "id" "2"]

/-- The child's row is stored under its old key. -/
theorem cascade_leaves_row_under_old_key :
    (∀ stmt ∈ cascadeIntoKey, stmt.changes = true) ∧
      ¬ RowsKeyed (cascadeIntoKey.foldl (World.step 1) (World.new plainEnv)).db := by
  refine ⟨by decide, fun h => ?_⟩
  have hchild : ((cascadeIntoKey.foldl (World.step 1) (World.new plainEnv)).db.catalog.tables.lookup
      (ascii "c")).map (fun d => (d.columns, d.rootPageID)) =
      some ([{ name := ascii "id", type := .typeInt, primaryKey := true }], 2) := by
    decide +kernel
  have hentry : ((cascadeIntoKey.foldl (World.step 1) (World.new plainEnv)).db.trees 2).lookup
      (be 8 1) = some (0 :: be 8 2) := by
    decide +kernel
  obtain ⟨d, hd, heq⟩ := Option.map_eq_some_iff.mp hchild
  obtain ⟨hcolumns, hroot⟩ := Prod.mk.inj heq
  rw [← hroot] at hentry
  obtain ⟨row, hdecode, i, hi, hkey⟩ := h (ascii "c") d hd _ _ hentry
  rw [hcolumns] at hdecode hi hkey
  have hrow : row = [{ intVal := 2 }] := by
    have hval : decodeRow (0 :: be 8 2)
        [{ name := ascii "id", type := .typeInt, primaryKey := true }] =
        .ok [{ intVal := 2 }] := by decide +kernel
    rw [hval] at hdecode
    cases hdecode
    rfl
  have hi0 : i = 0 := by
    have hpk : pkIndex [{ name := ascii "id", type := .typeInt, primaryKey := true }] = some 0 := by
      decide +kernel
    rw [hpk] at hi
    cases hi
    rfl
  subst hrow hi0
  revert hkey
  decide +kernel

end MySQLight.Sql
