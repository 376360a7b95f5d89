import MySQLight.Executor.RowWrites

/-!
Secondary indexes follow their tables.

A row write stops at the first index that does not take its part: because
the row has no key for it (its column is NULL, or of a type without keys),
or because the key is there already. Then the row is written, and this index
and the later ones are not. `CREATE INDEX` makes an empty tree whatever rows
the table has.

Where none of this happens, an index finds exactly the rows of its table
whose column is not NULL.
-/

namespace MySQLight.Sql

open MySQLight.Data MySQLight.Schema MySQLight.Effect MySQLight.Storage

/-! ### Indexes and tables -/

/-- The row has a key in the index, unless its column is NULL. -/
def NullOrKey (d : TableDef) (x : IndexDef) (row : Row) : Prop :=
  ∀ i, colIndex d.columns x.columnName = some i → (row.getD i .null).isNull = false →
    (keyFor d x row).isSome

/-- The index finds the rows of the table, and every row with a value in
its column is one that can be found. -/
structure Follows (d : TableDef) (x : IndexDef) (data index : Bytes → Option Bytes) : Prop where
  inverse : IsInverse (indexKey d x) data index
  keyed : ∀ pk value row, data pk = some value → decodeRow value d.columns = .ok row →
    NullOrKey d x row

section Follows

variable {d : TableDef} {x : IndexDef} {row : Row} {data index : Bytes → Option Bytes}
  {pk value : Bytes}

theorem HasKey.nullOrKey (h : HasKey d x row) : NullOrKey d x row := by
  intro i hcol _
  obtain ⟨key, hkey, -⟩ := h.columnKey hcol
  rw [hkey]
  rfl

theorem NullOrKey.canonRow (hlen : row.length = d.columns.length) (h : NullOrKey d x row) :
    NullOrKey d x (canonRow row d.columns) := by
  intro i hcol hnull
  rw [keyFor_canonRow hlen]
  have hi := List.getElem?_eq_getElem (lt_of_colIndex hcol)
  rw [getElem?_canonRow hlen hi, Value.isNull_canon] at hnull
  exact h i hcol hnull

namespace Follows

theorem insert (h : Follows d x data index) (hlen : row.length = d.columns.length)
    (hfits : BTree.entrySize pk (encodeRow row d.columns) ≤ entryCap) (hfree : data pk = none)
    (hkey : NullOrKey d x row) (hnew : ∀ key ∈ keyFor d x row, index key = none) :
    Follows d x (Function.update data pk (some (encodeRow row d.columns)))
      (rebind (keyFor d x row) (some pk) index) where
  inverse := by
    rw [← indexKey_encodeRow hlen hfits] at hnew ⊢
    exact h.inverse.insert hfree hnew
  keyed := by
    intro pk' value row' hvalue hdecode
    by_cases hpk : pk' = pk
    · subst hpk
      rw [Function.update_self] at hvalue
      cases hvalue
      rw [decodeRow_of_fits hlen hfits] at hdecode
      cases hdecode
      exact hkey.canonRow hlen
    · rw [Function.update_of_ne hpk] at hvalue
      exact h.keyed pk' value row' hvalue hdecode

theorem erase (h : Follows d x data index) (hvalue : data pk = some value)
    (hdecode : decodeRow value d.columns = .ok row) :
    Follows d x (Function.update data pk none) (rebind (keyFor d x row) none index) where
  inverse := by
    rw [← indexKey_of_decodeRow hdecode]
    exact h.inverse.erase hvalue
  keyed := by
    intro pk' value' row' hvalue' hdecode'
    by_cases hpk : pk' = pk
    · rw [hpk, Function.update_self] at hvalue'
      cases hvalue'
    · rw [Function.update_of_ne hpk] at hvalue'
      exact h.keyed pk' value' row' hvalue' hdecode'

/-- A row that is stored is found. -/
theorem find (h : Follows d x data index) (hvalue : data pk = some value)
    (hdecode : decodeRow value d.columns = .ok row) {key : Bytes}
    (hkey : keyFor d x row = some key) :
    index key = some pk :=
  (h.inverse key pk).mpr ⟨value, hvalue, (indexKey_of_decodeRow hdecode).trans hkey⟩

end Follows

end Follows

/-- Every index follows its table; without a table it is empty. -/
def Consistent (c : Catalog) (trees : Trees) : Prop :=
  ∀ name x, c.indexes.lookup name = some x →
    (∀ d, c.tables.lookup x.tableName = some d →
      Follows d x (trees d.rootPageID).lookup (trees x.rootPageID).lookup) ∧
      (c.tables.lookup x.tableName = none → ∀ key, (trees x.rootPageID).lookup key = none)

section Target

variable {db : Database} {d : TableDef} {indexes : List IndexDef} (hrooted : Rooted db)
  (hok : db.catalog.Ok) (htarget : Target db d indexes)

include hrooted hok htarget

omit hrooted in
theorem names_of_target : indexes.map (·.name) = db.catalog.indexNames d.name := by
  have hsome : (db.catalog.tables.lookup d.name).isSome := by
    rw [htarget.table]
    rfl
  obtain ⟨ds, hds, hnames⟩ := hok.indexesForTable hsome
  rw [htarget.indexes] at hds
  cases hds
  exact hnames

/-- The indexes of a table are all that refer to it. -/
theorem mem_indexes {x : IndexDef} :
    x ∈ indexes ↔ ∃ name, db.catalog.indexes.lookup name = some x ∧ x.tableName = d.name := by
  constructor
  · intro hx
    obtain ⟨name, hname, hlookup⟩ := lookup_of_indexesForTable htarget.indexes hx
    obtain ⟨y, hy, htable⟩ := (hok.describes.listed d.name name).mp hname
    rw [hlookup] at hy
    cases hy
    exact ⟨name, hlookup, htable⟩
  · rintro ⟨name, hlookup, htable⟩
    have hmem : name ∈ indexes.map (·.name) := by
      rw [names_of_target hok htarget, hok.describes.listed]
      exact ⟨x, hlookup, htable⟩
    obtain ⟨y, hy, rfl⟩ := List.mem_map.mp hmem
    obtain ⟨name, -, hlookup'⟩ := lookup_of_indexesForTable htarget.indexes hy
    rw [← hrooted.index_name name y hlookup', hlookup] at hlookup'
    cases hlookup'
    exact hy

theorem apart_of_target : Apart d indexes := by
  refine ⟨?_, fun x hx => (hrooted.root_ne_of_index htarget hx htarget.table).symm⟩
  have hnodup : indexes.Nodup :=
    List.Nodup.of_map _ (names_of_target hok htarget ▸ hok.describes.nodup d.name)
  refine hnodup.map_on fun x hx y hy hroot => ?_
  obtain ⟨name, hlookup, -⟩ := (mem_indexes hrooted hok htarget).mp hx
  obtain ⟨name', hlookup', -⟩ := (mem_indexes hrooted hok htarget).mp hy
  cases hrooted.apart y.rootPageID (.inr name) (.inr name') ⟨x, hlookup, hroot⟩ ⟨y, hlookup', rfl⟩
  rw [hlookup] at hlookup'
  exact Option.some.inj hlookup'

/-- A write of a table concerns the table and its own indexes. -/
theorem consistent_of_written {trees' : Trees}
    {onData : (Bytes → Option Bytes) → Bytes → Option Bytes}
    {onIndex : IndexDef → (Bytes → Option Bytes) → Bytes → Option Bytes}
    (hwritten : Written d indexes db.trees trees' onData onIndex)
    (hfollows : ∀ x ∈ indexes,
      Follows d x (db.trees d.rootPageID).lookup (db.trees x.rootPageID).lookup →
      Follows d x (onData (db.trees d.rootPageID).lookup)
        (onIndex x (db.trees x.rootPageID).lookup))
    (h : Consistent db.catalog db.trees) : Consistent db.catalog trees' := by
  intro name x hx
  by_cases htable : x.tableName = d.name
  · have hmem : x ∈ indexes := (mem_indexes hrooted hok htarget).mpr ⟨name, hx, htable⟩
    refine ⟨fun d' hd' => ?_, fun hnone => ?_⟩
    · have hd := hd'
      rw [htable, htarget.table] at hd
      cases hd
      rw [hwritten.data, hwritten.index x hmem]
      exact hfollows x hmem ((h name x hx).1 d hd')
    · rw [htable, htarget.table] at hnone
      cases hnone
  · -- Neither the tree of this index nor that of its table has changed.
    have hindexes : ∀ y ∈ indexes, y.rootPageID ≠ x.rootPageID := by
      intro y hy hroot
      obtain ⟨name', hlookup, htable'⟩ := (mem_indexes hrooted hok htarget).mp hy
      cases hrooted.apart x.rootPageID (.inr name') (.inr name) ⟨y, hlookup, hroot⟩ ⟨x, hx, rfl⟩
      rw [hx] at hlookup
      cases hlookup
      exact htable htable'
    have hindex : trees' x.rootPageID = db.trees x.rootPageID := by
      refine hwritten.other _ (fun hroot => ?_) hindexes
      cases hrooted.apart x.rootPageID (.inr name) (.inl d.name) ⟨x, hx, rfl⟩
        ⟨d, htarget.table, hroot.symm⟩
    rw [hindex]
    refine ⟨fun d' hd' => ?_, (h name x hx).2⟩
    have hdata : trees' d'.rootPageID = db.trees d'.rootPageID := by
      refine hwritten.other _ (fun hroot => ?_) fun y hy hroot => ?_
      · have heq := hrooted.eq_of_root htarget.table hd' hroot
        rw [heq] at hd'
        exact htable (hrooted.table_name _ d hd').symm
      · exact hrooted.root_ne_of_index htarget hy hd' hroot.symm
    rw [hdata]
    exact (h name x hx).1 d' hd'

end Target

/-! ### Calls -/

/-- The indexes take their part of the call: a new table is one that no
index refers to, a new index is one of an empty table, and when a row is
written, it is the row that was read, it has a key for every index that is
concerned, and the key is free. -/
def Accepts : DbOp → Database → Prop
  | .createTable d, db => db.catalog.tables.lookup d.name = none →
      ∀ e ∈ db.catalog.indexes.entries, e.2.tableName ≠ d.name
  | .createIndex x, db => db.catalog.indexes.lookup x.name = none →
      ∀ d ∈ db.catalog.tables.lookup x.tableName, (db.trees d.rootPageID).entries = []
  | .insertRow d indexes row pk, db =>
    Takes (db.trees d.rootPageID) pk (encodeRow row d.columns) →
      ∀ x ∈ indexes, HasKey d x row ∧
        ∀ key ∈ keyFor d x row, Takes (db.trees x.rootPageID) key pk
  | .updateRow d indexes oldRow newRow oldPK newPK, db =>
    ∀ value ∈ (db.trees d.rootPageID).lookup oldPK,
      decodeRow value d.columns = .ok oldRow ∧
      Takes ((db.trees d.rootPageID).unbind oldPK) newPK (encodeRow newRow d.columns) ∧
      ∀ x ∈ indexes, HasKey d x oldRow ∧ HasKey d x newRow ∧
        ∀ oldKey ∈ keyFor d x oldRow, ∀ newKey ∈ keyFor d x newRow,
          Takes ((db.trees x.rootPageID).unbind oldKey) newKey newPK
  | .deleteRow d indexes row pk, db =>
    ∀ value ∈ (db.trees d.rootPageID).lookup pk,
      decodeRow value d.columns = .ok row ∧ ∀ x ∈ indexes, HasKey d x row
  | .setColumn d indexes column i oldRow newValue pk, db =>
    pkIndex d.columns ≠ some i ∧ ∀ value ∈ (db.trees d.rootPageID).lookup pk,
      decodeRow value d.columns = .ok oldRow ∧
      Takes ((db.trees d.rootPageID).unbind pk) pk
        (encodeRow (oldRow.set i newValue) d.columns) ∧
      ∀ x ∈ indexes, x.columnName = column → HasKey d x oldRow ∧
        (newValue.isNull = false → HasKey d x (oldRow.set i newValue)) ∧
        ∀ oldKey ∈ keyFor d x oldRow, ∀ newKey ∈ keyFor d x (oldRow.set i newValue),
          Takes ((db.trees x.rootPageID).unbind oldKey) newKey pk
  | _, _ => True

instance : (o : DbOp) → (db : Database) → Decidable (Accepts o db)
  | .createTable _, _ => inferInstanceAs (Decidable (_ → _))
  | .createIndex _, _ => inferInstanceAs (Decidable (_ → _))
  | .insertRow .., _ => inferInstanceAs (Decidable (_ → _))
  | .updateRow .., _ => inferInstanceAs (Decidable (∀ _ ∈ _, _))
  | .deleteRow .., _ => inferInstanceAs (Decidable (∀ _ ∈ _, _))
  | .setColumn .., _ => inferInstanceAs (Decidable (_ ∧ _))
  | .getTable _, _ | .indexesForTable _, _ | .listTables, _ | .dropTable _, _ | .dropIndex _, _
  | .scan _, _ | .acquire .., _ | .beginTxn, _ | .commitTxn _, _ | .rollbackTxn _, _ =>
    .isTrue trivial

section Null

variable {d : TableDef} {x : IndexDef} {oldRow : Row} {i : Nat} {newValue : Value}

theorem nullOrKey_of_set_null (hlen : oldRow.length = d.columns.length)
    (hcol : colIndex d.columns x.columnName = some i) (hnull : newValue.isNull = true) :
    NullOrKey d x (oldRow.set i newValue) := by
  intro j hj hvalue
  rw [hcol] at hj
  cases hj
  have hi : i < oldRow.length := hlen ▸ lt_of_colIndex hcol
  rw [List.getD_eq_getElem?_getD, List.getElem?_set_self hi, Option.getD_some, hnull] at hvalue
  cases hvalue

theorem NullOrKey.set_of_ne (h : NullOrKey d x oldRow) {column : Bytes}
    (hcol : colIndex d.columns column = some i) (hne : x.columnName ≠ column) (newValue : Value) :
    NullOrKey d x (oldRow.set i newValue) := by
  intro j hj hvalue
  have hij : i ≠ j := by
    rintro rfl
    exact hne (colIndex_inj hj hcol)
  rw [List.getD_eq_getElem?_getD, List.getElem?_set_ne hij, ← List.getD_eq_getElem?_getD] at hvalue
  rw [keyFor_set_of_ne hcol hne]
  exact h j hj hvalue

end Null

section Calls

variable {db : Database} (hrooted : Rooted db) (hok : db.catalog.Ok)
  (h : Consistent db.catalog db.trees)

include hrooted hok h

variable {d : TableDef} {indexes : List IndexDef} {pk : Bytes}

/-- An index of the table follows it. -/
theorem follows_of_target (htarget : Target db d indexes) {x : IndexDef} (hx : x ∈ indexes) :
    Follows d x (db.trees d.rootPageID).lookup (db.trees x.rootPageID).lookup := by
  obtain ⟨name, hlookup, htable⟩ := (mem_indexes hrooted hok htarget).mp hx
  exact (h name x hlookup).1 d (htable ▸ htarget.table)

theorem consistent_insertRow {row : Row} (htarget : Target db d indexes)
    (hlen : row.length = d.columns.length) (haccepts : Accepts (.insertRow d indexes row pk) db) :
    Consistent db.catalog ((insertRow d indexes row pk).run db.trees).2 := by
  by_cases hdata : Takes (db.trees d.rootPageID) pk (encodeRow row d.columns)
  · have hkeys := haccepts hdata
    obtain ⟨trees', hrun, hwritten⟩ :=
      run_insertRow (apart_of_target hrooted hok htarget) hdata hkeys
    rw [hrun]
    refine consistent_of_written hrooted hok htarget hwritten (fun x hx hfollows => ?_) h
    obtain ⟨hkey, hnew⟩ := hkeys x hx
    exact hfollows.insert hlen hdata.1 hdata.2 hkey.nullOrKey fun key hkey => (hnew key hkey).2
  · obtain ⟨e, hrun⟩ := run_treeInsert_of_not_takes hdata .insertingRow
    rw [insertRow, Fallible.run_bind_of_error hrun]
    exact h

theorem consistent_deleteRow {row : Row} (htarget : Target db d indexes)
    (haccepts : Accepts (.deleteRow d indexes row pk) db) :
    Consistent db.catalog ((deleteRow d indexes row pk).run db.trees).2 := by
  cases hdata : (db.trees d.rootPageID).lookup pk with
  | none =>
    obtain ⟨e, hrun⟩ := run_treeDelete_of_absent hdata (.deletingRow d.name)
    rw [deleteRow, Fallible.run_bind_of_error hrun]
    exact h
  | some value =>
    obtain ⟨hdecode, hkeys⟩ := haccepts value hdata
    have hthere : ∀ x ∈ indexes, ∀ key ∈ keyFor d x row,
        ∃ v, (db.trees x.rootPageID).lookup key = some v := fun x hx key hkey =>
      ⟨pk, (follows_of_target hrooted hok h htarget hx).find hdata hdecode hkey⟩
    obtain ⟨trees', hrun, hwritten⟩ := run_deleteRow (apart_of_target hrooted hok htarget) hdata
      fun x hx => ⟨hkeys x hx, hthere x hx⟩
    rw [hrun]
    exact consistent_of_written hrooted hok htarget hwritten
      (fun x hx hfollows => hfollows.erase hdata hdecode) h

theorem consistent_updateRow {oldRow newRow : Row} {oldPK newPK : Bytes}
    (htarget : Target db d indexes) (hlen : newRow.length = d.columns.length)
    (haccepts : Accepts (.updateRow d indexes oldRow newRow oldPK newPK) db) :
    Consistent db.catalog ((updateRow d indexes oldRow newRow oldPK newPK).run db.trees).2 := by
  cases hdata : (db.trees d.rootPageID).lookup oldPK with
  | none =>
    obtain ⟨e, hrun⟩ := run_treeDelete_of_absent hdata .deletingOldRow
    rw [updateRow, Fallible.run_bind_of_error hrun]
    exact h
  | some value =>
    obtain ⟨hdecode, htakes, hkeys⟩ := haccepts value hdata
    have hthere : ∀ x ∈ indexes, ∀ key ∈ keyFor d x oldRow,
        ∃ v, (db.trees x.rootPageID).lookup key = some v := fun x hx key hkey =>
      ⟨oldPK, (follows_of_target hrooted hok h htarget hx).find hdata hdecode hkey⟩
    obtain ⟨trees', hrun, hwritten⟩ := run_updateRow (apart_of_target hrooted hok htarget) hdata
      htakes fun x hx => ⟨(hkeys x hx).1, (hkeys x hx).2.1, fun oldKey hold =>
        ⟨hthere x hx oldKey hold, (hkeys x hx).2.2 oldKey hold⟩⟩
    rw [hrun]
    refine consistent_of_written hrooted hok htarget hwritten (fun x hx hfollows => ?_) h
    obtain ⟨hold, hnew, hfree⟩ := hkeys x hx
    refine (hfollows.erase hdata hdecode).insert hlen htakes.1 ?_ hnew.nullOrKey
      fun newKey hnewKey => ?_
    · rw [Function.update_apply, ← OrderedTree.lookup_unbind]
      exact htakes.2
    · obtain ⟨i, hcol, -⟩ := keyFor_eq_some.mp hnewKey
      obtain ⟨oldKey, holdKey, -⟩ := hold.columnKey hcol
      rw [holdKey, rebind_some, Function.update_apply, ← OrderedTree.lookup_unbind]
      exact (hfree oldKey holdKey newKey hnewKey).2

theorem consistent_setColumn {column : Bytes} {i : Nat} {oldRow : Row} {newValue : Value}
    (htarget : Target db d indexes) (hlen : oldRow.length = d.columns.length)
    (hcol : colIndex d.columns column = some i)
    (haccepts : Accepts (.setColumn d indexes column i oldRow newValue pk) db) :
    Consistent db.catalog ((setColumn d indexes column i oldRow newValue pk).run db.trees).2 := by
  cases hdata : (db.trees d.rootPageID).lookup pk with
  | none =>
    obtain ⟨e, hrun⟩ := run_treeDelete_of_absent hdata .storage
    rw [setColumn, Fallible.run_bind_of_error hrun]
    exact h
  | some value =>
    obtain ⟨hdecode, htakes, hkeys⟩ := haccepts.2 value hdata
    have hthere : ∀ x ∈ indexes, ∀ key ∈ keyFor d x oldRow,
        ∃ v, (db.trees x.rootPageID).lookup key = some v := fun x hx key hkey =>
      ⟨pk, (follows_of_target hrooted hok h htarget hx).find hdata hdecode hkey⟩
    obtain ⟨trees', hrun, hwritten⟩ := run_setColumn (apart_of_target hrooted hok htarget) hlen
      hcol hdata htakes fun x hx hname => ⟨(hkeys x hx hname).1, (hkeys x hx hname).2.1,
        fun oldKey hold => ⟨hthere x hx oldKey hold, (hkeys x hx hname).2.2 oldKey hold⟩⟩
    rw [hrun]
    refine consistent_of_written hrooted hok htarget hwritten (fun x hx hfollows => ?_) h
    have hlen' : (oldRow.set i newValue).length = d.columns.length :=
      List.length_set.trans hlen
    have hfree : Function.update (db.trees d.rootPageID).lookup pk none pk = none :=
      Function.update_self ..
    by_cases hname : x.columnName = column
    · rw [if_pos hname]
      obtain ⟨hold, hnew, hfreeKey⟩ := hkeys x hx hname
      have hcolx : colIndex d.columns x.columnName = some i := hname ▸ hcol
      refine (hfollows.erase hdata hdecode).insert hlen' htakes.1 hfree ?_
        fun newKey hnewKey => ?_
      · cases hnull : newValue.isNull with
        | false => exact (hnew hnull).nullOrKey
        | true => exact nullOrKey_of_set_null hlen hcolx hnull
      · obtain ⟨oldKey, holdKey, -⟩ := hold.columnKey hcolx
        rw [holdKey, rebind_some, Function.update_apply, ← OrderedTree.lookup_unbind]
        exact (hfreeKey oldKey holdKey newKey hnewKey).2
    · -- The row is found by what it was found by before.
      have hsame : keyFor d x (oldRow.set i newValue) = keyFor d x oldRow :=
        keyFor_set_of_ne hcol hname
      have hself := hfollows.inverse.rebind_self hdata
      rw [indexKey_of_decodeRow hdecode] at hself
      have hreplaced := (hfollows.erase hdata hdecode).insert hlen' htakes.1 hfree
        ((hfollows.keyed pk value oldRow hdata hdecode).set_of_ne hcol hname newValue)
        (fun key hkey => by
          rw [hsame] at hkey
          rw [hkey, rebind_some, Function.update_self])
      rw [if_neg hname]
      rwa [hsame, hself] at hreplaced

end Calls

/-! ### New tables and new indexes -/

section Create

variable {db db' : Database} (hrooted : Rooted db) (h : Consistent db.catalog db.trees)

include hrooted h

/-- An index whose table is the same as before. -/
theorem Consistent.transfer (hgrown : Grown db db') {name : Bytes} {x : IndexDef}
    (hx : db.catalog.indexes.lookup name = some x)
    (htable : db'.catalog.tables.lookup x.tableName = db.catalog.tables.lookup x.tableName) :
    (∀ d, db'.catalog.tables.lookup x.tableName = some d →
      Follows d x (db'.trees d.rootPageID).lookup (db'.trees x.rootPageID).lookup) ∧
      (db'.catalog.tables.lookup x.tableName = none →
        ∀ key, (db'.trees x.rootPageID).lookup key = none) := by
  rw [htable, hgrown.trees _ (hrooted.used _ (.inr name) ⟨x, hx, rfl⟩)]
  refine ⟨fun d hd => ?_, (h name x hx).2⟩
  rw [hgrown.trees _ (hrooted.used _ (.inl x.tableName) ⟨d, hd, rfl⟩)]
  exact (h name x hx).1 d hd

theorem consistent_createTable {d : TableDef} (haccepts : Accepts (.createTable d) db) :
    Consistent (db.createTable d).2.catalog (db.createTable d).2.trees := by
  obtain ⟨hgrown, root, hcatalog, hcase⟩ := db.createTable_cases d
  intro name x hx
  obtain hsame | ⟨pageID, tree, hnone, -, heq⟩ := hcase
  · rw [hcatalog, hsame] at hx
    exact h.transfer hrooted hgrown hx (by rw [hcatalog, hsame])
  · rw [heq] at hcatalog
    rw [hcatalog] at hx
    refine h.transfer hrooted hgrown hx ?_
    rw [hcatalog]
    exact AList.lookup_insert_ne (haccepts hnone ⟨name, x⟩ (AList.mem_lookup_iff.mp hx))

theorem consistent_createIndex {x : IndexDef} (haccepts : Accepts (.createIndex x) db) :
    Consistent (db.createIndex x).2.catalog (db.createIndex x).2.trees := by
  obtain ⟨hgrown, root, hcatalog, hcase⟩ := db.createIndex_cases x
  have htables : (db.createIndex x).2.catalog.tables = db.catalog.tables := by
    obtain hsame | ⟨pageID, tree, -, -, heq⟩ := hcase
    · rw [hcatalog, hsame]
    · rw [hcatalog, heq]
  intro name y hy
  obtain hsame | ⟨pageID, tree, hnone, hfresh, heq⟩ := hcase
  · rw [hcatalog, hsame] at hy
    exact h.transfer hrooted hgrown hy (by rw [htables])
  · rw [hcatalog, heq] at hy
    by_cases hname : name = x.name
    · -- The new index and its table are empty.
      subst hname
      rw [AList.lookup_insert] at hy
      cases hy
      rw [hfresh.empty, htables]
      refine ⟨fun d hd => ⟨.empty _ (fun key => ?_) fun _ => rfl, fun pk value row hvalue => ?_⟩,
        fun _ _ => rfl⟩
      all_goals
        have hentries := haccepts hnone d hd
        have hempty : ∀ key, ((db.createIndex x).2.trees d.rootPageID).lookup key = none := by
          intro key
          rw [hgrown.trees _ (hrooted.used _ (.inl x.tableName) ⟨d, hd, rfl⟩)]
          refine Option.eq_none_iff_forall_ne_some.mpr fun value hvalue => ?_
          rw [← OrderedTree.mem_entries, hentries] at hvalue
          cases hvalue
      · exact hempty key
      · rw [hempty pk] at hvalue
        cases hvalue
    · rw [AList.lookup_insert_ne hname] at hy
      exact h.transfer hrooted hgrown hy (by rw [htables])

end Create

/-! ### Runs -/

/-- A value of the indexed column that is not NULL leads to the primary key
of its row, and every entry names the primary key of such a row. -/
structure IndexConsistent (db : Database) (x : IndexDef) : Prop where
  complete : ∀ d i row, db.catalog.tables.lookup x.tableName = some d →
    colIndex d.columns x.columnName = some i → Stored db d row →
    (row.getD i .null).isNull = false →
    ∃ key pk, columnKey d.columns i (row.getD i .null) = .ok key ∧ KeyOf d row pk ∧
      (db.trees x.rootPageID).lookup key = some pk
  sound : ∀ key pk, (db.trees x.rootPageID).lookup key = some pk →
    ∃ d i row, db.catalog.tables.lookup x.tableName = some d ∧
      colIndex d.columns x.columnName = some i ∧ Stored db d row ∧ KeyOf d row pk ∧
      columnKey d.columns i (row.getD i .null) = .ok key

def IndexesConsistent (db : Database) : Prop :=
  ∀ name x, db.catalog.indexes.lookup name = some x → IndexConsistent db x

variable {db : Database}

theorem indexesConsistent_of_consistent (hkeyed : RowsKeyed db)
    (h : Consistent db.catalog db.trees) :
    IndexesConsistent db := by
  intro name x hx
  obtain ⟨hfollows, hempty⟩ := h name x hx
  refine ⟨fun d i row hd hcol hstored hnull => ?_, fun key pk hpk => ?_⟩
  · obtain ⟨pk, value, hvalue, hdecode⟩ := hstored
    have hsome := (hfollows d hd).keyed pk value row hvalue hdecode i hcol hnull
    obtain ⟨key, hkey⟩ := Option.isSome_iff_exists.mp hsome
    obtain ⟨row', hdecode', hkeyOf⟩ := hkeyed _ d hd pk value hvalue
    rw [hdecode] at hdecode'
    cases hdecode'
    refine ⟨key, pk, ?_, hkeyOf, (hfollows d hd).find hvalue hdecode hkey⟩
    rwa [keyFor_of_column hcol, toOption_eq_some] at hkey
  · cases htable : db.catalog.tables.lookup x.tableName with
    | none =>
      rw [hempty htable] at hpk
      cases hpk
    | some d =>
      obtain ⟨value, hvalue, hkey⟩ := ((hfollows d htable).inverse key pk).mp hpk
      obtain ⟨row, hdecode, hkeyOf⟩ := hkeyed _ d htable pk value hvalue
      rw [indexKey_of_decodeRow hdecode, keyFor_eq_some] at hkey
      obtain ⟨i, hcol, hcolumn⟩ := hkey
      exact ⟨d, i, row, rfl, hcol, ⟨pk, value, hvalue, hdecode⟩, hkeyOf, hcolumn⟩

/-- The columns of a definition are those of the statement; none has a
default. -/
theorem columns_of_astToTableDef {stmt : CreateTableStmt} {d : TableDef}
    (h : astToTableDef stmt = .ok d) :
    List.Forall₂ (fun ast c => c.name = ast.name ∧ c.default = none) stmt.columns d.columns := by
  obtain ⟨columns, hcolumns, h⟩ := exists_of_bind_ok h
  cases h
  refine (forall₂_of_mapM_ok hcolumns).imp fun ast c hast => ?_
  obtain ⟨type, -, hast⟩ := exists_of_bind_ok hast
  cases hast
  exact ⟨rfl, rfl⟩

theorem default_of_astToTableDef {stmt : CreateTableStmt} {d : TableDef}
    (h : astToTableDef stmt = .ok d) {column : ColumnDef} (hcolumn : column ∈ d.columns) :
    column.default = none := by
  obtain ⟨_, -, -, hdefault⟩ := exists_of_forall₂ (columns_of_astToTableDef h) hcolumn
  exact hdefault

/-- A call that reads or writes rows changes no definition. -/
theorem catalog_of_proper {reads writes : Bytes → Prop} {o : DbOp} (h : Proper reads writes o db) :
    (Database.handler o db).2.catalog = db.catalog := by
  cases o with
  | createTable _ | dropTable _ | createIndex _ | dropIndex _ | beginTxn | commitTxn _
  | rollbackTxn _ => exact h.elim
  | _ => rfl

theorem consistent_proper {o : DbOp} (hrooted : Rooted db) (hok : db.catalog.Ok)
    (h : Consistent db.catalog db.trees) (hproper : Proper (fun _ => True) (fun _ => True) o db)
    (haccepts : Accepts o db) :
    Consistent (Database.handler o db).2.catalog (Database.handler o db).2.trees := by
  cases o with
  | insertRow => exact consistent_insertRow hrooted hok h hproper.1 hproper.2.2.1 haccepts
  | updateRow => exact consistent_updateRow hrooted hok h hproper.1 hproper.2.2.2.1 haccepts
  | deleteRow => exact consistent_deleteRow hrooted hok h hproper.1 haccepts
  | setColumn =>
    exact consistent_setColumn hrooted hok h hproper.1 hproper.2.2.1 hproper.2.2.2.2.1 haccepts
  | createTable | dropTable | createIndex | dropIndex | beginTxn | commitTxn | rollbackTxn =>
    exact hproper.elim
  | _ => exact h

/-- A run whose calls all find indexes that take their part. -/
theorem consistent_of_accepted {env : Env} {depth : Nat} {stmts : List Statement}
    (hchanges : ∀ stmt ∈ stmts, stmt.changes = true)
    (haccepts : Effect.Along (World.step depth) (World.Meets depth Accepts) stmts (World.new env))
    (hdb : (stmts.foldl (World.step depth) (World.new env)).db = db) :
    RowsKeyed db ∧ IndexesConsistent db := by
  suffices hall : db.catalog.Ok ∧ RowsKeyed db ∧ Consistent db.catalog db.trees by
    obtain ⟨-, hkeyed, hconsistent⟩ := hall
    exact ⟨hkeyed, indexesConsistent_of_consistent hkeyed hconsistent⟩
  subst hdb
  refine run_keeps (I := fun db => db.catalog.Ok ∧ RowsKeyed db ∧ Consistent db.catalog db.trees)
    ⟨⟨Describes.empty, nofun⟩, nofun, nofun⟩ ?_ hchanges haccepts
  rintro o db hrooted ⟨hok, hkeyed, hconsistent⟩ hlawful haccepts
  obtain ⟨stmt, d, hd, rfl⟩ | ⟨x, rfl⟩ | hproper := hlawful
  · refine ⟨?_, rowsKeyed_createTable hrooted hkeyed d,
      consistent_createTable hrooted hconsistent haccepts⟩
    obtain ⟨-, root, hcatalog, -⟩ := db.createTable_cases d
    show (db.createTable d).2.catalog.Ok
    rw [hcatalog]
    refine Catalog.Loaded.createTable hok root
      ⟨fun column hcolumn v hv => ?_, fun hnone name x hx => ?_⟩
    · rw [default_of_astToTableDef hd hcolumn] at hv
      cases hv
    · exact haccepts hnone ⟨name, x⟩ (AList.mem_lookup_iff.mp hx)
  · refine ⟨?_, rowsKeyed_createIndex hrooted hkeyed x,
      consistent_createIndex hrooted hconsistent haccepts⟩
    obtain ⟨-, root, hcatalog, -⟩ := db.createIndex_cases x
    show (db.createIndex x).2.catalog.Ok
    rw [hcatalog]
    exact Catalog.Loaded.createIndex hok root x
  · refine ⟨?_, rowsKeyed_proper hrooted hkeyed hproper ?_,
      consistent_proper hrooted hok hconsistent hproper haccepts⟩
    · rw [catalog_of_proper hproper]
      exact hok
    · cases o with
      | setColumn => exact haccepts.1
      | _ => trivial

theorem indexes_consistent_of_accepted {env : Env} {depth : Nat} {stmts : List Statement}
    (hchanges : ∀ stmt ∈ stmts, stmt.changes = true)
    (haccepts : Effect.Along (World.step depth) (World.Meets depth Accepts) stmts
      (World.new env)) :
    IndexesConsistent (stmts.foldl (World.step depth) (World.new env)).db :=
  (consistent_of_accepted hchanges haccepts rfl).2

/-- A table with an index on its second column. -/
def indexedTable : List Statement :=
  [.createTableStmt { table := ascii "t", columns := [idColumn, intColumn "a"] },
    .createIndexStmt { index := ascii "ia", table := ascii "t", column := ascii "a" }]

/-- The definitions that are made. -/
def tableT : TableDef where
  name := ascii "t"
  rootPageID := 1
  columns := [{ name := ascii "id", type := .typeInt, primaryKey := true },
    { name := ascii "a", type := .typeInt }]
  foreignKeys := []

def indexIa : IndexDef :=
  { name := ascii "ia", tableName := ascii "t", columnName := ascii "a", unique := false,
    rootPageID := 2 }

theorem indexes_consistent_of_accepted_sample :
    IndexesConsistent ((indexedTable ++ [insertInto "t" [["1", "5"], ["2", "6"]],
      .deleteStmt { table := ascii "t" }, insertInto "t" [["1", "6"]],
      updateAll "t" "a" "7"]).foldl (World.step 1) (World.new plainEnv)).db :=
  indexes_consistent_of_accepted (by decide +kernel) (by decide +kernel)

/-- Two rows with one value in the indexed column, which is not unique. -/
def sameValueTwice : List Statement := indexedTable ++ [insertInto "t" [["1", "5"], ["2", "5"]]]

/-- The second row is stored, but the index leads to the first one. -/
theorem second_row_is_not_indexed :
    (∀ stmt ∈ sameValueTwice, stmt.changes = true) ∧
      ¬ IndexesConsistent (sameValueTwice.foldl (World.step 1) (World.new plainEnv)).db := by
  refine ⟨by decide, fun h => ?_⟩
  let row : Row := [{ intVal := 2 }, { intVal := 5 }]
  have hrow : StoredAt (sameValueTwice.foldl (World.step 1) (World.new plainEnv)).db tableT (be 8 2)
      row := ⟨0 :: (be 8 2 ++ be 8 5), by decide +kernel, by decide +kernel⟩
  obtain ⟨key, pk, hkey, ⟨i, hi, hpk⟩, hlookup⟩ := (h (ascii "ia") indexIa
    (by decide +kernel)).complete tableT 1 row (by decide +kernel) (by decide +kernel) ⟨_, hrow⟩
    (by decide +kernel)
  have hkey5 : columnKey tableT.columns 1 (row.getD 1 .null) = .ok (be 8 5) := by decide +kernel
  rw [hkey5] at hkey
  cases hkey
  have hfirst : ((sameValueTwice.foldl (World.step 1) (World.new plainEnv)).db.trees 2).lookup
      (be 8 5) = some (be 8 1) := by decide +kernel
  cases hfirst.symm.trans hlookup
  have hid : pkIndex tableT.columns = some 0 := by decide +kernel
  rw [hid] at hi
  cases hi
  revert hpk
  decide +kernel

end MySQLight.Sql
