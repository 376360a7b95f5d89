import MySQLight.Executor.WellFormed

/-!
What holds for every entry of every table.

A table has its tree for itself, so a row write changes the entries of its own
table only, and there it adds the row that it writes. What holds for the rows
that are written therefore holds for all that is stored.
-/

namespace MySQLight.Sql

open MySQLight.Data MySQLight.Schema MySQLight.Effect MySQLight.Storage Fallible

/-- The indexes of a table are indexes of the catalog. -/
theorem lookup_of_indexesForTable {c : Catalog} {table : Bytes} {indexes : List IndexDef}
    (h : c.indexesForTable table = .ok indexes) {x : IndexDef} (hx : x ∈ indexes) :
    ∃ name ∈ c.indexNames table, c.indexes.lookup name = some x := by
  rw [Catalog.indexesForTable] at h
  cases hnames : c.tableIndexes.lookup table with
  | none =>
    rw [hnames] at h
    cases h
  | some names =>
    rw [hnames] at h
    obtain ⟨name, hname, heq⟩ := exists_of_forall₂ (forall₂_of_mapM_ok h) hx
    refine ⟨name, ?_, ?_⟩
    · rwa [Catalog.indexNames, hnames]
    · cases hlookup : c.indexes.lookup name with
      | none =>
        rw [hlookup] at heq
        cases heq
      | some x' =>
        rw [hlookup] at heq
        cases heq
        rfl

namespace Rooted

variable {db : Database} (h : Rooted db)

include h

/-- Two tables with one page are one table. -/
theorem eq_of_root {name : Bytes} {d d' : TableDef} (hd : db.catalog.tables.lookup d.name = some d)
    (hd' : db.catalog.tables.lookup name = some d') (hroot : d'.rootPageID = d.rootPageID) :
    d' = d := by
  have hname := h.apart d.rootPageID (.inl name) (.inl d.name) ⟨d', hd', hroot⟩ ⟨d, hd, rfl⟩
  cases hname
  rw [hd] at hd'
  exact (Option.some.inj hd').symm

/-- The tree of an index is no table's. -/
theorem root_ne_of_index {d : TableDef} {indexes : List IndexDef} (htarget : Target db d indexes)
    {x : IndexDef} (hx : x ∈ indexes) {name : Bytes} {d' : TableDef}
    (hd' : db.catalog.tables.lookup name = some d') : d'.rootPageID ≠ x.rootPageID := by
  intro hroot
  obtain ⟨name', -, hx'⟩ := lookup_of_indexesForTable htarget.indexes hx
  cases h.apart x.rootPageID (.inl name) (.inr name') ⟨d', hd', hroot⟩ ⟨x, hx', rfl⟩

end Rooted

/-- Every entry of every table's tree is as `P` says. -/
def Entries (P : TableDef → Bytes → Bytes → Prop) (c : Catalog) (trees : Trees) : Prop :=
  ∀ name d, c.tables.lookup name = some d → ∀ key value,
    (trees d.rootPageID).lookup key = some value → P d key value

section Trees

variable {P : TableDef → Bytes → Bytes → Prop} {c : Catalog} {root : UInt32} {key value : Bytes}
  {wrap : Err → ExecErr}

theorem entries_update {trees : Trees} {tree : OrderedTree}
    (h : ∀ name d, c.tables.lookup name = some d → d.rootPageID = root → ∀ key value,
      tree.lookup key = some value → (trees root).lookup key = some value ∨ P d key value)
    (htrees : Entries P c trees) : Entries P c (Function.update trees root tree) := by
  intro name d hd key value hlookup
  by_cases hroot : d.rootPageID = root
  · rw [hroot, Function.update_self] at hlookup
    obtain hold | hnew := h name d hd hroot key value hlookup
    · exact htrees name d hd key value (hroot ▸ hold)
    · exact hnew
  · rw [Function.update_of_ne hroot] at hlookup
    exact htrees name d hd key value hlookup

theorem entries_treeDelete :
    Keeps (Preserving (Entries P c)) (treeDelete root key wrap) := by
  refine keeps_treeDelete fun trees tree hdelete => entries_update fun _ _ _ _ key' value h => ?_
  rw [(OrderedTree.delete_eq_ok.mp hdelete).2, OrderedTree.lookup_unbind] at h
  split_ifs at h
  exact .inl h

/-- An entry in a tree that belongs to no table. -/
theorem entries_treeInsert_index (hroot : ∀ name d, c.tables.lookup name = some d →
    d.rootPageID ≠ root) :
    Keeps (Preserving (Entries P c)) (treeInsert root key value wrap) :=
  keeps_treeInsert fun _ _ _ => entries_update fun name d hd h => absurd h (hroot name d hd)

/-- An entry of a table that has its tree for itself. -/
theorem entries_treeInsert {d : TableDef}
    (hroot : ∀ name d', c.tables.lookup name = some d' → d'.rootPageID = d.rootPageID → d' = d)
    (hentry : BTree.entrySize key value ≤ entryCap → P d key value) :
    Keeps (Preserving (Entries P c))
      (treeInsert d.rootPageID key value wrap) := by
  refine keeps_treeInsert fun trees tree hinsert =>
    entries_update fun name d' hd' hd key' value' hlookup => ?_
  obtain ⟨hfits, -, rfl⟩ := OrderedTree.insert_eq_ok.mp hinsert
  rw [OrderedTree.lookup_bind] at hlookup
  split_ifs at hlookup with hsame
  · cases hlookup
    rw [hroot name d' hd' hd, hsame]
    exact .inr (hentry hfits)
  · exact .inl hlookup

end Trees

section Calls

variable {P : TableDef → Bytes → Bytes → Prop} {db : Database} (hrooted : Rooted db)
  (h : Entries P db.catalog db.trees) {d : TableDef} {indexes : List IndexDef}
  (htarget : Target db d indexes) {row : Row} {key : Bytes}

include hrooted h

section Rows

include htarget

theorem entries_insertRow (hentry : BTree.entrySize key (encodeRow row d.columns) ≤ entryCap →
      P d key (encodeRow row d.columns)) :
    Entries P db.catalog (Database.handler (.insertRow d indexes row key) db).2.trees := by
  refine keeps_insertRow (R := Preserving (Entries P db.catalog)) ?_ ?_ db.trees h
  · exact entries_treeInsert (fun _ _ => hrooted.eq_of_root htarget.table) hentry
  · exact fun x hx _ _ _ =>
      entries_treeInsert_index fun _ _ => hrooted.root_ne_of_index htarget hx

theorem entries_updateRow {oldRow : Row} {oldPK : Bytes}
    (hentry : BTree.entrySize key (encodeRow row d.columns) ≤ entryCap →
      P d key (encodeRow row d.columns)) :
    Entries P db.catalog
      (Database.handler (.updateRow d indexes oldRow row oldPK key) db).2.trees := by
  refine keeps_updateRow (R := Preserving (Entries P db.catalog)) entries_treeDelete ?_
    (fun _ _ _ _ => entries_treeDelete) ?_ db.trees h
  · exact entries_treeInsert (fun _ _ => hrooted.eq_of_root htarget.table) hentry
  · exact fun x hx _ _ _ =>
      entries_treeInsert_index fun _ _ => hrooted.root_ne_of_index htarget hx

theorem entries_setColumn {column : Bytes} {i : Nat} {v : Value}
    (hentry : BTree.entrySize key (encodeRow (row.set i v) d.columns) ≤ entryCap →
      P d key (encodeRow (row.set i v) d.columns)) :
    Entries P db.catalog
      (Database.handler (.setColumn d indexes column i row v key) db).2.trees := by
  refine keeps_setColumn (R := Preserving (Entries P db.catalog)) entries_treeDelete ?_
    (fun _ _ _ _ => entries_treeDelete) ?_ db.trees h
  · exact entries_treeInsert (fun _ _ => hrooted.eq_of_root htarget.table) hentry
  · exact fun x hx _ _ _ =>
      entries_treeInsert_index fun _ _ => hrooted.root_ne_of_index htarget hx

end Rows

omit hrooted in
theorem entries_deleteRow (d : TableDef) (indexes : List IndexDef) (row : Row) (key : Bytes) :
    Entries P db.catalog (Database.handler (.deleteRow d indexes row key) db).2.trees :=
  keeps_deleteRow (R := Preserving (Entries P db.catalog)) entries_treeDelete
    (fun _ _ _ _ => entries_treeDelete) db.trees h

/-- A new table is empty. -/
theorem entries_createTable (d : TableDef) :
    Entries P (db.createTable d).2.catalog (db.createTable d).2.trees := by
  obtain ⟨hgrown, root, hcatalog, hcase⟩ := db.createTable_cases d
  intro name d' hd' key value hlookup
  rw [hcatalog] at hd'
  have hold : db.catalog.tables.lookup name = some d' → P d' key value := by
    intro hd'
    rw [hgrown.trees _ (hrooted.used _ (.inl name) ⟨d', hd', rfl⟩)] at hlookup
    exact h name d' hd' key value hlookup
  obtain hsame | ⟨pageID, tree, -, hfresh, heq⟩ := hcase
  · rw [hsame] at hd'
    exact hold hd'
  · rw [heq] at hd'
    by_cases hname : name = d.name
    · subst hname
      rw [AList.lookup_insert] at hd'
      cases hd'
      rw [hfresh.empty] at hlookup
      cases hlookup
    · rw [AList.lookup_insert_ne hname] at hd'
      exact hold hd'

theorem entries_createIndex (x : IndexDef) :
    Entries P (db.createIndex x).2.catalog (db.createIndex x).2.trees := by
  obtain ⟨hgrown, root, hcatalog, hcase⟩ := db.createIndex_cases x
  intro name d hd key value hlookup
  have hold : db.catalog.tables.lookup name = some d := by
    rw [hcatalog] at hd
    obtain hsame | ⟨pageID, tree, -, -, heq⟩ := hcase
    · rwa [hsame] at hd
    · rwa [heq] at hd
  rw [hgrown.trees _ (hrooted.used _ (.inl name) ⟨d, hold, rfl⟩)] at hlookup
  exact h name d hold key value hlookup

end Calls

end MySQLight.Sql
