import MySQLight.Catalog.Reopening
import MySQLight.Executor.Actions

/-!
Well-formed calls on a well-formed database.

Every table and every index has a tree of its own (`Rooted`), which is so
because a new root page is one that nothing uses. And whatever a statement
is, the calls it makes are about tables of the catalog with their indexes,
about rows as long as the table is wide, and with the keys of those rows
(`Proper`).

So what every proper call keeps, every statement keeps.
-/

namespace MySQLight.Sql

open MySQLight.Data MySQLight.Schema MySQLight.Effect MySQLight.Storage MySQLight.Txn Fallible

/-! ### Trees of their own -/

/-- A table (left) or an index (right) has its tree at the page. -/
def Owns (c : Catalog) (root : UInt32) : Bytes ⊕ Bytes → Prop
  | .inl name => ∃ d, c.tables.lookup name = some d ∧ d.rootPageID = root
  | .inr name => ∃ x, c.indexes.lookup name = some x ∧ x.rootPageID = root

/-- The definitions are found under their names, and no two of them share
a root page. -/
structure Rooted (db : Database) : Prop where
  table_name : ∀ name d, db.catalog.tables.lookup name = some d → d.name = name
  index_name : ∀ name x, db.catalog.indexes.lookup name = some x → x.name = name
  used : ∀ root o, Owns db.catalog root o → root ∈ db.roots
  apart : ∀ root o o', Owns db.catalog root o → Owns db.catalog root o' → o = o'

variable {db : Database} {d : TableDef} {R : Trees → Trees → Prop} {indexes : List IndexDef}
  {row oldRow : Row} {pk : Bytes}

theorem Rooted.lookup_name (h : Rooted db) {name : Bytes}
    (hd : db.catalog.tables.lookup name = some d) : db.catalog.tables.lookup d.name = some d := by
  rw [h.table_name name d hd, hd]

/-- Pages may have been allocated, and the trees are as before. -/
structure Grown (db db' : Database) : Prop where
  roots : ∀ r ∈ db.roots, r ∈ db'.roots
  trees : ∀ r ∈ db.roots, db'.trees r = db.trees r

/-- An empty tree that was not there before. -/
structure Fresh (db db' : Database) (root : UInt32) : Prop where
  unused : root ∉ db.roots
  used : root ∈ db'.roots
  empty : db'.trees root = .empty

namespace Database

variable {db : Database}

theorem grown_allocateNewRoot (db : Database) :
    Grown db db.allocateNewRoot.2 ∧ db.allocateNewRoot.2.catalog = db.catalog ∧
      ∀ root, db.allocateNewRoot.1 = .ok root → Fresh db db.allocateNewRoot.2 root := by
  rw [allocateNewRoot]
  cases db.env.root db.allocations with
  | error e => exact ⟨⟨fun _ h => h, fun _ _ => rfl⟩, rfl, nofun⟩
  | ok root =>
    dsimp only
    split_ifs with hused
    · exact ⟨⟨fun _ h => h, fun _ _ => rfl⟩, rfl, nofun⟩
    · rw [not_or] at hused
      refine ⟨⟨fun r hr => List.mem_cons_of_mem root hr, fun r hr => ?_⟩, rfl, fun root' h => ?_⟩
      · have hne : r ≠ root := fun h => hused.2 (h ▸ hr)
        exact Function.update_of_ne hne ..
      · cases h
        exact ⟨hused.2, List.mem_cons_self, Function.update_self ..⟩

theorem allocating_cases (db : Database) (taken : Bool)
    (call : Except Err UInt32 → Fallible Catalog CatalogErr Unit) :
    ∃ root, Grown db (db.allocating taken call).2 ∧
      (db.allocating taken call).2.catalog = ((call root).run db.catalog).2 ∧
      (taken = false → ∀ r, root = .ok r → Fresh db (db.allocating taken call).2 r) := by
  obtain ⟨hgrown, -, hfresh⟩ := grown_allocateNewRoot db
  refine ⟨db.allocateNewRoot.1, ?_⟩
  cases taken with
  | true => exact ⟨⟨fun _ h => h, fun _ _ => rfl⟩, rfl, nofun⟩
  | false =>
    refine ⟨⟨hgrown.roots, hgrown.trees⟩, rfl, fun _ r hr => ?_⟩
    obtain ⟨hunused, hused, hempty⟩ := hfresh r hr
    exact ⟨hunused, hused, hempty⟩

/-- A new table, or nothing. -/
theorem createTable_cases (db : Database) (d : TableDef) :
    Grown db (db.createTable d).2 ∧ ∃ root,
      (db.createTable d).2.catalog = db.catalog.step (.createTable root d) ∧
      (db.catalog.step (.createTable root d) = db.catalog ∨ ∃ pageID tree,
        db.catalog.tables.lookup d.name = none ∧ Fresh db (db.createTable d).2 pageID ∧
        db.catalog.step (.createTable root d) =
          { db.catalog with
            tree := tree
            tables := db.catalog.tables.insert d.name { d with rootPageID := pageID }
            tableIndexes := db.catalog.tableIndexes.insert d.name [] }) := by
  obtain ⟨root, hgrown, hcatalog, hfresh⟩ :=
    db.allocating_cases (db.catalog.tables.lookup d.name).isSome fun root =>
      Catalog.createTable root d
  refine ⟨hgrown, root, hcatalog, ?_⟩
  obtain hsame | ⟨pageID, tree, hroot, -, hnone, heq⟩ :=
    Catalog.step_createTable db.catalog root d
  · exact .inl hsame
  · exact .inr ⟨pageID, tree, hnone, hfresh (by rw [hnone]; rfl) pageID hroot, heq⟩

/-- A new index, or nothing. -/
theorem createIndex_cases (db : Database) (x : IndexDef) :
    Grown db (db.createIndex x).2 ∧ ∃ root,
      (db.createIndex x).2.catalog = db.catalog.step (.createIndex root x) ∧
      (db.catalog.step (.createIndex root x) = db.catalog ∨ ∃ pageID tree,
        db.catalog.indexes.lookup x.name = none ∧ Fresh db (db.createIndex x).2 pageID ∧
        db.catalog.step (.createIndex root x) =
          { db.catalog with
            tree := tree
            indexes := db.catalog.indexes.insert x.name { x with rootPageID := pageID }
            tableIndexes := db.catalog.tableIndexes.insert x.tableName
              (db.catalog.indexNames x.tableName ++ [x.name]) }) := by
  obtain ⟨root, hgrown, hcatalog, hfresh⟩ :=
    db.allocating_cases (db.catalog.indexes.lookup x.name).isSome fun root =>
      Catalog.createIndex root x
  refine ⟨hgrown, root, hcatalog, ?_⟩
  obtain hsame | ⟨pageID, tree, hroot, -, hnone, heq⟩ :=
    Catalog.step_createIndex db.catalog root x
  · exact .inl hsame
  · exact .inr ⟨pageID, tree, hnone, hfresh (by rw [hnone]; rfl) pageID hroot, heq⟩

end Database

namespace Rooted

variable {db db' : Database}

/-- Definitions may go, and pages may come. -/
theorem mono (h : Rooted db)
    (htables : ∀ name d, db'.catalog.tables.lookup name = some d →
      db.catalog.tables.lookup name = some d)
    (hindexes : ∀ name x, db'.catalog.indexes.lookup name = some x →
      db.catalog.indexes.lookup name = some x)
    (hroots : ∀ r ∈ db.roots, r ∈ db'.roots) : Rooted db' := by
  have howns : ∀ root o, Owns db'.catalog root o → Owns db.catalog root o := by
    rintro root (name | name) ⟨d, hd, hroot⟩
    · exact ⟨d, htables name d hd, hroot⟩
    · exact ⟨d, hindexes name d hd, hroot⟩
  exact {
    table_name := fun name d hd => h.table_name name d (htables name d hd)
    index_name := fun name x hx => h.index_name name x (hindexes name x hx)
    used := fun root o ho => hroots root (h.used root o (howns root o ho))
    apart := fun root o o' ho ho' => h.apart root o o' (howns root o ho) (howns root o' ho') }

theorem of_catalog (h : Rooted db) (hcatalog : db'.catalog = db.catalog)
    (hroots : ∀ r ∈ db.roots, r ∈ db'.roots) : Rooted db' :=
  h.mono (fun _ _ hd => hcatalog ▸ hd) (fun _ _ hx => hcatalog ▸ hx) hroots

/-- A definition that is new has a page that nothing uses. -/
theorem add (h : Rooted db) (hgrown : Grown db db') {pageID : UInt32} (new : Bytes ⊕ Bytes)
    (hfresh : Fresh db db' pageID)
    (htables : ∀ name d, db'.catalog.tables.lookup name = some d →
      (d.name = name ∧ d.rootPageID = pageID ∧ new = .inl name) ∨
        db.catalog.tables.lookup name = some d)
    (hindexes : ∀ name x, db'.catalog.indexes.lookup name = some x →
      (x.name = name ∧ x.rootPageID = pageID ∧ new = .inr name) ∨
        db.catalog.indexes.lookup name = some x) : Rooted db' := by
  have howns : ∀ root o, Owns db'.catalog root o →
      (root = pageID ∧ o = new) ∨ Owns db.catalog root o := by
    rintro root (name | name) ⟨d, hd, rfl⟩
    · obtain ⟨-, hroot, hnew⟩ | hold := htables name d hd
      · exact .inl ⟨hroot, hnew.symm⟩
      · exact .inr ⟨d, hold, rfl⟩
    · obtain ⟨-, hroot, hnew⟩ | hold := hindexes name d hd
      · exact .inl ⟨hroot, hnew.symm⟩
      · exact .inr ⟨d, hold, rfl⟩
  refine ⟨fun name d hd => ?_, fun name x hx => ?_, fun root o ho => ?_, fun root o o' ho ho' => ?_⟩
  · obtain ⟨hname, -⟩ | hold := htables name d hd
    · exact hname
    · exact h.table_name name d hold
  · obtain ⟨hname, -⟩ | hold := hindexes name x hx
    · exact hname
    · exact h.index_name name x hold
  · obtain ⟨rfl, -⟩ | hold := howns root o ho
    · exact hfresh.used
    · exact hgrown.roots root (h.used root o hold)
  · obtain ⟨rfl, rfl⟩ | hold := howns root o ho <;> obtain ⟨hroot, hnew⟩ | hold' :=
      howns root o' ho'
    · exact hnew.symm
    · exact absurd (h.used root o' hold') hfresh.unused
    · exact absurd (h.used root o hold) (hroot ▸ hfresh.unused)
    · exact h.apart root o o' hold hold'

theorem createTable (h : Rooted db) (d : TableDef) : Rooted (db.createTable d).2 := by
  obtain ⟨hgrown, root, hcatalog, hsame | ⟨pageID, tree, -, hfresh, heq⟩⟩ := db.createTable_cases d
  · exact h.of_catalog (hcatalog.trans hsame) hgrown.roots
  · rw [heq] at hcatalog
    refine h.add hgrown (.inl d.name) hfresh (fun name d' hd' => ?_) fun name x hx => ?_
    · rw [hcatalog] at hd'
      by_cases hname : name = d.name
      · subst hname
        rw [AList.lookup_insert] at hd'
        cases hd'
        exact .inl ⟨rfl, rfl, rfl⟩
      · rw [AList.lookup_insert_ne hname] at hd'
        exact .inr hd'
    · rw [hcatalog] at hx
      exact .inr hx

theorem createIndex (h : Rooted db) (x : IndexDef) : Rooted (db.createIndex x).2 := by
  obtain ⟨hgrown, root, hcatalog, hsame | ⟨pageID, tree, -, hfresh, heq⟩⟩ := db.createIndex_cases x
  · exact h.of_catalog (hcatalog.trans hsame) hgrown.roots
  · rw [heq] at hcatalog
    refine h.add hgrown (.inr x.name) hfresh (fun name d hd => ?_) fun name x' hx' => ?_
    · rw [hcatalog] at hd
      exact .inr hd
    · rw [hcatalog] at hx'
      by_cases hname : name = x.name
      · subst hname
        rw [AList.lookup_insert] at hx'
        cases hx'
        exact .inl ⟨rfl, rfl, rfl⟩
      · rw [AList.lookup_insert_ne hname] at hx'
        exact .inr hx'

theorem handler (h : Rooted db) (o : DbOp) : Rooted (Database.handler o db).2 := by
  cases o with
  | createTable d => exact h.createTable d
  | createIndex x => exact h.createIndex x
  | dropTable name =>
    obtain ⟨htables, hindexes⟩ := Catalog.shrinks_dropTable name db.catalog
    exact h.mono htables hindexes fun _ hr => hr
  | dropIndex name =>
    obtain ⟨htables, hindexes⟩ := Catalog.shrinks_dropIndex name db.catalog
    exact h.mono htables hindexes fun _ hr => hr
  | beginTxn =>
    rw [Database.handler]
    split_ifs <;> exact h.of_catalog rfl fun _ hr => hr
  | commitTxn txnID =>
    rw [Database.handler]
    split_ifs <;> exact h.of_catalog rfl fun _ hr => hr
  | rollbackTxn txnID =>
    rw [Database.handler]
    split_ifs <;> exact h.of_catalog rfl fun _ hr => hr
  | _ => exact h.of_catalog rfl fun _ hr => hr

theorem new (env : Env) : Rooted (.new env) where
  table_name := nofun
  index_name := nofun
  used := by
    rintro root (name | name) ⟨d, hd, -⟩
    · cases hd
    · cases hd
  apart := by
    rintro root (name | name) o' ⟨d, hd, -⟩
    · cases hd
    · cases hd

end Rooted

/-! ### Writes, tree by tree -/

section Trees

variable {R : Trees → Trees → Prop} [Std.Refl R] {root : UInt32} {key value : Bytes}
  {wrap : Err → ExecErr}

theorem keeps_treeInsert
    (h : ∀ trees tree, (trees root).insert key value = .ok tree →
      R trees (Function.update trees root tree)) :
    Keeps R (treeInsert root key value wrap) := by
  refine .get_bind fun trees => ?_
  cases hinsert : (trees root).insert key value with
  | error e => exact refl_of R trees
  | ok tree => exact h trees tree hinsert

theorem keeps_treeDelete
    (h : ∀ trees tree, (trees root).delete key = .ok tree →
      R trees (Function.update trees root tree)) :
    Keeps R (treeDelete root key wrap) := by
  refine .get_bind fun trees => ?_
  cases hdelete : (trees root).delete key with
  | error e => exact refl_of R trees
  | ok tree => exact h trees tree hdelete

theorem keeps_keyOr (wrap : KeyErr → ExecErr) (r : Except KeyErr Bytes) :
    Keeps R (keyOr wrap r) := by
  cases r with
  | error e => exact .throw _
  | ok bytes => exact .pure bytes

end Trees

/-- A row write keeps what its changes to the data tree and to the index
trees keep. -/
theorem keeps_insertRow [Std.Refl R] [IsTrans Trees R]
    (hdata : Keeps R (treeInsert d.rootPageID pk (encodeRow row d.columns) .insertingRow))
    (hinsert : ∀ x ∈ indexes, ∀ key value wrap, Keeps R (treeInsert x.rootPageID key value wrap)) :
    Keeps R (insertRow d indexes row pk) := by
  refine .bind hdata fun _ => .forEach_mem fun x hx => ?_
  split
  · exact .pure _
  · exact .bind (keeps_keyOr _ _) fun key => hinsert x hx key pk _

theorem keeps_updateRow [Std.Refl R] [IsTrans Trees R] {newRow : Row} {oldPK newPK : Bytes}
    (hdelete : Keeps R (treeDelete d.rootPageID oldPK .deletingOldRow))
    (hdata : Keeps R
      (treeInsert d.rootPageID newPK (encodeRow newRow d.columns) .insertingUpdatedRow))
    (hremove : ∀ x ∈ indexes, ∀ key wrap, Keeps R (treeDelete x.rootPageID key wrap))
    (hinsert : ∀ x ∈ indexes, ∀ key value wrap, Keeps R (treeInsert x.rootPageID key value wrap)) :
    Keeps R (updateRow d indexes oldRow newRow oldPK newPK) := by
  refine .bind hdelete fun _ => .bind hdata fun _ => .forEach_mem fun x hx => ?_
  split
  · exact .pure _
  · exact .bind (keeps_keyOr _ _) fun oldKey => .bind (keeps_keyOr _ _) fun newKey =>
      .bind (hremove x hx oldKey _) fun _ => hinsert x hx newKey newPK _

/-- A deleted row leaves the data tree first. -/
theorem deleteRow_eq [Std.Refl R] [IsTrans Trees R]
    (hremove : ∀ x ∈ indexes, ∀ key wrap, Keeps R (treeDelete x.rootPageID key wrap)) :
    ∃ rest, deleteRow d indexes row pk =
        treeDelete d.rootPageID pk (.deletingRow d.name) >>= rest ∧ Keeps R (rest ()) := by
  refine ⟨_, rfl, .forEach_mem fun x hx => ?_⟩
  split
  · exact .pure _
  · exact .bind (keeps_keyOr _ _) fun key => hremove x hx key _

theorem keeps_deleteRow [Std.Refl R] [IsTrans Trees R]
    (hdata : Keeps R (treeDelete d.rootPageID pk (.deletingRow d.name)))
    (hremove : ∀ x ∈ indexes, ∀ key wrap, Keeps R (treeDelete x.rootPageID key wrap)) :
    Keeps R (deleteRow d indexes row pk) := by
  obtain ⟨rest, heq, hrest⟩ := deleteRow_eq hremove
  rw [heq]
  exact .bind hdata fun _ => hrest

/-- A row that is changed leaves the data tree first. -/
theorem setColumn_eq [Std.Refl R] [IsTrans Trees R] {column : Bytes} {i : Nat} {newValue : Value}
    (hdata : Keeps R
      (treeInsert d.rootPageID pk (encodeRow (oldRow.set i newValue) d.columns) .storage))
    (hremove : ∀ x ∈ indexes, ∀ key wrap, Keeps R (treeDelete x.rootPageID key wrap))
    (hinsert : ∀ x ∈ indexes, ∀ key value wrap, Keeps R (treeInsert x.rootPageID key value wrap)) :
    ∃ rest, setColumn d indexes column i oldRow newValue pk =
        treeDelete d.rootPageID pk .storage >>= rest ∧ Keeps R (rest ()) := by
  refine ⟨_, rfl, .bind hdata fun _ => .forEach_mem fun x hx => ?_⟩
  split_ifs
  · exact .bind (keeps_keyOr _ _) fun oldKey => .bind (hremove x hx oldKey _) fun _ => .pure _
  · exact .bind (keeps_keyOr _ _) fun oldKey => .bind (hremove x hx oldKey _) fun _ =>
      .bind (keeps_keyOr _ _) fun newKey => hinsert x hx newKey pk _
  · exact .pure _

theorem keeps_setColumn [Std.Refl R] [IsTrans Trees R] {column : Bytes} {i : Nat} {newValue : Value}
    (hdelete : Keeps R (treeDelete d.rootPageID pk .storage))
    (hdata : Keeps R
      (treeInsert d.rootPageID pk (encodeRow (oldRow.set i newValue) d.columns) .storage))
    (hremove : ∀ x ∈ indexes, ∀ key wrap, Keeps R (treeDelete x.rootPageID key wrap))
    (hinsert : ∀ x ∈ indexes, ∀ key value wrap, Keeps R (treeInsert x.rootPageID key value wrap)) :
    Keeps R (setColumn d indexes column i oldRow newValue pk) := by
  obtain ⟨rest, heq, hrest⟩ := setColumn_eq hdata hremove hinsert
  rw [heq]
  exact .bind hdelete fun _ => hrest

/-! ### Proper calls -/

/-- The calls a statement may make that reads only the tables `reads` and
writes only the tables `writes`. -/
def Proper (reads writes : Bytes → Prop) : DbOp → Database → Prop
  | .getTable _, _ | .indexesForTable _, _ | .listTables, _ | .acquire .., _ => True
  | .scan d, db => db.catalog.tables.lookup d.name = some d ∧ reads d.name
  | .insertRow d indexes row key, db =>
    Target db d indexes ∧ writes d.name ∧ row.length = d.columns.length ∧ KeyOf d row key ∧
      checkNotNull d.columns row = .ok ()
  | .updateRow d indexes oldRow newRow oldPK newPK, db =>
    Target db d indexes ∧ writes d.name ∧ oldRow.length = d.columns.length ∧
      newRow.length = d.columns.length ∧ KeyOf d oldRow oldPK ∧ KeyOf d newRow newPK ∧
      checkNotNull d.columns newRow = .ok ()
  | .deleteRow d indexes row key, db =>
    Target db d indexes ∧ writes d.name ∧ row.length = d.columns.length ∧ KeyOf d row key
  | .setColumn d indexes column i oldRow newValue key, db =>
    Target db d indexes ∧ writes d.name ∧ oldRow.length = d.columns.length ∧
      KeyOf d oldRow key ∧ colIndex d.columns column = some i ∧
      (newValue.isNull = true → ∀ c, d.columns[i]? = some c → c.notNull = false)
  | _, _ => False

theorem asks_proper (reads writes : Bytes → Prop) : Asks (Proper reads writes) where
  getTable _ _ := trivial
  indexesForTable _ _ := trivial
  listTables _ := trivial

/-! ### The calls of a statement -/

theorem catalog_locked (s : Session) (table : Bytes) (mode : LockMode) (db : Database) :
    (locked s table mode db).catalog = db.catalog := by
  rw [locked]
  split <;> rfl

theorem trees_locked (s : Session) (table : Bytes) (mode : LockMode) (db : Database) :
    (locked s table mode db).trees = db.trees := by
  rw [locked]
  split <;> rfl

theorem upheld_proper {reads writes : Bytes → Prop} {c : Catalog}
    (hname : ∀ name d, c.tables.lookup name = some d → d.name = name) :
    Upheld c (Proper reads writes) reads writes (fun d row => row.length = d.columns.length)
      (fun t => t.catalog = c) where
  asks := asks_proper reads writes
  name := hname
  catalog _ ht := ht
  tick _ ht := ht
  scan _ _ _ hd hread := ⟨hd, hread⟩
  read _ _ _ _ _ hstored := ⟨length_of_stored hstored, length_of_stored hstored⟩
  delete _ _ _ _ _ ht htarget hwrite hkey hrow := ⟨⟨htarget, hwrite, hrow, hkey⟩, ht⟩
  set _ _ _ _ _ _ _ _ ht htarget hwrite hkey hi hnull _ hrow :=
    ⟨⟨htarget, hwrite, hrow, hkey, hi, hnull⟩, ht⟩
  acquire _ _ _ _ := trivial
  locked s table t ht := (catalog_locked s table .lockExclusive t).trans ht
  insert _ _ _ _ _ ht htarget hwrite hkey hlen hnull :=
    ⟨⟨htarget, hwrite, hlen, hkey, hnull⟩, ht⟩
  update _ _ _ _ _ _ _ ht htarget hwrite hold hnew hlen hlen' hnull :=
    ⟨⟨htarget, hwrite, hlen, hlen', hold, hnew, hnull⟩, ht⟩

section Statements

variable {reads writes : Bytes → Prop} {db : Database}

theorem along_of_proper {α : Type} {x : Exec α} {s : Session}
    (h : Proc.wp (Database.checked (fun _ _ => True) (Proper reads writes)) x
      (fun _ _ t' => t'.catalog = db.catalog) s db) :
    Prog.Along Database.handler (Proper reads writes) (x s) db :=
  (Prog.along_of_wp h (Prog.along_true _ _ _)).1

variable (hrooted : Rooted db)

include hrooted

theorem proper_executeInsert {statement : InsertStmt} (hwrite : writes statement.table)
    (hparents : ∀ d, db.catalog.tables.lookup statement.table = some d →
      ∀ fk ∈ d.foreignKeys, reads fk.refTable) (s : Session) :
    Prog.Along Database.handler (Proper reads writes) (executeInsert statement s) db :=
  along_of_proper ((upheld_proper hrooted.table_name).executeInsert hwrite hparents rfl)

theorem proper_executeUpdate {statement : UpdateStmt} (hread : reads statement.table)
    (hwrite : writes statement.table)
    (hparents : ∀ d, db.catalog.tables.lookup statement.table = some d →
      ∀ fk ∈ d.foreignKeys, reads fk.refTable)
    (hchildren : ∀ name child, db.catalog.tables.lookup name = some child →
      ∀ fk ∈ child.foreignKeys, fk.refTable = statement.table → reads name ∧ writes name)
    (s : Session) :
    Prog.Along Database.handler (Proper reads writes) (executeUpdate statement s) db :=
  along_of_proper ((upheld_proper hrooted.table_name).executeUpdate hread hwrite hparents
    (fun child => hchildren child.name child) rfl)

theorem proper_executeDelete {statement : DeleteStmt} (hread : reads statement.table)
    (hwrite : writes statement.table)
    (hclosed : ∀ name child, db.catalog.tables.lookup name = some child →
      ∀ fk ∈ child.foreignKeys, writes fk.refTable → reads name ∧ writes name)
    (depth : Nat) (s : Session) :
    Prog.Along Database.handler (Proper reads writes) (executeDelete depth statement s) db :=
  along_of_proper ((upheld_proper hrooted.table_name).executeDelete hread hwrite
    (fun child => hclosed child.name child) depth rfl)

end Statements

/-! ### Runs -/

/-- The statements that define tables and indexes and change rows. -/
def Statement.changes : Statement → Bool
  | .createTableStmt _ | .createIndexStmt _ | .insertStmt _ | .updateStmt _ | .deleteStmt _ => true
  | _ => false

/-- The calls of such statements. -/
def Lawful (o : DbOp) (db : Database) : Prop :=
  (∃ stmt d, astToTableDef stmt = .ok d ∧ o = .createTable d) ∨ (∃ x, o = .createIndex x) ∨
    Proper (fun _ => True) (fun _ => True) o db

/-- What follows a procedure without a call does not matter. -/
theorem along_bind_pure {α β : Type} {φ : DbOp → Database → Prop} {x : Exec α} {b : β} {s : Session}
    (h : Prog.Along Database.handler φ (x s) db) :
    Prog.Along Database.handler φ ((x >>= fun _ => pure b) s) db := by
  rw [Proc.bind_eq, Prog.along_bind]
  refine ⟨h, ?_⟩
  split <;> trivial

theorem lawful_execute (hrooted : Rooted db) {stmt : Statement} (h : stmt.changes = true)
    (depth : Nat) (s : Session) : Prog.Along Database.handler Lawful (execute depth stmt s) db := by
  have hproper : ∀ o db, Proper (fun _ => True) (fun _ => True) o db → Lawful o db :=
    fun _ _ h => .inr (.inr h)
  cases stmt with
  | createTableStmt stmt =>
    rw [execute]
    cases hd : astToTableDef stmt with
    | error e => trivial
    | ok d =>
      refine ⟨.inl ⟨stmt, d, hd, rfl⟩, ?_⟩
      show Prog.Along _ _ (ddl (Database.handler (.createTable d) db).1 s) _
      cases (Database.handler (.createTable d) db).1 <;> trivial
  | createIndexStmt stmt =>
    refine ⟨.inr (.inl ⟨_, rfl⟩), ?_⟩
    show Prog.Along _ _ (ddl (Database.handler (.createIndex _) db).1 s) _
    cases (Database.handler (.createIndex _) db).1 <;> trivial
  | insertStmt stmt =>
    exact (along_bind_pure (proper_executeInsert hrooted trivial (fun _ _ _ _ => trivial) s)).mono
      hproper
  | updateStmt stmt =>
    exact (along_bind_pure (proper_executeUpdate hrooted trivial trivial
      (fun _ _ _ _ => trivial) (fun _ _ _ _ _ _ => ⟨trivial, trivial⟩) s)).mono hproper
  | deleteStmt stmt =>
    exact (along_bind_pure (proper_executeDelete hrooted trivial trivial
      (fun _ _ _ _ _ _ => ⟨trivial, trivial⟩) depth s)).mono hproper
  | _ => cases h

/-- The calls of a statement meet a condition, if it is executed at all. -/
def World.Meets (depth : Nat) (A : DbOp → Database → Prop) (w : World) (stmt : Statement) : Prop :=
  w.stopped = false → Prog.Along Database.handler A (execute depth stmt w.session) w.db

instance (depth : Nat) (A : DbOp → Database → Prop) [∀ o db, Decidable (A o db)] (w : World)
    (stmt : Statement) : Decidable (w.Meets depth A stmt) :=
  inferInstanceAs (Decidable (w.stopped = false → _))

theorem World.rooted_step (depth : Nat) {w : World} (h : Rooted w.db) (stmt : Statement) :
    Rooted (w.step depth stmt).db := by
  rw [World.step]
  split_ifs
  · exact h
  · exact Prog.run_invariant (J := Rooted) (fun o _ h _ => h.handler o) h (Prog.along_true _ _ _)

/-- What every lawful call that meets a condition keeps, every run keeps
whose calls meet it. -/
theorem run_keeps {I : Database → Prop} {A : DbOp → Database → Prop} {env : Env}
    (hnew : I (.new env))
    (hstep : ∀ o db, Rooted db → I db → Lawful o db → A o db → I (Database.handler o db).2)
    {depth : Nat} {stmts : List Statement} (hchanges : ∀ stmt ∈ stmts, stmt.changes = true)
    (hmeets : Effect.Along (World.step depth) (World.Meets depth A) stmts (World.new env)) :
    I (stmts.foldl (World.step depth) (World.new env)).db := by
  -- One statement: both conditions hold along its calls, and a call keeps both parts.
  have hstmt : ∀ (w : World) (stmt : Statement), Rooted w.db ∧ I w.db →
      w.Meets depth A stmt ∧ stmt.changes = true →
      Rooted (w.step depth stmt).db ∧ I (w.step depth stmt).db := by
    rintro w stmt hw ⟨hmeets, hchanges⟩
    rw [World.step]
    split_ifs with hstopped
    · exact hw
    · have halong := (hmeets (Bool.eq_false_iff.mpr hstopped)).and
        (lawful_execute hw.1 hchanges depth w.session)
      refine Prog.run_invariant (J := fun db => Rooted db ∧ I db) (fun o db hdb ho => ?_) hw halong
      exact ⟨hdb.1.handler o, hstep o db hdb.1 hdb.2 ho.2 ho.1⟩
  have hall : Effect.Along (World.step depth) (fun _ stmt => stmt.changes = true) stmts
      (World.new env) := Effect.Along.of_forall (fun stmt hmem _ => hchanges stmt hmem) _
  exact (Effect.Along.invariant (J := fun w => Rooted w.db ∧ I w.db) hstmt ⟨Rooted.new env, hnew⟩
    (hmeets.and hall)).2

end MySQLight.Sql
