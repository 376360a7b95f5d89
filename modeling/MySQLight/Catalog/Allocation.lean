import MySQLight.Catalog.Reopening

/-!
The root pages of tables and indexes.

`CreateTable` and `CreateIndex` take a page for the root before they put the
definition into the tree, where tables and indexes share the keys. When the
tree refuses the definition, nobody gives the page back.
-/

namespace MySQLight.Schema

open MySQLight.Data MySQLight.Effect MySQLight.Storage

/-- What becomes of `AllocateNewRoot`: a page is ready, there is no page, or
there is one that does not get a frame of the pool. -/
inductive NewRoot
  | ready (pageID : UInt32)
  | noPage (e : Err)
  | noFrame (pageID : UInt32) (e : Err)

namespace NewRoot

def result : NewRoot → Except Err UInt32
  | .ready pageID => .ok pageID
  | .noPage e | .noFrame _ e => .error e

/-- The page that has been taken from the file. -/
def pages : NewRoot → List UInt32
  | .ready pageID | .noFrame pageID _ => [pageID]
  | .noPage _ => []

end NewRoot

/-- The catalog, and the pages that have been allocated as roots and not been
freed since. -/
structure Allocated where
  catalog : Catalog
  roots : List UInt32

namespace Allocated

def onCatalog {α : Type} : Fallible Catalog CatalogErr α → Fallible Allocated CatalogErr α :=
  .zoom catalog fun s c => { s with catalog := c }

def allocateNewRoot (root : NewRoot) : Fallible Allocated CatalogErr UInt32 := do
  modify fun s => { s with roots := root.pages ++ s.roots }
  onCatalog (Catalog.allocateNewRoot root.result)

/-- `CreateTable` and `CreateIndex`, up to the maps and the encoding. -/
def create {α : Type} (taken : Catalog → Option α) (already : CatalogErr) (root : NewRoot)
    (name : Bytes) (encode : UInt32 → Bytes) (register : UInt32 → Catalog → Catalog) :
    Fallible Allocated CatalogErr Unit := do
  if (taken (← get).catalog).isSome then throw already
  let pageID ← allocateNewRoot root
  onCatalog (Catalog.insertEntry name (encode pageID))
  onCatalog (modify (register pageID))

def createTable (root : NewRoot) (d : TableDef) : Fallible Allocated CatalogErr Unit :=
  create (·.tables.lookup d.name) .tableAlreadyExists root d.name
    (fun pageID => encodeTableDef { d with rootPageID := pageID }) fun pageID c =>
      { c with
        tables := c.tables.insert d.name { d with rootPageID := pageID }
        tableIndexes := c.tableIndexes.insert d.name [] }

def createIndex (root : NewRoot) (d : IndexDef) : Fallible Allocated CatalogErr Unit :=
  create (·.indexes.lookup d.name) .indexAlreadyExists root d.name
    (fun pageID => encodeIndexDef { d with rootPageID := pageID }) fun pageID c =>
      { c with
        indexes := c.indexes.insert d.name { d with rootPageID := pageID }
        tableIndexes := c.tableIndexes.insert d.tableName (c.indexNames d.tableName ++ [d.name]) }

section Create

variable {α : Type} (taken : Catalog → Option α) (already : CatalogErr) (root : NewRoot)
  (name : Bytes) (encode : UInt32 → Bytes) (register : UInt32 → Catalog → Catalog) (s : Allocated)

/-- The catalog does not see the pages, and a page is taken unless the name is
in the map. -/
theorem run_create : (create taken already root name encode register).run s =
    (((Catalog.create taken already root.result name encode register).run s.catalog).1,
      ⟨((Catalog.create taken already root.result name encode register).run s.catalog).2,
        if (taken s.catalog).isSome then s.roots else root.pages ++ s.roots⟩) := by
  rw [Catalog.run_create, create, Fallible.run_bind, Fallible.run_get]
  dsimp only
  split_ifs
  · rfl
  cases root with
  | noPage e => rfl
  | noFrame pageID e => rfl
  | ready pageID =>
    have hroot : (allocateNewRoot (.ready pageID)).run s =
        (.ok pageID, ⟨s.catalog, [pageID] ++ s.roots⟩) := rfl
    rw [Fallible.run_bind_of_ok hroot, Fallible.run_bind, onCatalog, Fallible.run_zoom]
    dsimp only [NewRoot.result]
    cases hinsert : s.catalog.tree.insert name (encode pageID) with
    | error e =>
      rw [Catalog.run_insertEntry_of_error hinsert]
      rfl
    | ok tree =>
      rw [Catalog.run_insertEntry hinsert]
      rfl

/-- A call that fails leaves everything as it was, if and only if the name is
in the map, there is no page for the root, or the tree takes the definition. -/
theorem create_fails_clean_iff :
    (∀ e s', (create taken already root name encode register).run s = (.error e, s') → s' = s) ↔
      (taken s.catalog).isSome ∨ root.pages = [] ∨ ∃ pageID, root = .ready pageID ∧
        s.catalog.tree.lookup name = none ∧
        BTree.entrySize name (encode pageID) ≤ entryCap := by
  have hgrown {p : UInt32} {c : Catalog} : (⟨c, p :: s.roots⟩ : Allocated) ≠ s := by
    intro h
    exact List.cons_ne_self p s.roots (congrArg roots h)
  rw [run_create, Catalog.run_create]
  by_cases htaken : (taken s.catalog).isSome
  · simp [htaken]
  · rw [if_neg htaken, if_neg htaken]
    simp only [htaken]
    cases root with
    | noPage e => simp [NewRoot.result, NewRoot.pages]
    | noFrame pageID e => simp [NewRoot.result, NewRoot.pages, hgrown]
    | ready pageID =>
      cases hinsert : s.catalog.tree.insert name (encode pageID) with
      | error e =>
        have hrefused : ¬ (s.catalog.tree.lookup name = none ∧
            BTree.entrySize name (encode pageID) ≤ entryCap) := by
          rintro ⟨hnone, hsize⟩
          rw [OrderedTree.insert_eq_ok.mpr ⟨hsize, hnone, rfl⟩] at hinsert
          cases hinsert
        simp [NewRoot.result, NewRoot.pages, hinsert, hgrown, hrefused]
      | ok tree =>
        obtain ⟨hsize, hnone, -⟩ := OrderedTree.insert_eq_ok.mp hinsert
        simp [NewRoot.result, hinsert, hnone, hsize]

end Create

/-- A `CreateTable` or `CreateIndex` that fails changes neither the catalog
nor the set of allocated pages, if and only if its name is in the map of its
kind, there is no page for the root, or it does not fail. -/
theorem failed_create_changes_nothing_iff (root : NewRoot) (s : Allocated) :
    (∀ d : TableDef, (∀ e s', (createTable root d).run s = (.error e, s') → s' = s) ↔
      (s.catalog.tables.lookup d.name).isSome ∨ root.pages = [] ∨ ∃ pageID, root = .ready pageID ∧
        s.catalog.tree.lookup d.name = none ∧
        BTree.entrySize d.name (encodeTableDef { d with rootPageID := pageID }) ≤ entryCap) ∧
    ∀ d : IndexDef, (∀ e s', (createIndex root d).run s = (.error e, s') → s' = s) ↔
      (s.catalog.indexes.lookup d.name).isSome ∨ root.pages = [] ∨ ∃ pageID, root = .ready pageID ∧
        s.catalog.tree.lookup d.name = none ∧
        BTree.entrySize d.name (encodeIndexDef { d with rootPageID := pageID }) ≤ entryCap :=
  ⟨fun _ => create_fails_clean_iff .., fun _ => create_fails_clean_iff ..⟩

/-- A table with an index. -/
def sampleAllocated : Allocated :=
  ((createIndex (.ready 8) sampleIndex).run
    ((createTable (.ready 7) sampleTable).run ⟨.blank, []⟩).2).2

/-- A table with the name of the index is refused, and its page stays
allocated. -/
theorem refused_table_keeps_page :
    ((createTable (.ready 9) { sampleTable with name := sampleIndex.name }).run sampleAllocated).1 =
        .error (.storage .duplicateKey) ∧
      sampleAllocated.roots = [8, 7] ∧
      ((createTable (.ready 9) { sampleTable with name := sampleIndex.name }).run
        sampleAllocated).2.roots = [9, 8, 7] := by
  decide +kernel

end Allocated

end MySQLight.Schema
