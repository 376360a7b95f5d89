import Mathlib.Data.List.AList
import MySQLight.Catalog.Encoding
import MySQLight.Effect.Fallible
import MySQLight.Effect.Runs
import MySQLight.Storage.OrderedTree

/-!
The catalog (`catalog/catalog.go`).

The definitions are kept three times: in a tree that is stored, where
tables and indexes share the keys, in two maps in memory, and in the lists
of the index names of each table. The calls change them one after the
other.

The tree is an ordered map here. Where a call allocates a root page, what
comes back is an argument of the call: a page number or an error.
-/

namespace MySQLight.Schema

open MySQLight.Data MySQLight.Effect MySQLight.Storage

inductive CatalogErr
  | tableAlreadyExists
  | tableNotFound
  | indexAlreadyExists
  | indexNotInMap
  | tableDoesNotExist
  | indexNotFound
  | decode (e : DecodeErr)
  | storage (e : Err)
deriving DecidableEq, Repr

structure Catalog where
  tables : AList fun _ : Bytes => TableDef := ∅
  indexes : AList fun _ : Bytes => IndexDef := ∅
  tableIndexes : AList fun _ : Bytes => List Bytes := ∅
  tree : OrderedTree

namespace Catalog

/-- `c.tableIndexes[table]`. -/
def indexNames (c : Catalog) (table : Bytes) : List Bytes := (c.tableIndexes.lookup table).getD []

/-! ### `Open` -/

/-- `Open` comes to a table. -/
def loadTable (c : Catalog) (key : Bytes) (table : TableDef) : Catalog :=
  { c with
    tables := c.tables.insert key table
    tableIndexes :=
      if (c.tableIndexes.lookup table.name).isSome then c.tableIndexes
      else c.tableIndexes.insert table.name [] }

/-- `Open` comes to an index. -/
def loadIndex (c : Catalog) (key : Bytes) (index : IndexDef) : Catalog :=
  { c with
    indexes := c.indexes.insert key index
    tableIndexes := c.tableIndexes.insert index.tableName (c.indexNames index.tableName ++ [key]) }

/-- The loop body of `Open`; a value of another kind is passed over. -/
def load (c : Catalog) (entry : Bytes × Bytes) : Except CatalogErr Catalog :=
  match entry.2.head? with
  | none => .error (.decode .panic)
  | some kind =>
    if kind = 1 then
      match decodeTableDef entry.2 with
      | .error e => .error (.decode e)
      | .ok table => .ok (c.loadTable entry.1 table)
    else if kind = 2 then
      match decodeIndexDef entry.2 with
      | .error e => .error (.decode e)
      | .ok index => .ok (c.loadIndex entry.1 index)
    else .ok c

/-- `Open`. -/
def openTree (tree : OrderedTree) : Except CatalogErr Catalog :=
  tree.entries.foldlM load { tree := tree }

/-! ### The calls -/

/-- `c.tree.Insert`. -/
def insertEntry (key value : Bytes) : Fallible Catalog CatalogErr Unit := do
  match (← get).tree.insert key value with
  | .error e => throw (.storage e)
  | .ok tree => modify fun c => { c with tree := tree }

/-- `c.tree.Delete`. -/
def deleteEntry (key : Bytes) : Fallible Catalog CatalogErr Unit := do
  match (← get).tree.delete key with
  | .error e => throw (.storage e)
  | .ok tree => modify fun c => { c with tree := tree }

/-- `c.tree.AllocateNewRoot`, with what it returns. -/
def allocateNewRoot (root : Except Err UInt32) : Fallible Catalog CatalogErr UInt32 :=
  match root with
  | .error e => throw (.storage e)
  | .ok pageID => pure pageID

def getTable (c : Catalog) (name : Bytes) : Except CatalogErr TableDef :=
  match c.tables.lookup name with
  | none => .error .tableNotFound
  | some table => .ok table

theorem getTable_eq_ok {c : Catalog} {name : Bytes} {d : TableDef} :
    c.getTable name = .ok d ↔ c.tables.lookup name = some d := by
  rw [getTable]
  cases c.tables.lookup name <;> simp

def getIndex (c : Catalog) (name : Bytes) : Except CatalogErr IndexDef :=
  match c.indexes.lookup name with
  | none => .error .indexNotInMap
  | some index => .ok index

/-- `ListTables`, in the order of a map. -/
def listTables (c : Catalog) (order : Nat) : List TableDef :=
  permute order (c.tables.entries.map (·.2))

def indexesForTable (c : Catalog) (tableName : Bytes) : Except CatalogErr (List IndexDef) :=
  match c.tableIndexes.lookup tableName with
  | none => .error .tableDoesNotExist
  | some names => names.mapM fun name =>
    match c.indexes.lookup name with
    | none => .error .indexNotFound
    | some index => .ok index

def createTable (root : Except Err UInt32) (d : TableDef) : Fallible Catalog CatalogErr Unit := do
  if ((← get).tables.lookup d.name).isSome then throw .tableAlreadyExists
  let pageID ← allocateNewRoot root
  let d := { d with rootPageID := pageID }
  insertEntry d.name (encodeTableDef d)
  modify fun c =>
    { c with
      tables := c.tables.insert d.name d
      tableIndexes := c.tableIndexes.insert d.name [] }

/-- The loop body of `DropTable`. -/
def dropIndexEntry (indexName : Bytes) : Fallible Catalog CatalogErr Unit := do
  deleteEntry indexName
  modify fun c => { c with indexes := c.indexes.erase indexName }

def dropTable (name : Bytes) : Fallible Catalog CatalogErr Unit := do
  let _ ← Fallible.ofExcept ((← get).getTable name)
  Fallible.forEach dropIndexEntry ((← get).indexNames name)
  modify fun c => { c with tableIndexes := c.tableIndexes.erase name }
  deleteEntry name
  modify fun c => { c with tables := c.tables.erase name }

def createIndex (root : Except Err UInt32) (d : IndexDef) : Fallible Catalog CatalogErr Unit := do
  if ((← get).indexes.lookup d.name).isSome then throw .indexAlreadyExists
  let pageID ← allocateNewRoot root
  let d := { d with rootPageID := pageID }
  insertEntry d.name (encodeIndexDef d)
  modify fun c =>
    { c with
      indexes := c.indexes.insert d.name d
      tableIndexes := c.tableIndexes.insert d.tableName (c.indexNames d.tableName ++ [d.name]) }

/-- The end of `DropIndex`: the first occurrence of the name goes out of
the list of its table. -/
def unlist (c : Catalog) (table name : Bytes) : Catalog :=
  if name ∈ c.indexNames table then
    { c with tableIndexes := c.tableIndexes.insert table ((c.indexNames table).erase name) }
  else c

def dropIndex (name : Bytes) : Fallible Catalog CatalogErr Unit := do
  let index ← Fallible.ofExcept ((← get).getIndex name)
  deleteEntry name
  modify fun c => { c with indexes := c.indexes.erase name }
  modify fun c => c.unlist index.tableName name

end Catalog

/-- A call of the catalog, with what `AllocateNewRoot` returns in it. -/
inductive CatalogCall
  | createTable (root : Except Err UInt32) (d : TableDef)
  | dropTable (name : Bytes)
  | createIndex (root : Except Err UInt32) (d : IndexDef)
  | dropIndex (name : Bytes)

namespace Catalog

def call : CatalogCall → Fallible Catalog CatalogErr Unit
  | .createTable root d => createTable root d
  | .dropTable name => dropTable name
  | .createIndex root d => createIndex root d
  | .dropIndex name => dropIndex name

/-- The catalog after a call, whatever the call returned. -/
def step (c : Catalog) (a : CatalogCall) : Catalog := ((call a).run c).2

end Catalog

end MySQLight.Schema
