import MySQLight.Catalog.Catalog
import MySQLight.Effect.Proc
import MySQLight.Executor.Expr
import MySQLight.Txn.LockManager

/-!
The database under the executor.

The executor reaches tables, indexes and locks through a few calls, which
are the operations of `DbI`: it asks the catalog, reads all rows of a
table, writes one row together with its index entries, asks for a lock.
Each data tree and each index tree is an ordered map, found by the root
page that the catalog has for it. That is what the pages hold as long as the
root is a single leaf (`Storage.RootLeaf`). A root that splits moves, and the
catalog keeps the page where it was: from then on a statement opens the left
half of the tree, and what is said here about the trees is not about it any
more.

The writes are the ends of the loop bodies of `executeInsert`,
`executeUpdate`, `deleteRowsFromTable` and `updateColumnInRows`: what these
do once a row and its key are ready. An error leaves behind what was
written before it.

What the database cannot know beforehand comes from an environment: the
order of a map, the next root page, whether a log record can be written,
and what a rollback restores.
-/

namespace MySQLight.Sql

open MySQLight.Data MySQLight.Schema MySQLight.Effect MySQLight.Storage MySQLight.Txn

/-! ### Errors -/

inductive ExecErr
  | tableNotFound (name : Bytes) (e : CatalogErr)
  | joinedTableNotFound (name : Bytes) (e : CatalogErr)
  | parentTableNotFound (name : Bytes) (e : CatalogErr)
  | catalog (e : CatalogErr)
  | noPrimaryKey (table : Bytes)
  | notNullViolation (column : Bytes)
  | unknownDataType (name : Bytes)
  -- The values of an INSERT or an UPDATE.
  | valueCount (expected got : Nat)
  | columnCount (columns values : Nat)
  | columnNotFoundInTable (column : Bytes)
  | columnNotFound (column table : Bytes)
  | store (e : StoreErr)
  | eval (e : EvalErr)
  | row (e : RowErr)
  -- Foreign keys.
  | foreignKeyViolation (table column refTable refColumn : Bytes)
  | cannotDelete (parentTable : Bytes) (rows : Nat) (childTable : Bytes)
  | cannotUpdate (parentTable : Bytes) (rows : Nat) (childTable : Bytes)
  | cannotSetNull (table column : Bytes)
  -- Keys, data trees and index trees.
  | encodingPrimaryKey (e : KeyErr)
  | encodingOldPrimaryKey (e : KeyErr)
  | encodingNewPrimaryKey (e : KeyErr)
  | encodingKeyForDelete (e : KeyErr)
  | encodingIndexKey (index : Bytes) (e : KeyErr)
  | encodingOldIndexKey (index : Bytes) (e : KeyErr)
  | encodingNewIndexKey (index : Bytes) (e : KeyErr)
  | key (e : KeyErr)
  | insertingRow (e : Err)
  | insertingIntoIndex (index : Bytes) (e : Err)
  | deletingOldRow (e : Err)
  | insertingUpdatedRow (e : Err)
  | deletingOldIndexEntry (index : Bytes) (e : Err)
  | insertingNewIndexEntry (index : Bytes) (e : Err)
  | deletingRow (table : Bytes) (e : Err)
  | deletingIndexEntry (index : Bytes) (e : Err)
  | storage (e : Err)
  -- Transactions.
  | transactionAlreadyInProgress
  | noTransactionInProgress
  | log
  | analyzeNotYetImplemented
  /-- The call does not return: it waits for a lock. -/
  | blocked
  /-- The call does not return: its recursion is too deep. -/
  | stackOverflow
deriving DecidableEq

/-! ### Row writes -/

/-- The trees, each at its root page. -/
abbrev Trees : Type := UInt32 → OrderedTree

/-- A computation on the trees. -/
abbrev Write : Type := Fallible Trees ExecErr Unit

def treeInsert (root : UInt32) (key value : Bytes) (wrap : Err → ExecErr) : Write := do
  match ((← get) root).insert key value with
  | .error e => throw (wrap e)
  | .ok tree => modify fun trees => Function.update trees root tree

def treeDelete (root : UInt32) (key : Bytes) (wrap : Err → ExecErr) : Write := do
  match ((← get) root).delete key with
  | .error e => throw (wrap e)
  | .ok tree => modify fun trees => Function.update trees root tree

/-- `encodeKeyValue` for the column at a position. -/
def columnKey (columns : List ColumnDef) (i : Nat) (v : Value) : Except KeyErr Bytes :=
  match columns[i]? with
  | none => .error .nullKey
  | some c => encodeKeyValue v c.type

/-- A key, with the error for a value that has none. -/
def keyOr (wrap : KeyErr → ExecErr) (key : Except KeyErr Bytes) : Fallible Trees ExecErr Bytes :=
  match key with
  | .error e => throw (wrap e)
  | .ok bytes => pure bytes

/-- The end of the loop body of `executeInsert`. -/
def insertRow (d : TableDef) (indexes : List IndexDef) (row : Row) (pk : Bytes) : Write := do
  treeInsert d.rootPageID pk (encodeRow row d.columns) .insertingRow
  Fallible.forEach (fun (index : IndexDef) => do
    match colIndex d.columns index.columnName with
    | none => pure ()
    | some i =>
      let key ← keyOr (.encodingIndexKey index.name) (columnKey d.columns i (row.getD i .null))
      treeInsert index.rootPageID key pk (.insertingIntoIndex index.name)) indexes

/-- The end of the loop body of `executeUpdate`. -/
def updateRow (d : TableDef) (indexes : List IndexDef) (oldRow newRow : Row)
    (oldPK newPK : Bytes) : Write := do
  treeDelete d.rootPageID oldPK .deletingOldRow
  treeInsert d.rootPageID newPK (encodeRow newRow d.columns) .insertingUpdatedRow
  Fallible.forEach (fun (index : IndexDef) => do
    match colIndex d.columns index.columnName with
    | none => pure ()
    | some i =>
      let oldKey ← keyOr (.encodingOldIndexKey index.name)
        (columnKey d.columns i (oldRow.getD i .null))
      let newKey ← keyOr (.encodingNewIndexKey index.name)
        (columnKey d.columns i (newRow.getD i .null))
      treeDelete index.rootPageID oldKey (.deletingOldIndexEntry index.name)
      treeInsert index.rootPageID newKey newPK (.insertingNewIndexEntry index.name)) indexes

/-- The end of the loop body of `deleteRowsFromTable`. -/
def deleteRow (d : TableDef) (indexes : List IndexDef) (row : Row) (pk : Bytes) : Write := do
  treeDelete d.rootPageID pk (.deletingRow d.name)
  Fallible.forEach (fun (index : IndexDef) => do
    match colIndex d.columns index.columnName with
    | none => pure ()
    | some i =>
      let key ← keyOr .key (columnKey d.columns i (row.getD i .null))
      treeDelete index.rootPageID key (.deletingIndexEntry index.name)) indexes

/-- The end of the loop body of `updateColumnInRows`: the column `i`, of
the name `column`, gets the value. -/
def setColumn (d : TableDef) (indexes : List IndexDef) (column : Bytes) (i : Nat) (oldRow : Row)
    (newValue : Value) (pk : Bytes) : Write := do
  treeDelete d.rootPageID pk .storage
  treeInsert d.rootPageID pk (encodeRow (oldRow.set i newValue) d.columns) .storage
  Fallible.forEach (fun (index : IndexDef) => do
    if index.columnName = column then
      let oldKey ← keyOr .key (columnKey d.columns i (oldRow.getD i .null))
      treeDelete index.rootPageID oldKey .storage
      if newValue.isNull then pure ()
      else
        let newKey ← keyOr .key (columnKey d.columns i newValue)
        treeInsert index.rootPageID newKey pk .storage
    else pure ()) indexes

/-! ### The database -/

/-- What is decided outside. -/
structure Env where
  order : Nat → Nat
  root : Nat → Except Err UInt32
  logFails : Nat → Bool
  restored : Nat → Trees

structure Database where
  catalog : Catalog
  trees : Trees
  /-- The root pages that have been allocated. -/
  roots : List UInt32
  lockMgr : LockManager
  nextTxn : Nat
  env : Env
  /-- The number of times a root page has been asked for. -/
  allocations : Nat
  /-- The number of times the environment has been asked for something else. -/
  clock : Nat

namespace Database

/-- A database without tables. -/
def new (env : Env) : Database where
  catalog := { tree := .empty }
  trees := fun _ => .empty
  roots := []
  lockMgr := .new
  nextTxn := 1
  env := env
  allocations := 0
  clock := 0

/-- The environment has been asked. -/
def tick (db : Database) : Database := { db with clock := db.clock + 1 }

/-- `AllocateNewRoot`: an empty tree at a page that is not in use. -/
def allocateNewRoot (db : Database) : Except Err UInt32 × Database :=
  let asked := { db with allocations := db.allocations + 1 }
  match db.env.root db.allocations with
  | .error e => (.error e, asked)
  | .ok root =>
    if root = 0 ∨ root ∈ db.roots then (.error .io, asked)
    else (.ok root,
      { asked with
        trees := Function.update db.trees root .empty
        roots := root :: db.roots })

/-- A call of the catalog that allocates a root page, unless the name is
taken, which the call finds out first. -/
def allocating (db : Database) (taken : Bool)
    (call : Except Err UInt32 → Fallible Catalog CatalogErr Unit) :
    Except CatalogErr Unit × Database :=
  let (root, allocated) := db.allocateNewRoot
  let (r, catalog) := (call root).run db.catalog
  if taken then (r, { db with catalog := catalog }) else (r, { allocated with catalog := catalog })

def createTable (db : Database) (d : TableDef) : Except CatalogErr Unit × Database :=
  db.allocating (db.catalog.tables.lookup d.name).isSome fun root => Catalog.createTable root d

def createIndex (db : Database) (d : IndexDef) : Except CatalogErr Unit × Database :=
  db.allocating (db.catalog.indexes.lookup d.name).isSome fun root => Catalog.createIndex root d

/-- A call of the catalog that allocates nothing. -/
def onCatalog (db : Database) (x : Fallible Catalog CatalogErr Unit) :
    Except CatalogErr Unit × Database :=
  let (r, catalog) := x.run db.catalog
  (r, { db with catalog := catalog })

def write (db : Database) (x : Write) : Except ExecErr Unit × Database :=
  let (r, trees) := x.run db.trees
  (r, { db with trees := trees })

end Database

/-- A table name as the lock manager has it. -/
def lockName (table : Bytes) : String := String.ofList (table.map fun b => Char.ofNat b.toNat)

/-! ### The calls -/

inductive DbOp
  | getTable (name : Bytes)
  | indexesForTable (name : Bytes)
  | listTables
  | createTable (d : TableDef)
  | dropTable (name : Bytes)
  | createIndex (d : IndexDef)
  | dropIndex (name : Bytes)
  /-- `Scan(nil, nil)` on the data tree: the values in key order. -/
  | scan (d : TableDef)
  | insertRow (d : TableDef) (indexes : List IndexDef) (row : Row) (pk : Bytes)
  | updateRow (d : TableDef) (indexes : List IndexDef) (oldRow newRow : Row) (oldPK newPK : Bytes)
  | deleteRow (d : TableDef) (indexes : List IndexDef) (row : Row) (pk : Bytes)
  | setColumn (d : TableDef) (indexes : List IndexDef) (column : Bytes) (i : Nat) (oldRow : Row)
      (newValue : Value) (pk : Bytes)
  | acquire (txnID : Nat) (table : Bytes) (mode : LockMode)
  | beginTxn
  | commitTxn (txnID : Nat)
  | rollbackTxn (txnID : Nat)

/-- The answers. That of `acquire` is whether the call returns. -/
@[reducible] def DbOp.Resp : DbOp → Type
  | .getTable _ => Except CatalogErr TableDef
  | .indexesForTable _ => Except CatalogErr (List IndexDef)
  | .listTables => List TableDef
  | .createTable _ | .dropTable _ | .createIndex _ | .dropIndex _ => Except CatalogErr Unit
  | .scan _ => List Bytes
  | .insertRow .. | .updateRow .. | .deleteRow .. | .setColumn .. => Except ExecErr Unit
  | .acquire .. => Bool
  | .beginTxn => Option Nat
  | .commitTxn _ | .rollbackTxn _ => Bool

abbrev DbI : Interface := ⟨DbOp, DbOp.Resp⟩

namespace Database

/-- The answers of a database whose trees have not outgrown their root
pages. -/
def handler : Prog.Handler DbI Database
  | .getTable name, db => (db.catalog.getTable name, db)
  | .indexesForTable name, db => (db.catalog.indexesForTable name, db)
  | .listTables, db => (db.catalog.listTables (db.env.order db.clock), db.tick)
  | .createTable d, db => db.createTable d
  | .dropTable name, db => db.onCatalog (Catalog.dropTable name)
  | .createIndex d, db => db.createIndex d
  | .dropIndex name, db => db.onCatalog (Catalog.dropIndex name)
  | .scan d, db => ((db.trees d.rootPageID).entries.map (·.2), db)
  | .insertRow d indexes row pk, db => db.write (Sql.insertRow d indexes row pk)
  | .updateRow d indexes oldRow newRow oldPK newPK, db =>
    db.write (Sql.updateRow d indexes oldRow newRow oldPK newPK)
  | .deleteRow d indexes row pk, db => db.write (Sql.deleteRow d indexes row pk)
  | .setColumn d indexes column i oldRow newValue pk, db =>
    db.write (Sql.setColumn d indexes column i oldRow newValue pk)
  | .acquire txnID table mode, db =>
    let (chan, lm) := db.lockMgr.acquire txnID (lockName table) mode
    (chan.isNone, { db with lockMgr := lm })
  | .beginTxn, db =>
    if db.env.logFails db.clock then (none, db.tick)
    else (some db.nextTxn, { db.tick with nextTxn := (db.nextTxn + 1) % 2 ^ 64 })
  | .commitTxn txnID, db =>
    if db.env.logFails db.clock then (false, db.tick)
    else (true,
      { db.tick with lockMgr := db.lockMgr.releaseAll txnID (db.env.order db.clock) })
  | .rollbackTxn txnID, db =>
    if db.env.logFails db.clock then (false, { db.tick with trees := db.env.restored db.clock })
    else (true,
      { db.tick with
        trees := db.env.restored db.clock
        lockMgr := db.lockMgr.releaseAll txnID (db.env.order db.clock) })

/-- The database under an assumption about the calls, with what is to be
shown of them. -/
noncomputable abbrev checked (assume require : DbOp → Database → Prop) :
    Prog.Ideal DbI Database :=
  Prog.checked handler assume require

end Database

end MySQLight.Sql
