import MySQLight.Data.InverseMap
import MySQLight.Executor.RowKeys

/-!
What a row write does to the trees.

A row write first changes the data tree and then the trees of the indexes,
one by one. If the data tree takes its part and every index takes its own,
the outcome is the change of the data tree and, for every index, the one of
the row's key in it.
-/

namespace MySQLight.Sql

open MySQLight.Data MySQLight.Schema MySQLight.Effect MySQLight.Storage Fallible

/-! ### One tree -/

/-- The tree takes the entry. -/
def Takes (tree : OrderedTree) (key value : Bytes) : Prop :=
  BTree.entrySize key value ≤ entryCap ∧ tree.lookup key = none

instance (tree : OrderedTree) (key value : Bytes) : Decidable (Takes tree key value) :=
  inferInstanceAs (Decidable (_ ∧ _))

section Tree

variable {trees : Trees} {root : UInt32} {key value : Bytes}

theorem run_treeInsert (h : Takes (trees root) key value) (wrap : Err → ExecErr) :
    ∃ tree, (treeInsert root key value wrap).run trees = (.ok (), Function.update trees root tree) ∧
      tree.lookup = Function.update (trees root).lookup key (some value) := by
  have hinsert : (trees root).insert key value = .ok ((trees root).bind key value h.1) :=
    OrderedTree.insert_eq_ok.mpr ⟨h.1, h.2, rfl⟩
  refine ⟨(trees root).bind key value h.1, ?_, ?_⟩
  · rw [treeInsert, run_bind, run_get]
    dsimp only
    rw [hinsert]
    rfl
  · funext key'
    rw [OrderedTree.lookup_bind, Function.update_apply]

theorem run_treeInsert_of_not_takes (h : ¬ Takes (trees root) key value) (wrap : Err → ExecErr) :
    ∃ e, (treeInsert root key value wrap).run trees = (.error e, trees) := by
  cases hinsert : (trees root).insert key value with
  | ok tree =>
    obtain ⟨hfits, hfree, -⟩ := OrderedTree.insert_eq_ok.mp hinsert
    exact absurd ⟨hfits, hfree⟩ h
  | error e =>
    refine ⟨wrap e, ?_⟩
    rw [treeInsert, run_bind, run_get]
    dsimp only
    rw [hinsert]
    rfl

theorem run_treeDelete (h : (trees root).lookup key = some value) (wrap : Err → ExecErr) :
    ∃ tree, (treeDelete root key wrap).run trees = (.ok (), Function.update trees root tree) ∧
      tree.lookup = Function.update (trees root).lookup key none := by
  have hdelete : (trees root).delete key = .ok ((trees root).unbind key) :=
    OrderedTree.delete_eq_ok.mpr ⟨⟨value, h⟩, rfl⟩
  refine ⟨(trees root).unbind key, ?_, ?_⟩
  · rw [treeDelete, run_bind, run_get]
    dsimp only
    rw [hdelete]
    rfl
  · funext key'
    rw [OrderedTree.lookup_unbind, Function.update_apply]

theorem run_treeDelete_of_absent (h : (trees root).lookup key = none) (wrap : Err → ExecErr) :
    ∃ e, (treeDelete root key wrap).run trees = (.error e, trees) := by
  cases hdelete : (trees root).delete key with
  | ok tree =>
    obtain ⟨⟨value, hvalue⟩, -⟩ := OrderedTree.delete_eq_ok.mp hdelete
    rw [h] at hvalue
    cases hvalue
  | error e =>
    refine ⟨wrap e, ?_⟩
    rw [treeDelete, run_bind, run_get]
    dsimp only
    rw [hdelete]
    rfl

end Tree

/-! ### The keys of a row in an index -/

/-- The key of a row in an index, if it has one. -/
def keyFor (d : TableDef) (x : IndexDef) (row : Row) : Option Bytes := do
  let i ← colIndex d.columns x.columnName
  (columnKey d.columns i (row.getD i .null)).toOption

/-- The same for the row a value is decoded to. -/
def indexKey (d : TableDef) (x : IndexDef) (value : Bytes) : Option Bytes := do
  let row ← (decodeRow value d.columns).toOption
  keyFor d x row

/-- The row has a key, or the index has no column. -/
def HasKey (d : TableDef) (x : IndexDef) (row : Row) : Prop :=
  colIndex d.columns x.columnName = none ∨ (keyFor d x row).isSome

instance (d : TableDef) (x : IndexDef) (row : Row) : Decidable (HasKey d x row) :=
  inferInstanceAs (Decidable (_ ∨ _))

section Keys

variable {d : TableDef} {x : IndexDef} {row : Row} {i : Nat} {key pk : Bytes}

theorem keyFor_of_column (hcol : colIndex d.columns x.columnName = some i) (row : Row) :
    keyFor d x row = (columnKey d.columns i (row.getD i .null)).toOption := by
  rw [keyFor, hcol]
  rfl

theorem keyFor_of_no_column (hcol : colIndex d.columns x.columnName = none) (row : Row) :
    keyFor d x row = none := by
  rw [keyFor, hcol]
  rfl

theorem keyFor_eq_some : keyFor d x row = some key ↔
    ∃ i, colIndex d.columns x.columnName = some i ∧
      columnKey d.columns i (row.getD i .null) = .ok key := by
  cases hcol : colIndex d.columns x.columnName with
  | none => simp [keyFor_of_no_column hcol]
  | some i => simp [keyFor_of_column hcol, toOption_eq_some]

theorem HasKey.columnKey (h : HasKey d x row) (hcol : colIndex d.columns x.columnName = some i) :
    ∃ key, keyFor d x row = some key ∧ columnKey d.columns i (row.getD i .null) = .ok key := by
  obtain hnone | hsome := h
  · rw [hcol] at hnone
    cases hnone
  · obtain ⟨key, hkey⟩ := Option.isSome_iff_exists.mp hsome
    refine ⟨key, hkey, ?_⟩
    rwa [keyFor_of_column hcol, toOption_eq_some] at hkey

theorem keyFor_canonRow (hlen : row.length = d.columns.length) :
    keyFor d x (canonRow row d.columns) = keyFor d x row := by
  rw [keyFor, keyFor]
  cases colIndex d.columns x.columnName with
  | none => rfl
  | some i => exact congrArg Except.toOption (columnKey_canonRow hlen i)

theorem indexKey_of_decodeRow {value : Bytes} (h : decodeRow value d.columns = .ok row) :
    indexKey d x value = keyFor d x row := by
  rw [indexKey, h]
  rfl

/-- The value that is written for a row. -/
theorem indexKey_encodeRow (hlen : row.length = d.columns.length)
    (hfits : BTree.entrySize key (encodeRow row d.columns) ≤ entryCap) :
    indexKey d x (encodeRow row d.columns) = keyFor d x row := by
  rw [indexKey_of_decodeRow (decodeRow_of_fits hlen hfits), keyFor_canonRow hlen]

end Keys

/-! ### What a row write does when every index takes its part -/

/-- The data tree and the index trees have changed, and no other tree. -/
structure Written (d : TableDef) (indexes : List IndexDef) (trees trees' : Trees)
    (onData : (Bytes → Option Bytes) → Bytes → Option Bytes)
    (onIndex : IndexDef → (Bytes → Option Bytes) → Bytes → Option Bytes) : Prop where
  data : (trees' d.rootPageID).lookup = onData (trees d.rootPageID).lookup
  index : ∀ x ∈ indexes, (trees' x.rootPageID).lookup = onIndex x (trees x.rootPageID).lookup
  other : ∀ r, r ≠ d.rootPageID → (∀ x ∈ indexes, x.rootPageID ≠ r) → trees' r = trees r

/-- Every tree is another one. -/
structure Apart (d : TableDef) (indexes : List IndexDef) : Prop where
  roots : (indexes.map (·.rootPageID)).Nodup
  data : ∀ x ∈ indexes, x.rootPageID ≠ d.rootPageID

section Writes

variable {d : TableDef} {indexes : List IndexDef} {trees : Trees} {row oldRow newRow : Row}
  {pk oldPK newPK key value : Bytes}

theorem run_keyOr_bind {r : Except KeyErr Bytes} (h : r = .ok key) (wrap : KeyErr → ExecErr)
    (f : Bytes → Write) (trees : Trees) : (keyOr wrap r >>= f).run trees = (f key).run trees := by
  rw [h]
  rfl

/-- After the data tree, the loop over the indexes. -/
theorem written_of_loop (hapart : Apart d indexes) {tree : OrderedTree} {body : IndexDef → Write}
    {onData : (Bytes → Option Bytes) → Bytes → Option Bytes}
    {onIndex : IndexDef → (Bytes → Option Bytes) → Bytes → Option Bytes}
    (hdata : tree.lookup = onData (trees d.rootPageID).lookup)
    (hbody : ∀ x ∈ indexes, ∀ trees' : Trees, trees' x.rootPageID = trees x.rootPageID →
      ∃ tree, (body x).run trees' = (.ok (), Function.update trees' x.rootPageID tree) ∧
        tree.lookup = onIndex x (trees x.rootPageID).lookup) :
    ∃ trees', (forEach body indexes).run
        (Function.update trees d.rootPageID tree) = (.ok (), trees') ∧
      Written d indexes trees trees' onData onIndex := by
  obtain ⟨trees', hrun, hindex, hother⟩ := forEach_slots
    (s := Function.update trees d.rootPageID tree)
    (P := fun x tree => tree.lookup = onIndex x (trees x.rootPageID).lookup) hapart.roots
    fun x hx trees' htrees' => hbody x hx trees'
      (htrees'.trans (Function.update_of_ne (hapart.data x hx) ..))
  refine ⟨trees', hrun, ?_, hindex, fun r hr hx => ?_⟩
  · rw [hother _ hapart.data, Function.update_self, hdata]
  · rw [hother r hx, Function.update_of_ne hr]

theorem run_insertRow (hapart : Apart d indexes)
    (hdata : Takes (trees d.rootPageID) pk (encodeRow row d.columns))
    (hkeys : ∀ x ∈ indexes, HasKey d x row ∧
      ∀ key ∈ keyFor d x row, Takes (trees x.rootPageID) key pk) :
    ∃ trees', (insertRow d indexes row pk).run trees = (.ok (), trees') ∧
      Written d indexes trees trees'
        (fun data => Function.update data pk (some (encodeRow row d.columns)))
        (fun x index => rebind (keyFor d x row) (some pk) index) := by
  obtain ⟨tree, hrun, htree⟩ := run_treeInsert hdata .insertingRow
  rw [insertRow, run_bind_of_ok hrun]
  refine written_of_loop hapart htree fun x hx trees' htrees' => ?_
  obtain ⟨hkey, htakes⟩ := hkeys x hx
  cases hcol : colIndex d.columns x.columnName with
  | none =>
    refine ⟨trees' x.rootPageID, ?_, ?_⟩
    · rw [Function.update_eq_self]
      rfl
    · rw [keyFor_of_no_column hcol, htrees', rebind_none]
  | some i =>
    obtain ⟨key, hfor, hcolumn⟩ := hkey.columnKey hcol
    dsimp only
    rw [run_keyOr_bind hcolumn, hfor, rebind_some, ← htrees']
    exact run_treeInsert (htrees' ▸ htakes key hfor) _

theorem run_deleteRow (hapart : Apart d indexes)
    (hdata : (trees d.rootPageID).lookup pk = some value)
    (hkeys : ∀ x ∈ indexes, HasKey d x row ∧
      ∀ key ∈ keyFor d x row, ∃ v, (trees x.rootPageID).lookup key = some v) :
    ∃ trees', (deleteRow d indexes row pk).run trees = (.ok (), trees') ∧
      Written d indexes trees trees' (fun data => Function.update data pk none)
        (fun x index => rebind (keyFor d x row) none index) := by
  obtain ⟨tree, hrun, htree⟩ := run_treeDelete hdata (.deletingRow d.name)
  rw [deleteRow, run_bind_of_ok hrun]
  refine written_of_loop hapart htree fun x hx trees' htrees' => ?_
  obtain ⟨hkey, hthere⟩ := hkeys x hx
  cases hcol : colIndex d.columns x.columnName with
  | none =>
    refine ⟨trees' x.rootPageID, ?_, ?_⟩
    · rw [Function.update_eq_self]
      rfl
    · rw [keyFor_of_no_column hcol, htrees', rebind_none]
  | some i =>
    obtain ⟨key, hfor, hcolumn⟩ := hkey.columnKey hcol
    obtain ⟨v, hv⟩ := hthere key hfor
    dsimp only
    rw [run_keyOr_bind hcolumn, hfor, rebind_some, ← htrees']
    exact run_treeDelete (htrees' ▸ hv) _

/-- An entry in the place of another. -/
theorem run_replace {root : UInt32} {oldKey newKey v : Bytes}
    (hold : (trees root).lookup oldKey = some v)
    (hnew : Takes ((trees root).unbind oldKey) newKey value) (wrap wrap' : Err → ExecErr) :
    ∃ tree, (treeDelete root oldKey wrap >>= fun _ =>
      treeInsert root newKey value wrap').run trees =
        (.ok (), Function.update trees root tree) ∧
      tree.lookup = Function.update (Function.update (trees root).lookup oldKey none) newKey
        (some value) := by
  obtain ⟨tree, hrun, htree⟩ := run_treeDelete hold wrap
  have htakes : Takes (Function.update trees root tree root) newKey value := by
    rw [Function.update_self]
    refine ⟨hnew.1, ?_⟩
    rw [htree, Function.update_apply, ← OrderedTree.lookup_unbind]
    exact hnew.2
  obtain ⟨tree', hrun', htree'⟩ := run_treeInsert htakes wrap'
  refine ⟨tree', ?_, ?_⟩
  · rw [run_bind_of_ok hrun, hrun', Function.update_idem]
  · rw [htree', Function.update_self, htree]

theorem run_updateRow (hapart : Apart d indexes)
    (hold : (trees d.rootPageID).lookup oldPK = some value)
    (hnew : Takes ((trees d.rootPageID).unbind oldPK) newPK (encodeRow newRow d.columns))
    (hkeys : ∀ x ∈ indexes, HasKey d x oldRow ∧ HasKey d x newRow ∧
      ∀ oldKey ∈ keyFor d x oldRow, (∃ v, (trees x.rootPageID).lookup oldKey = some v) ∧
        ∀ newKey ∈ keyFor d x newRow, Takes ((trees x.rootPageID).unbind oldKey) newKey newPK) :
    ∃ trees', (updateRow d indexes oldRow newRow oldPK newPK).run trees = (.ok (), trees') ∧
      Written d indexes trees trees'
        (fun data => Function.update (Function.update data oldPK none) newPK
          (some (encodeRow newRow d.columns)))
        (fun x index => rebind (keyFor d x newRow) (some newPK)
          (rebind (keyFor d x oldRow) none index)) := by
  obtain ⟨tree, hrun, htree⟩ := run_replace hold hnew .deletingOldRow .insertingUpdatedRow
  rw [updateRow, ← Fallible.bind_assoc, run_bind_of_ok hrun]
  refine written_of_loop hapart htree fun x hx trees' htrees' => ?_
  obtain ⟨holdKey, hnewKey, hthere⟩ := hkeys x hx
  cases hcol : colIndex d.columns x.columnName with
  | none =>
    refine ⟨trees' x.rootPageID, ?_, ?_⟩
    · rw [Function.update_eq_self]
      rfl
    · rw [keyFor_of_no_column hcol, keyFor_of_no_column hcol, htrees', rebind_none, rebind_none]
  | some i =>
    obtain ⟨oldKey, hforOld, hcolumnOld⟩ := holdKey.columnKey hcol
    obtain ⟨newKey, hforNew, hcolumnNew⟩ := hnewKey.columnKey hcol
    obtain ⟨⟨v, hv⟩, htakes⟩ := hthere oldKey hforOld
    dsimp only
    rw [run_keyOr_bind hcolumnOld, run_keyOr_bind hcolumnNew, hforOld, hforNew, rebind_some,
      rebind_some, ← htrees']
    exact run_replace (htrees' ▸ hv) (htrees' ▸ htakes newKey hforNew) _ _

end Writes

/-! ### One column -/

section Set

variable {d : TableDef} {indexes : List IndexDef} {trees : Trees} {oldRow : Row} {column : Bytes}
  {i : Nat} {newValue : Value} {pk value : Bytes} {x : IndexDef}

/-- Columns at one position have one name. -/
theorem colIndex_inj {columns : List ColumnDef} {name name' : Bytes}
    (h : colIndex columns name = some i) (h' : colIndex columns name' = some i) : name = name' := by
  obtain ⟨hi, hname, -⟩ := List.findIdx?_eq_some_iff_getElem.mp h
  obtain ⟨_, hname', -⟩ := List.findIdx?_eq_some_iff_getElem.mp h'
  exact (of_decide_eq_true hname).symm.trans (of_decide_eq_true hname')

theorem lt_of_colIndex {columns : List ColumnDef} {name : Bytes}
    (h : colIndex columns name = some i) : i < columns.length :=
  (List.findIdx?_eq_some_iff_getElem.mp h).1

/-- The column of the index is set. -/
theorem keyFor_set (hlen : oldRow.length = d.columns.length)
    (hcol : colIndex d.columns x.columnName = some i) :
    keyFor d x (oldRow.set i newValue) = (columnKey d.columns i newValue).toOption := by
  have hi : i < oldRow.length := hlen ▸ lt_of_colIndex hcol
  rw [keyFor_of_column hcol, List.getD_eq_getElem?_getD, List.getElem?_set_self hi,
    Option.getD_some]

/-- Another column is set. -/
theorem keyFor_set_of_ne (hcol : colIndex d.columns column = some i) (hne : x.columnName ≠ column) :
    keyFor d x (oldRow.set i newValue) = keyFor d x oldRow := by
  cases hx : colIndex d.columns x.columnName with
  | none => rw [keyFor_of_no_column hx, keyFor_of_no_column hx]
  | some j =>
    have hij : i ≠ j := by
      rintro rfl
      exact hne (colIndex_inj hx hcol)
    rw [keyFor_of_column hx, keyFor_of_column hx, List.getD_eq_getElem?_getD,
      List.getElem?_set_ne hij, ← List.getD_eq_getElem?_getD]

theorem columnKey_of_null (columns : List ColumnDef) (i : Nat) (h : newValue.isNull = true) :
    columnKey columns i newValue = .error .nullKey := by
  rw [columnKey]
  cases columns[i]? with
  | none => rfl
  | some c => simp [encodeKeyValue, h]

theorem run_setColumn (hapart : Apart d indexes) (hlen : oldRow.length = d.columns.length)
    (hcol : colIndex d.columns column = some i)
    (hold : (trees d.rootPageID).lookup pk = some value)
    (hnew : Takes ((trees d.rootPageID).unbind pk) pk (encodeRow (oldRow.set i newValue) d.columns))
    (hkeys : ∀ x ∈ indexes, x.columnName = column → HasKey d x oldRow ∧
      (newValue.isNull = false → HasKey d x (oldRow.set i newValue)) ∧
      ∀ oldKey ∈ keyFor d x oldRow, (∃ v, (trees x.rootPageID).lookup oldKey = some v) ∧
        ∀ newKey ∈ keyFor d x (oldRow.set i newValue),
          Takes ((trees x.rootPageID).unbind oldKey) newKey pk) :
    ∃ trees', (setColumn d indexes column i oldRow newValue pk).run trees = (.ok (), trees') ∧
      Written d indexes trees trees'
        (fun data => Function.update (Function.update data pk none) pk
          (some (encodeRow (oldRow.set i newValue) d.columns)))
        (fun x index => if x.columnName = column then
            rebind (keyFor d x (oldRow.set i newValue)) (some pk)
              (rebind (keyFor d x oldRow) none index)
          else index) := by
  obtain ⟨tree, hrun, htree⟩ := run_replace hold hnew .storage .storage
  rw [setColumn, ← Fallible.bind_assoc, run_bind_of_ok hrun]
  refine written_of_loop hapart htree fun x hx trees' htrees' => ?_
  by_cases hname : x.columnName = column
  · obtain ⟨holdKey, hnewKey, hthere⟩ := hkeys x hx hname
    have hcolx : colIndex d.columns x.columnName = some i := hname ▸ hcol
    obtain ⟨oldKey, hforOld, hcolumnOld⟩ := holdKey.columnKey hcolx
    obtain ⟨⟨v, hv⟩, htakes⟩ := hthere oldKey hforOld
    rw [if_pos hname, if_pos hname, run_keyOr_bind hcolumnOld, hforOld, rebind_some, ← htrees']
    cases hnull : newValue.isNull with
    | true =>
      have hnone : keyFor d x (oldRow.set i newValue) = none := by
        rw [keyFor_set hlen hcolx, columnKey_of_null d.columns i hnull]
        rfl
      obtain ⟨tree, hrun, htree⟩ := run_treeDelete (htrees' ▸ hv) .storage
      refine ⟨tree, ?_, ?_⟩
      · rw [run_bind_of_ok hrun]
        rfl
      · rw [htree, hnone, rebind_none]
    | false =>
      obtain ⟨newKey, hforNew, -⟩ := (hnewKey hnull).columnKey hcolx
      have hcolumnNew : columnKey d.columns i newValue = .ok newKey := by
        rwa [keyFor_set hlen hcolx, toOption_eq_some] at hforNew
      rw [hforNew, rebind_some]
      simp only [Bool.false_eq_true, if_false, hcolumnNew]
      exact run_replace (htrees' ▸ hv) (htrees' ▸ htakes newKey hforNew) _ _
  · refine ⟨trees' x.rootPageID, ?_, ?_⟩
    · rw [if_neg hname, Function.update_eq_self]
      rfl
    · rw [if_neg hname, htrees']

end Set

end MySQLight.Sql
