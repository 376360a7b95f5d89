import MySQLight.Data.Chains
import MySQLight.Executor.RowKeys

/-!
What a `DELETE` does to the rows that refer to the deleted ones.

Deleting a row first goes to the rows that refer to it, and the row itself
goes last. On the way rows are only deleted or get a NULL, so a row that is
found later refers to no other row than it did at the start. If no chain of
cascading references leads back to a row, the recursion has an end.
-/

namespace MySQLight.Sql

open MySQLight.Data MySQLight.Schema MySQLight.Effect MySQLight.Storage Fallible

/-! ### What the writes of a `DELETE` do -/

section Writes

variable {root : UInt32} {key value : Bytes} {P : UInt32 → Bytes → Bytes → Prop}

variable {wrap : Err → ExecErr}

theorem plain_treeDelete (h : ∀ e, (wrap e).Plain) :
    Throws ExecErr.Plain (treeDelete root key wrap) := by
  refine .get_bind fun trees => ?_
  split
  · exact .throw (h _)
  · exact nofun

theorem plain_treeInsert (h : ∀ e, (wrap e).Plain) :
    Throws ExecErr.Plain (treeInsert root key value wrap) := by
  refine .get_bind fun trees => ?_
  split
  · exact .throw (h _)
  · exact nofun

theorem plain_keyOr {wrap : KeyErr → ExecErr} (h : ∀ e, (wrap e).Plain) (r : Except KeyErr Bytes) :
    Throws ExecErr.Plain (keyOr wrap r) := by
  cases r with
  | error e => exact .throw (h e)
  | ok bytes => exact .pure bytes

theorem plain_deleteRow (d : TableDef) (indexes : List IndexDef) (row : Row) (pk : Bytes) :
    Throws ExecErr.Plain (deleteRow d indexes row pk) := by
  refine .bind (plain_treeDelete fun _ => trivial) fun _ => .forEach (fun x => ?_) indexes
  split
  · exact .pure _
  · refine .bind (plain_keyOr ?_ _) fun _ => plain_treeDelete fun _ => trivial
    exact fun _ => trivial

theorem plain_setColumn (d : TableDef) (indexes : List IndexDef) (column : Bytes) (i : Nat)
    (oldRow : Row) (pk : Bytes) :
    Throws ExecErr.Plain (setColumn d indexes column i oldRow .null pk) := by
  refine .bind (plain_treeDelete fun _ => trivial) fun _ =>
    .bind (plain_treeInsert fun _ => trivial) fun _ => .forEach (fun x => ?_) indexes
  split_ifs with hcolumn
  · refine .bind (plain_keyOr ?_ _) fun _ => .bind (plain_treeDelete ?_) fun _ => .pure _
    · exact fun _ => trivial
    · exact fun _ => trivial
  · exact absurd rfl ‹_›
  · exact .pure _

/-- Every entry that is new has the property. -/
def Gains (P : UInt32 → Bytes → Bytes → Prop) (trees trees' : Trees) : Prop :=
  ∀ root key value, (trees' root).lookup key = some value →
    (trees root).lookup key = some value ∨ P root key value

instance : Std.Refl (Gains P) := ⟨fun _ _ _ _ h => .inl h⟩

instance : IsTrans Trees (Gains P) := by
  refine ⟨fun a b c hab hbc root key value h => ?_⟩
  obtain h | h := hbc root key value h
  · exact hab root key value h
  · exact .inr h

theorem gains_treeDelete : Keeps (Gains P) (treeDelete root key wrap) := by
  refine keeps_treeDelete fun trees tree hdelete root' key' value' h => .inl ?_
  rw [(OrderedTree.delete_eq_ok.mp hdelete).2] at h
  by_cases hroot : root' = root
  · rw [hroot, Function.update_self, OrderedTree.lookup_unbind] at h
    split_ifs at h
    rwa [hroot]
  · rwa [Function.update_of_ne hroot] at h

theorem gains_treeInsert (hP : P root key value) :
    Keeps (Gains P) (treeInsert root key value wrap) := by
  refine keeps_treeInsert fun trees tree hinsert root' key' value' h => ?_
  obtain ⟨hfits, -, rfl⟩ := OrderedTree.insert_eq_ok.mp hinsert
  by_cases hroot : root' = root
  · rw [hroot, Function.update_self, OrderedTree.lookup_bind] at h
    split_ifs at h with hkey
    · cases h
      rw [hroot, hkey]
      exact .inr hP
    · rw [hroot]
      exact .inl h
  · rw [Function.update_of_ne hroot] at h
    exact .inl h

end Writes

section Stored

variable {t : Database} {d d' : TableDef} {indexes : List IndexDef} {row oldRow : Row}
  {key key' : Bytes} {name : Bytes}

/-- No row comes back when a row is deleted. -/
theorem storedAt_deleteRow
    (h : StoredAt (Database.handler (.deleteRow d indexes oldRow key) t).2 d' key' row) :
    StoredAt t d' key' row := by
  obtain ⟨value, hlookup, hdecode⟩ := h
  have hgains : Keeps (Gains fun _ _ _ => False) (deleteRow d indexes oldRow key) :=
    keeps_deleteRow gains_treeDelete fun _ _ _ _ => gains_treeDelete
  obtain hlookup | h := hgains t.trees d'.rootPageID key' value hlookup
  · exact ⟨value, hlookup, hdecode⟩
  · exact h.elim

theorem fits_set_null {columns : List ColumnDef}
    (h : List.Forall₂ (fun v c => Value.Fits v c.type) row columns) (i : Nat) :
    List.Forall₂ (fun v c => Value.Fits v c.type) (row.set i .null) columns := by
  induction h generalizing i with
  | nil => exact .nil
  | @cons v c row columns hv hrow ih =>
    cases i with
    | zero => exact .cons (by cases c.type <;> exact .inl rfl) hrow
    | succ i => exact .cons hv (ih i)

/-- The row that comes out of an entry is the one that went in, with a NULL
in one place. -/
theorem decodeRow_set_null {columns : List ColumnDef}
    (hfits : List.Forall₂ (fun v c => Value.Fits v c.type) oldRow columns) {i : Nat}
    (hsize : BTree.entrySize key (encodeRow (oldRow.set i .null) columns) ≤ entryCap) :
    decodeRow (encodeRow (oldRow.set i .null) columns) columns = .ok (oldRow.set i .null) := by
  have hset := fits_set_null hfits i
  rw [decodeRow_of_fits hset.length_eq hsize, canonRow_of_fits hset]

/-- What setting a column to NULL may write. -/
def WritesNull (d : TableDef) (indexes : List IndexDef) (i : Nat) (oldRow : Row) (key : Bytes)
    (root : UInt32) (key' value : Bytes) : Prop :=
  (root = d.rootPageID ∧ key' = key ∧ value = encodeRow (oldRow.set i .null) d.columns) ∨
    ∃ x ∈ indexes, root = x.rootPageID

theorem setColumn_null_eq (d : TableDef) (indexes : List IndexDef) (column : Bytes) (i : Nat)
    (oldRow : Row) (key : Bytes) :
    ∃ rest, setColumn d indexes column i oldRow .null key =
        treeDelete d.rootPageID key .storage >>= rest ∧
      Keeps (Gains (WritesNull d indexes i oldRow key)) (rest ()) :=
  setColumn_eq (gains_treeInsert (.inl ⟨rfl, rfl, rfl⟩)) (fun _ _ _ _ => gains_treeDelete)
    fun x hx _ _ _ => gains_treeInsert (.inr ⟨x, hx, rfl⟩)

/-- In a table, that is the row with the NULL in it. -/
theorem row_of_writesNull (hrooted : Rooted t) (htarget : Target t d indexes)
    (hd' : t.catalog.tables.lookup name = some d') {i : Nat}
    (hfits : List.Forall₂ (fun v c => Value.Fits v c.type) oldRow d.columns) {value : Bytes}
    (h : WritesNull d indexes i oldRow key d'.rootPageID key' value)
    (hsize : BTree.entrySize key' value ≤ entryCap)
    (hdecode : decodeRow value d'.columns = .ok row) :
    d' = d ∧ key' = key ∧ row = oldRow.set i .null := by
  obtain ⟨hroot, rfl, rfl⟩ | ⟨x, hx, hroot⟩ := h
  · obtain rfl := hrooted.eq_of_root htarget.table hd' hroot
    rw [decodeRow_set_null hfits hsize] at hdecode
    cases hdecode
    exact ⟨rfl, rfl, rfl⟩
  · exact absurd hroot (hrooted.root_ne_of_index htarget hx hd')

/-- A column that is set to NULL leaves one row with a NULL in the place of
the old one. -/
theorem storedAt_setColumn (hrooted : Rooted t) (htarget : Target t d indexes)
    (hd' : t.catalog.tables.lookup name = some d') {column : Bytes} {i : Nat}
    (hfits : List.Forall₂ (fun v c => Value.Fits v c.type) oldRow d.columns)
    (h : StoredAt (Database.handler (.setColumn d indexes column i oldRow .null key) t).2
      d' key' row) :
    StoredAt t d' key' row ∨ (d' = d ∧ key' = key ∧ row = oldRow.set i .null) := by
  obtain ⟨value, hlookup, hdecode⟩ := h
  obtain ⟨rest, heq, hrest⟩ := setColumn_null_eq d indexes column i oldRow key
  have hgains : Keeps (Gains (WritesNull d indexes i oldRow key))
      (setColumn d indexes column i oldRow .null key) := by
    rw [heq]
    exact .bind gains_treeDelete fun _ => hrest
  obtain hlookup' | hwrites := hgains t.trees d'.rootPageID key' value hlookup
  · exact .inl ⟨value, hlookup', hdecode⟩
  · exact .inr (row_of_writesNull hrooted htarget hd' hfits hwrites
      (OrderedTree.fits _ key' value hlookup) hdecode)

theorem fits_of_stored (h : Stored t d row) :
    List.Forall₂ (fun v c => Value.Fits v c.type) row d.columns := by
  obtain ⟨key, value, -, hdecode⟩ := h
  exact fits_of_decodeRow hdecode

end Stored

/-! ### Rows that are worn -/

theorem getD_set_null (row : Row) (i j : Nat) :
    (row.set i .null).getD j .null = if i = j then .null else row.getD j .null := by
  rw [List.getD_eq_getElem?_getD, List.getElem?_set, List.getD_eq_getElem?_getD]
  split_ifs <;> rfl

/-- Cells may have become NULL. -/
def Nulled (row row' : Row) : Prop :=
  ∀ i, (row'.getD i .null).isNull = true ∨ row'.getD i .null = row.getD i .null

namespace Nulled

variable {row row' : Row}

theorem refl (row : Row) : Nulled row row := fun _ => .inr rfl

theorem set_null (h : Nulled row row') (i : Nat) : Nulled row (row'.set i .null) := by
  intro j
  rw [getD_set_null]
  split_ifs
  · exact .inl rfl
  · exact h j

theorem eq_of_not_null (h : Nulled row row') {i : Nat}
    (hvalue : (row'.getD i .null).isNull = false) : row'.getD i .null = row.getD i .null :=
  (h i).resolve_left (by rw [hvalue]; exact nofun)

end Nulled

/-- No NULL is equal to anything. -/
theorem not_null_of_valuesEqual {a b : Value} {type : DataType} (h : valuesEqual a b type = true) :
    a.isNull = false ∧ b.isNull = false := by
  rw [valuesEqual.eq_def] at h
  split_ifs at h with hnull
  simpa using hnull

/-- The row refers to the other one, and goes with it. -/
def Cascades (db : Database) (parent child : TableDef × Row) : Prop :=
  (∃ name, db.catalog.tables.lookup name = some child.1) ∧ Stored db child.1 child.2 ∧
    ∃ fk ∈ child.1.foreignKeys, fk.refTable = parent.1.name ∧ fk.onDelete = .fkCascade ∧
      ∃ pk i, pkIndex parent.1.columns = some pk ∧
        colIndex child.1.columns fk.columnName = some i ∧
        Matches child.1 i (parent.2.getD pk .null) child.2

/-- The row goes back to one that was there at the start. -/
def Old (db : Database) (d : TableDef) (row row₀ : Row) : Prop := Stored db d row₀ ∧ Nulled row₀ row

/-- Rows have been deleted or have got a NULL. -/
structure Worn (db t : Database) : Prop where
  rooted : Rooted t
  catalog : t.catalog = db.catalog
  rows : ∀ name d, db.catalog.tables.lookup name = some d → ∀ row, Stored t d row →
    ∃ row₀, Old db d row row₀

section Worn

variable {db t : Database} {name : Bytes} {d : TableDef} {indexes : List IndexDef} {row row₀ : Row}
  {key : Bytes}

theorem Worn.deleteRow (h : Worn db t) (d : TableDef) (indexes : List IndexDef) (row : Row)
    (key : Bytes) : Worn db (Database.handler (.deleteRow d indexes row key) t).2 where
  rooted := h.rooted.handler _
  catalog := h.catalog
  rows name' d' hd' row' hstored := by
    obtain ⟨key', hstored⟩ := hstored
    exact h.rows name' d' hd' row' ⟨key', storedAt_deleteRow hstored⟩

theorem Worn.setColumn (h : Worn db t) (htarget : Target t d indexes) {column : Bytes} {i : Nat}
    (hfits : List.Forall₂ (fun v c => Value.Fits v c.type) row d.columns)
    (hold : Old db d row row₀) :
    Worn db (Database.handler (.setColumn d indexes column i row .null key) t).2 where
  rooted := h.rooted.handler _
  catalog := h.catalog
  rows name' d' hd' row' hstored := by
    obtain ⟨key', hstored⟩ := hstored
    have hlookup : t.catalog.tables.lookup name' = some d' := by rw [h.catalog, hd']
    obtain hstored | ⟨rfl, -, rfl⟩ :=
      storedAt_setColumn h.rooted htarget hlookup hfits hstored
    · exact h.rows name' d' hd' row' ⟨key', hstored⟩
    · exact ⟨row₀, hold.1, hold.2.set_null i⟩

/-- What refers to a worn row, referred to the row it was. -/
theorem cascades_of_worn {child : TableDef} {crow crow₀ : Row} {fk : ForeignKeyDef} {pk i : Nat}
    (hold : Old db d row row₀) (hchild : db.catalog.tables.lookup name = some child)
    (hcold : Old db child crow crow₀) (hfk : fk ∈ child.foreignKeys)
    (href : fk.refTable = d.name) (haction : fk.onDelete = .fkCascade)
    (hpk : pkIndex d.columns = some pk) (hi : colIndex child.columns fk.columnName = some i)
    (hmatch : Matches child i (row.getD pk .null) crow) :
    Cascades db (d, row₀) (child, crow₀) := by
  refine ⟨⟨name, hchild⟩, hcold.1, fk, hfk, href, haction, pk, i, hpk, hi, ?_⟩
  obtain ⟨c, hc, hequal⟩ := hmatch
  obtain ⟨hcell, hkey⟩ := not_null_of_valuesEqual hequal
  refine ⟨c, hc, ?_⟩
  rwa [← hcold.2.eq_of_not_null hcell, ← hold.2.eq_of_not_null hkey]

theorem ExecErr.Plain.ne_stackOverflow {α : Type} {e : ExecErr} (h : e.Plain) :
    (.error e : Except ExecErr α) ≠ .error .stackOverflow := by
  rintro ⟨⟩
  exact h

theorem worn_updateColumnInRows (h : Worn db t) (hd : db.catalog.tables.lookup name = some d)
    {column : Bytes} {rows : List Row} (hrows : ∀ row ∈ rows, Stored t d row) (s : Session) :
    Proc.wp Database.any (updateColumnInRows d column .null rows)
      (fun r _ t' => r ≠ .error .stackOverflow ∧ Worn db t') s t := by
  refine wp_updateColumnInRows asks_any (fun e he _ => ⟨he.ne_stackOverflow, h⟩)
    fun i pk indexes _ _ _ hindexes => ?_
  have hdname : d.name = name := h.rooted.table_name name d (by rw [h.catalog, hd])
  rw [h.catalog, hdname] at hindexes
  refine Proc.wp_forEach (J := fun _ t => Worn db t) h (fun row hrow s t' h' => ?_)
    fun _ _ h' => ⟨nofun, h'⟩
  refine wp_setOne (fun _ _ => ⟨nofun, h'⟩) fun key _ _ => ⟨trivial, ?_⟩
  obtain ⟨row₀, hold⟩ := h.rows name d hd row (hrows row hrow)
  have htarget : Target t' d indexes :=
    target_of (by rw [← h'.catalog]; exact h'.rooted.table_name) h'.catalog hd hindexes
  have hworn : Worn db (Database.handler (.setColumn d indexes column i row .null key) t').2 :=
    h'.setColumn htarget (fits_of_stored (hrows row hrow)) hold
  split
  · exact hworn
  · rename_i e he
    exact ⟨(plain_setColumn _ _ _ _ _ _ t'.trees e he).ne_stackOverflow, hworn⟩

theorem worn_deleteRowsFromTable {depth : Nat} (hdepth : 0 < depth) (h : Worn db t)
    (hd : db.catalog.tables.lookup name = some d) {rows : List Row}
    (hrows : ∀ row ∈ rows, ∃ row₀, Old db d row row₀ ∧ Shallow (Cascades db) depth (d, row₀))
    (s : Session) :
    Proc.wp Database.any (deleteRowsFromTable depth d rows)
      (fun r _ t' => r ≠ .error .stackOverflow ∧ Worn db t') s t := by
  induction depth generalizing name d rows s t with
  | zero => exact absurd hdepth (lt_irrefl 0)
  | succ depth ih =>
    refine wp_deleteRowsFromTable_succ asks_any (fun e he _ => ⟨he.ne_stackOverflow, h⟩)
      fun pk indexes hpk hindexes => ?_
    refine Proc.wp_forEach (J := fun _ t => Worn db t) h (fun row hrow s t h => ?_)
      fun _ _ h => ⟨nofun, h⟩
    obtain ⟨row₀, hold, hshallow⟩ := hrows row hrow
    refine wp_deleteOne (wp_forEachKey asks_any
      (J := fun _ t => Worn db t) (D := fun _ _ _ => True)
      ⟨h.rooted.handler .listTables, h.catalog, h.rows⟩ ?_ ?_)
    · intro name' child hchild fk hfk s t' h'
      rw [h.catalog] at hchild
      have hgoal : Proc.wp Database.any
          (onDelete (deleteRowsFromTable depth) d.name (row.getD pk .null) child fk)
          (fun r _ t' => r ≠ .error .stackOverflow ∧ Worn db t') s t' := by
        refine wp_onDelete (fun _ => ⟨nofun, h'⟩) (fun _ _ => trivial)
          (fun _ e he _ => ⟨he.ne_stackOverflow, h'⟩) (fun _ _ _ _ => ⟨nofun, h'⟩)
          fun href i crows hne hi hscanned =>
            ⟨fun _ => ⟨nofun, h'⟩, fun haction => ?_, fun _ => ?_⟩
        · have hcrows : ∀ crow ∈ crows, ∃ crow₀, Old db child crow crow₀ ∧
              Shallow (Cascades db) depth (child, crow₀) := by
            intro crow hcrow
            obtain ⟨hstored, hmatch⟩ := (hscanned.mem_iff crow).mp hcrow
            obtain ⟨crow₀, hcold⟩ := h'.rows name' child hchild crow hstored
            exact ⟨crow₀, hcold, hshallow _ (cascades_of_worn hold hchild hcold hfk href haction
              hpk hi (matchesAt_eq_true.mp hmatch))⟩
          obtain ⟨crow, hcrow⟩ := List.exists_mem_of_ne_nil crows hne
          obtain ⟨crow₀, -, hcshallow⟩ := hcrows crow hcrow
          exact ih hcshallow.pos h' hchild hcrows s
        · exact worn_updateColumnInRows h' hchild
            (fun crow hcrow => ((hscanned.mem_iff crow).mp hcrow).1) s
      refine Proc.wp_mono hgoal fun r _ _ hr => ?_
      cases r with
      | ok _ => exact ⟨hr.2, trivial, fun _ _ _ => trivial⟩
      | error e => exact ⟨hr.1, hr.2⟩
    · intro s' t' h' _
      refine ⟨fun _ _ => ⟨nofun, h'⟩, fun key _ _ => ⟨trivial, ?_⟩⟩
      have hworn := h'.deleteRow d indexes row key
      dsimp only
      split
      · exact hworn
      · rename_i e he
        exact ⟨(plain_deleteRow _ _ _ _ t'.trees e he).ne_stackOverflow, hworn⟩

end Worn

/-! ### The recursion ends -/

/-- A table has finitely many rows. -/
theorem finite_stored (t : Database) (d : TableDef) : {row | Stored t d row}.Finite := by
  refine (((t.trees d.rootPageID).entries.filterMap fun entry =>
    (decodeRow entry.2 d.columns).toOption).finite_toSet).subset ?_
  rintro row ⟨key, value, hlookup, hdecode⟩
  refine List.mem_filterMap.mpr ⟨(key, value), OrderedTree.mem_entries.mpr hlookup, ?_⟩
  rw [hdecode]
  rfl

/-- There are finitely many rows that refer to others. -/
theorem finite_cascades (db : Database) : {child | ∃ parent, Cascades db parent child}.Finite := by
  have htables : {d | ∃ name, db.catalog.tables.lookup name = some d}.Finite := by
    refine (db.catalog.tables.entries.map Sigma.snd).finite_toSet.subset ?_
    rintro d ⟨name, hname⟩
    exact List.mem_map.mpr ⟨⟨name, d⟩, AList.mem_lookup_iff.mp hname, rfl⟩
  refine (htables.biUnion fun d _ => (finite_stored db d).image (Prod.mk d)).subset ?_
  rintro ⟨d, row⟩ ⟨parent, hd, hstored, -⟩
  exact Set.mem_biUnion hd ⟨row, hstored, rfl⟩

/-- No row that a `DELETE` matches leads, along references that cascade, to
a row that lies on a cycle of such references. -/
def NoLoop (db : Database) (stmt : DeleteStmt) : Prop :=
  ∀ d, db.catalog.tables.lookup stmt.table = some d → ∀ row, Stored db d row →
    wanted d stmt.where row = .ok true → ¬ ReachesCycle (Cascades db) (d, row)

variable {db : Database}

/-- The stack that is large enough for one row is so for all of them. -/
theorem exists_depth {d : TableDef} {rows : List Row}
    (h : ∀ row ∈ rows, ¬ ReachesCycle (Cascades db) (d, row)) :
    ∃ n, 0 < n ∧ ∀ row ∈ rows, Shallow (Cascades db) n (d, row) := by
  induction rows with
  | nil => exact ⟨1, Nat.one_pos, nofun⟩
  | cons row rows ih =>
    obtain ⟨hrow, hrows⟩ := List.forall_mem_cons.mp h
    obtain ⟨m, hm⟩ := exists_shallow (finite_cascades db) hrow
    obtain ⟨n, hpos, hn⟩ := ih hrows
    refine ⟨max m n, lt_max_of_lt_right hpos, List.forall_mem_cons.mpr ⟨?_, ?_⟩⟩
    · exact hm.mono (le_max_left m n)
    · exact fun row hrow => (hn row hrow).mono (le_max_right m n)

theorem worn_locked (h : Rooted db) (s : Session) (table : Bytes) :
    Worn db (locked s table .lockExclusive db) where
  rooted := by
    rw [locked]
    split
    · exact h
    · exact h.handler _
  catalog := catalog_locked s table .lockExclusive db
  rows _ _ _ row hstored := by
    simp only [Stored, StoredAt, trees_locked] at hstored
    exact ⟨row, hstored, .refl row⟩

theorem wp_executeDelete_shallow (hrooted : Rooted db) {stmt : DeleteStmt}
    (hloop : NoLoop db stmt) :
    ∃ enough, ∀ depth ≥ enough, ∀ s,
      Proc.wp Database.any (executeDelete depth stmt)
        (fun r _ _ => r ≠ .error .stackOverflow) s db := by
  -- What is to be deleted is known beforehand.
  have hmatched : ∃ n, 0 < n ∧ ∀ d rows, db.catalog.tables.lookup stmt.table = some d →
      Collected db d (wanted d stmt.where) rows →
      ∀ row ∈ rows, Shallow (Cascades db) n (d, row) := by
    by_cases h : ∃ d rows, db.catalog.tables.lookup stmt.table = some d ∧
      Collected db d (wanted d stmt.where) rows
    · obtain ⟨d, rows, hd, hscanned⟩ := h
      obtain ⟨n, hpos, hn⟩ := exists_depth fun row hrow =>
        hloop d hd row ((hscanned.mem_iff row).mp hrow).1 ((hscanned.mem_iff row).mp hrow).2
      refine ⟨n, hpos, fun d' rows' hd' hscanned' => ?_⟩
      rw [hd] at hd'
      cases hd'
      rw [Collected, hscanned] at hscanned'
      cases hscanned'
      exact hn
    · exact ⟨1, Nat.one_pos, fun d rows hd hscanned => absurd ⟨d, rows, hd, hscanned⟩ h⟩
  obtain ⟨n, hpos, hn⟩ := hmatched
  refine ⟨n, fun depth hdepth s => ?_⟩
  have hworn := worn_locked hrooted s stmt.table
  refine wp_executeDelete asks_any rfl (fun _ _ _ => trivial) (by simp) (by simp) fun d _ hd =>
    ⟨fun _ => trivial, fun e he _ => he.ne_stackOverflow, fun rows hscanned => ?_⟩
  rw [hworn.catalog] at hd
  refine Proc.wp_mono (worn_deleteRowsFromTable (hpos.trans_le hdepth) hworn hd
    (fun row hrow => ⟨row, ?_, ?_⟩) s) fun _ _ _ h => h.1
  all_goals rw [Collected, trees_locked] at hscanned
  · exact ⟨((Collected.mem_iff hscanned row).mp hrow).1, .refl row⟩
  · exact (hn d rows hd hscanned row hrow).mono hdepth

/-- The outcome of a `DELETE` and, if the session goes on, the database after
it. -/
theorem World.delete_of_run {w : World} {depth : Nat} {stmt : DeleteStmt}
    {r : Except ExecErr Unit} {s : Session} {t : Database}
    (hrun : Proc.run Database.handler (executeDelete depth stmt) w.session w.db = ((r, s), t)) :
    w.outcome depth (.deleteStmt stmt) = r.map (fun _ => []) ∧
      (w.stopped = false → (w.step depth (.deleteStmt stmt)).db = t) := by
  have hall : Prog.run Database.handler (execute depth (.deleteStmt stmt) w.session) w.db =
      ((r.map fun _ => [], s), t) := by
    cases r with
    | ok _ => exact Proc.run_bind_of_ok hrun
    | error e => exact Proc.run_bind_of_error hrun
  refine ⟨?_, fun hopen => ?_⟩
  · rw [World.outcome, hall]
  · rw [World.step, hopen, if_neg Bool.false_ne_true, hall]

/-- What the rules show of a `DELETE` holds of its outcome and of the database
after it. -/
theorem World.delete_of_wp {w : World} {depth : Nat} {stmt : DeleteStmt}
    {Q : Except ExecErr Unit → Session → Database → Prop}
    (h : Proc.wp Database.any (executeDelete depth stmt) Q w.session w.db) :
    ∃ r s t, Q r s t ∧ w.outcome depth (.deleteStmt stmt) = r.map (fun _ => []) ∧
      (w.stopped = false → (w.step depth (.deleteStmt stmt)).db = t) := by
  rcases hrun : Proc.run Database.handler (executeDelete depth stmt) w.session w.db with ⟨⟨r, s⟩, t⟩
  exact ⟨r, s, t, Proc.run_of_wp h hrun, World.delete_of_run hrun⟩

theorem rooted_run (depth : Nat) (env : Env) (stmts : List Statement) :
    Rooted (stmts.foldl (World.step depth) (World.new env)).db := by
  induction stmts using List.reverseRecOn with
  | nil => exact .new env
  | append_singleton stmts stmt ih =>
    rw [List.foldl_append]
    exact World.rooted_step depth ih stmt

/-- A `DELETE` returns on a stack that is large enough, if no row it matches
leads to a cycle of references that cascade, after every run of statements. -/
theorem delete_returns (env : Env) (depth₀ : Nat) (stmts : List Statement) (stmt : DeleteStmt)
    (hloop : NoLoop (stmts.foldl (World.step depth₀) (World.new env)).db stmt) :
    ∃ enough, ∀ depth ≥ enough,
      (stmts.foldl (World.step depth₀) (World.new env)).outcome depth (.deleteStmt stmt) ≠
        .error .stackOverflow := by
  obtain ⟨n, hn⟩ := wp_executeDelete_shallow (rooted_run depth₀ env stmts) hloop
  refine ⟨n, fun depth hdepth => ?_⟩
  obtain ⟨r, _, _, hr, houtcome, -⟩ := World.delete_of_wp (hn depth hdepth _)
  rw [houtcome]
  cases r with
  | ok _ => exact nofun
  | error e => exact fun h => hr (congrArg _ (Except.error.inj h))

/-! ### A table that refers to itself -/

/-- `CREATE TABLE t (id INT PRIMARY KEY, parent INT, FOREIGN KEY (parent)
REFERENCES t (id) ON DELETE CASCADE)` and `INSERT INTO t (id) VALUES (1)`. -/
def family : List Statement :=
  [.createTableStmt
      { table := ascii "t", columns := [idColumn, intColumn "parent"],
        foreignKeys := [{ column := ascii "parent", refTable := ascii "t", refColumn := ascii "id",
                          onDelete := ascii "CASCADE" }] },
    .insertStmt { table := ascii "t", columns := [ascii "id"], values := [[integer "1"]] }]

/-- The table that `family` creates. -/
def familyTable : TableDef where
  name := ascii "t"
  columns := [{ name := ascii "id", type := .typeInt, primaryKey := true },
    { name := ascii "parent", type := .typeInt }]
  rootPageID := 1
  foreignKeys := [{ columnName := ascii "parent", refTable := ascii "t", refColumn := ascii "id",
                    onDelete := .fkCascade, onUpdate := .fkRestrict }]

/-- A row whose parent is the row 1. -/
def childOfFirst (id : Int64) : Row := [{ intVal := id }, { intVal := 1 }]

/-- `family` and then `INSERT INTO t VALUES (2, 1)`. -/
def twoGenerations : List Statement := family ++ [insertInto "t" [["2", "1"]]]

/-- The session after these. -/
def grownFamily : World := twoGenerations.foldl (World.step 1) (World.new plainEnv)

theorem tables_grownFamily {name : Bytes} {d : TableDef}
    (h : grownFamily.db.catalog.tables.lookup name = some d) :
    name = ascii "t" ∧ d = familyTable := by
  have htables : grownFamily.db.catalog.tables.entries = [⟨ascii "t", familyTable⟩] := by
    decide +kernel
  have hmem := AList.mem_lookup_iff.mp h
  rw [htables, List.mem_singleton] at hmem
  cases hmem
  exact ⟨rfl, rfl⟩

theorem rows_grownFamily {row : Row} (h : Stored grownFamily.db familyTable row) :
    row = [{ intVal := 1 }, .null] ∨ row = childOfFirst 2 := by
  have hscan : Collected grownFamily.db familyTable (wanted familyTable none)
      [[{ intVal := 1 }, .null], childOfFirst 2] := by
    unfold Collected
    decide +kernel
  simpa using (hscan.mem_iff row).mpr ⟨h, rfl⟩

/-- Only the second row refers to another, and none refers to it. -/
theorem cascades_grownFamily {x y : TableDef × Row} (h : Cascades grownFamily.db x y) :
    y = (familyTable, childOfFirst 2) ∧ x ≠ (familyTable, childOfFirst 2) := by
  obtain ⟨d, row⟩ := y
  obtain ⟨⟨name, hd⟩, hstored, fk, hfk, -, -, pk, i, hpk, hi, c, hc, hequal⟩ := h
  obtain ⟨-, rfl⟩ := tables_grownFamily hd
  have hcolumn : colIndex familyTable.columns (ascii "parent") = some 1 := by decide +kernel
  rw [List.mem_singleton.mp hfk] at hi
  cases hcolumn.symm.trans hi
  cases hc
  obtain rfl | rfl := rows_grownFamily hstored
  · cases hequal
  · refine ⟨rfl, ?_⟩
    rintro rfl
    have hkey : pkIndex familyTable.columns = some 0 := by decide
    cases hkey.symm.trans hpk
    revert hequal
    decide

theorem acyclic_grownFamily (x : TableDef × Row) :
    ¬ Relation.TransGen (Cascades grownFamily.db) x x := by
  intro h
  obtain ⟨y, hfirst, -⟩ := Relation.TransGen.head'_iff.mp h
  obtain ⟨z, -, hlast⟩ := Relation.TransGen.tail'_iff.mp h
  exact (cascades_grownFamily hfirst).2 (cascades_grownFamily hlast).1

theorem delete_returns_grownFamily :
    ∃ enough, ∀ depth ≥ enough,
      (twoGenerations.foldl (World.step 1) (World.new plainEnv)).outcome depth
        (.deleteStmt { table := ascii "t" }) ≠ .error .stackOverflow :=
  delete_returns plainEnv 1 twoGenerations { table := ascii "t" }
    fun _ _ _ _ _ ⟨y, _, hcycle⟩ => acyclic_grownFamily y hcycle

/-- `family` and then `UPDATE t SET parent = 1`: the row is its own parent. -/
def ownParent : World :=
  (family ++ [updateAll "t" "parent" "1"]).foldl (World.step 1) (World.new plainEnv)

/-- The call that deletes the row makes the same call again. -/
theorem ownParent_overflows (depth clock : Nat) (s : Session) :
    Proc.wp Database.any (deleteRowsFromTable depth familyTable [childOfFirst 1])
      (fun r _ _ => r = .error .stackOverflow) s { ownParent.db with clock := clock } := by
  induction depth generalizing clock with
  | zero => rfl
  | succ depth ih =>
    have hpk : pkIndex familyTable.columns = some 0 := by decide
    have hindexes : ownParent.db.catalog.indexesForTable familyTable.name = .ok [] := by
      decide +kernel
    have htables : ownParent.db.catalog.listTables 0 = [familyTable] := by decide +kernel
    have hcol : colIndex familyTable.columns (ascii "parent") = some 1 := by decide +kernel
    have hscan : Collected ownParent.db familyTable
        (matchesAt familyTable 1 { intVal := 1 }) [childOfFirst 1] := by
      unfold Collected
      decide +kernel
    refine wp_deleteRowsFromTable_succ asks_any (fun e _ h => ?_) fun pk indexes hpk' _ => ?_
    · obtain h | ⟨e', h⟩ := h
      · rw [hpk] at h
        cases h
      · exact absurd (h.symm.trans hindexes) nofun
    · rw [hpk] at hpk'
      cases hpk'
      refine Proc.wp_bind (R := fun r _ _ => r = .error .stackOverflow) (wp_deleteOne ?_)
        nofun fun _ _ _ h => h
      refine Proc.wp_mono (Q := fun r _ _ => r = .error .stackOverflow) ?_ ?_
      · refine wp_perform_bind fun _ => ⟨trivial, ?_⟩
        change Proc.wp _ (Proc.forEach _ (ownParent.db.catalog.listTables 0)) _ s _
        rw [htables]
        refine Proc.wp_bind (R := fun r _ _ => r = .error .stackOverflow)
          (Proc.wp_bind (R := fun r _ _ => r = .error .stackOverflow) ?_ nofun fun _ _ _ h => h)
          nofun fun _ _ _ h => h
        refine wp_onDelete (fun h => absurd rfl h) (fun _ _ => trivial) (fun _ e _ h => ?_)
          (fun _ i hi hrows => ?_) fun _ i rows _ hi hrows => ?_
        · obtain h | h := h
          · exact absurd (hcol.symm.trans h) nofun
          · exact (hscan.not_undecodable h).elim
        all_goals
          cases hcol.symm.trans hi
          cases hscan.symm.trans hrows
        exact ⟨nofun, fun _ => ih (clock + 1), nofun⟩
      · rintro r _ _ rfl
        rfl

/-- No stack is large enough to delete a row that is its own parent. -/
theorem own_parent_never_deleted :
    ¬ ∃ depth, ownParent.outcome depth (.deleteStmt { table := ascii "t" }) ≠
      .error .stackOverflow := by
  rintro ⟨depth, hreturns⟩
  have hsession : ownParent.session.currentTxn = none := by decide +kernel
  have hlocked : locked ownParent.session (ascii "t") .lockExclusive ownParent.db =
      { ownParent.db with clock := ownParent.db.clock } := by
    rw [locked, hsession]
  have htable : ownParent.db.catalog.tables.lookup (ascii "t") = some familyTable := by
    decide +kernel
  have hscan : Collected ownParent.db familyTable (wanted familyTable none) [childOfFirst 1] := by
    unfold Collected
    decide +kernel
  have hwp : Proc.wp Database.any
      (executeDelete depth { table := ascii "t" }) (fun r _ _ => r = .error .stackOverflow)
      ownParent.session ownParent.db := by
    refine wp_executeDelete asks_any hlocked (fun _ _ _ => trivial) (fun h => ?_) (fun h => ?_)
      fun d _ hd => ⟨fun _ => trivial, fun e _ h => ?_, fun rows hrows => ?_⟩
    · refine absurd (fun txnID htxn => ?_) h
      cases hsession.symm.trans htxn
    · cases htable.symm.trans h
    all_goals cases htable.symm.trans hd
    · exact absurd ⟨_, hscan⟩ h
    · cases hscan.symm.trans hrows
      exact ownParent_overflows depth _ _
  obtain ⟨_, _, _, rfl, houtcome, -⟩ := World.delete_of_wp hwp
  exact hreturns houtcome

end MySQLight.Sql
