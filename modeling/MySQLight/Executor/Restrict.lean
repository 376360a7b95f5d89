import MySQLight.Executor.Cascade
import MySQLight.Executor.RowWrites

/-!
A `DELETE` that a foreign key forbids.

The rows that refer to a row are looked at before the row is deleted, but
only when its turn comes. What has been deleted and set to NULL until then
stays so when a foreign key with `RESTRICT` stops the statement. Nothing has
changed exactly if the walk comes to that foreign key before its first write:
if the first foreign key with rows that refer to the first row restricts, or
cascades to rows whose first one is stopped in this way (`Blocked`).
-/

namespace MySQLight.Sql

open MySQLight.Data MySQLight.Schema MySQLight.Effect MySQLight.Storage

/-! ### The walk before its first write -/

/-- Only the clock and the locks have changed. -/
structure Untouched (db : Database) (clock : Nat) (t : Database) : Prop where
  trees : t.trees = db.trees
  catalog : t.catalog = db.catalog
  roots : t.roots = db.roots
  env : t.env = db.env
  clock : t.clock = clock

variable {clock : Nat}

theorem Untouched.tick {db t : Database} (h : Untouched db clock t) :
    Untouched db (clock + 1) t.tick :=
  ⟨h.trees, h.catalog, h.roots, h.env, congrArg (· + 1) h.clock⟩

theorem Untouched.collected {db t : Database} (h : Untouched db clock t) {d : TableDef}
    {keep : Row → Except ExecErr Bool} {rows : List Row} :
    Collected t d keep rows ↔ Collected db d keep rows := by
  rw [Collected, Collected, h.trees]

/-- The foreign keys in the order in which `ListTables` and the tables list
them. -/
def Database.referencesAt (db : Database) (clock : Nat) : List (TableDef × ForeignKeyDef) :=
  references (db.catalog.listTables (db.env.order clock))

theorem Untouched.references {db t : Database} (h : Untouched db clock t) :
    Sql.references (t.catalog.listTables (t.env.order t.clock)) = db.referencesAt clock := by
  rw [h.catalog, h.env, h.clock]
  rfl

/-- The rows that refer to this key, through one foreign key. -/
def Referrers (db : Database) (v : Value) (p : TableDef × ForeignKeyDef) (rows : List Row) :
    Prop :=
  ∃ i, colIndex p.1.columns p.2.columnName = some i ∧ Collected db p.1 (matchesAt p.1 i v) rows

/-- The first foreign key through which rows refer to a row, and these rows. -/
def FirstReferrers (db : Database) (clock : Nat) (d : TableDef) (row : Row)
    (p : TableDef × ForeignKeyDef) (rows : List Row) : Prop :=
  ∃ pk past rest, pkIndex d.columns = some pk ∧ db.referencesAt clock = past ++ p :: rest ∧
    (∀ q ∈ past, q.2.refTable = d.name → Referrers db (row.getD pk .null) q []) ∧
    p.2.refTable = d.name ∧ rows ≠ [] ∧ Referrers db (row.getD pk .null) p rows

/-- Deleting the row is stopped before anything is written. -/
inductive Blocked (db : Database) : Nat → TableDef → Row → Prop
  | restrict {clock : Nat} {d : TableDef} {row : Row} {p : TableDef × ForeignKeyDef}
      {rows : List Row} (first : FirstReferrers db clock d row p rows)
      (action : p.2.onDelete = .fkRestrict) : Blocked db clock d row
  | cascade {clock : Nat} {d : TableDef} {row crow : Row} {p : TableDef × ForeignKeyDef}
      {crows : List Row} (first : FirstReferrers db clock d row p (crow :: crows))
      (action : p.2.onDelete = .fkCascade) (blocked : Blocked db (clock + 1) p.1 crow) :
      Blocked db clock d row

section Blocked

variable {db t : Database} {clock : Nat} {d : TableDef} {row : Row}

theorem mem_or_eq_of_split {α : Type} {past rest done rest' : List α} {a b : α}
    (h : past ++ a :: rest = done ++ b :: rest') (hle : done.length ≤ past.length) :
    (b ∈ past ∧ done.length < past.length) ∨ b = a := by
  have hb : (past ++ a :: rest)[done.length]? = some b := by
    rw [h, List.getElem?_append_right le_rfl, Nat.sub_self, List.getElem?_cons_zero]
  obtain hlt | heq := hle.lt_or_eq
  · rw [List.getElem?_append_left hlt] at hb
    exact .inl ⟨List.mem_of_getElem? hb, hlt⟩
  · rw [heq, List.getElem?_append_right le_rfl, Nat.sub_self, List.getElem?_cons_zero] at hb
    exact .inr (Option.some.inj hb).symm

/-- One round of the walk before its first write. -/
theorem wp_onDelete_same {delete : TableDef → List Row → Exec Unit} {v : Value}
    {p : TableDef × ForeignKeyDef} {rows : List Row}
    {Q : Except ExecErr Unit → Session → Database → Prop} {s : Session}
    (hsame : Untouched db clock t) (href : p.2.refTable = d.name) (hrows : Referrers db v p rows)
    (hnone : rows = [] → Q (.ok ()) s t)
    (hsome : rows ≠ [] → (p.2.onDelete = .fkRestrict →
        Q (.error (.cannotDelete d.name rows.length p.1.name)) s t) ∧
      (p.2.onDelete = .fkCascade →
        Proc.wp Database.any (delete p.1 rows) Q s t) ∧
      (p.2.onDelete = .fkSetNull →
        Proc.wp Database.any (updateColumnInRows p.1 p.2.columnName .null rows) Q s t)) :
    Proc.wp Database.any (onDelete delete d.name v p.1 p.2) Q s t := by
  obtain ⟨i, hi, hscanned⟩ := hrows
  have hread := hsame.collected.mpr hscanned
  refine wp_onDelete (fun h => absurd href h) (fun _ _ => trivial) (fun _ e _ h => ?_)
    (fun _ i' hi' hnil => ?_) fun _ i' rows' hne hi' hrows' => ?_
  · obtain h | h := h
    · cases hi.symm.trans h
    · exact absurd h hread.not_undecodable
  · cases hi.symm.trans hi'
    exact hnone (Except.ok.inj (hread.symm.trans hnil))
  · cases hi.symm.trans hi'
    cases Except.ok.inj (hread.symm.trans hrows')
    exact hsome hne

/-- The walk comes to the first foreign key with referring rows. -/
theorem wp_deleteRowsFromTable_first {depth : Nat} {rows crows : List Row} {s : Session}
    {p : TableDef × ForeignKeyDef} (hsame : Untouched db clock t)
    (hfirst : FirstReferrers db clock d row p crows)
    (h : p.2.onDelete = .fkRestrict ∨
      (p.2.onDelete = .fkCascade ∧ ∀ s t, Untouched db (clock + 1) t →
      Proc.wp Database.any (deleteRowsFromTable depth p.1 crows)
        (fun r _ t' => (∃ e, r = .error e) ∧ t'.trees = db.trees) s t)) :
    Proc.wp Database.any (deleteRowsFromTable (depth + 1) d (row :: rows))
      (fun r _ t' => (∃ e, r = .error e) ∧ t'.trees = db.trees) s t := by
  obtain ⟨pk, past, rest, hpk, hlist, hpast, href, hne, hcrows⟩ := hfirst
  refine wp_deleteRowsFromTable_succ asks_any (fun e _ _ => ⟨⟨e, rfl⟩, hsame.trees⟩)
    fun pk' indexes hpk' _ => ?_
  cases hpk.symm.trans hpk'
  refine Proc.wp_bind (R := fun r _ t' => (∃ e, r = .error e) ∧ t'.trees = db.trees)
    (wp_deleteOne (wp_forEachKey_listed asks_any
      (J := fun done _ t => Untouched db (clock + 1) t ∧ done.length ≤ past.length)
      ⟨hsame.tick, Nat.zero_le _⟩ ?_ ?_)) nofun fun _ _ _ h => h
  · rintro done child fk rest' hsplit s t ⟨hsame', hlength⟩
    rw [hsame.references, hlist] at hsplit
    obtain ⟨hmem, hlt⟩ | rfl := mem_or_eq_of_split hsplit hlength
    · have hnext : Untouched db (clock + 1) t ∧ (done ++ [(child, fk)]).length ≤ past.length :=
        ⟨hsame', by rw [List.length_append, List.length_singleton]; omega⟩
      by_cases hrefers : fk.refTable = d.name
      · exact wp_onDelete_same hsame' hrefers (hpast _ hmem hrefers) (fun _ => hnext)
          fun hne => absurd rfl hne
      · rw [onDelete, if_neg hrefers]
        exact hnext
    · refine wp_onDelete_same hsame' href hcrows (fun hnil => absurd hnil hne) fun _ => ?_
      obtain haction | ⟨haction, hdelete⟩ := h
      · refine ⟨fun _ => ⟨⟨_, rfl⟩, hsame'.trees⟩, fun h' => ?_, fun h' => ?_⟩
        · cases haction.symm.trans h'
        · cases haction.symm.trans h'
      · refine ⟨fun h' => ?_, fun _ => ?_, fun h' => ?_⟩
        · cases haction.symm.trans h'
        · refine Proc.wp_mono (hdelete s t hsame') ?_
          rintro r s' t' ⟨⟨e, rfl⟩, htrees⟩
          exact ⟨⟨e, rfl⟩, htrees⟩
        · cases haction.symm.trans h'
  · rintro s' t' ⟨-, hlength⟩
    rw [hsame.references, hlist, List.length_append, List.length_cons] at hlength
    omega

/-- A blocked row stops the statement, and nothing has been written. -/
theorem Blocked.wp_deleteRowsFromTable (h : Blocked db clock d row) (depth : Nat) (rows : List Row)
    (s : Session) (t : Database) (hsame : Untouched db clock t) :
    Proc.wp Database.any (deleteRowsFromTable depth d (row :: rows))
      (fun r _ t' => (∃ e, r = .error e) ∧ t'.trees = db.trees) s t := by
  induction h generalizing depth rows s t with
  | restrict first action =>
    cases depth with
    | zero => exact ⟨⟨_, rfl⟩, hsame.trees⟩
    | succ depth => exact wp_deleteRowsFromTable_first hsame first (.inl action)
  | cascade first action _ ih =>
    cases depth with
    | zero => exact ⟨⟨_, rfl⟩, hsame.trees⟩
    | succ depth =>
      exact wp_deleteRowsFromTable_first hsame first (.inr ⟨action, ih depth _⟩)

end Blocked

/-! ### The first write -/

section Writes

variable {P : UInt32 → Bytes → Bytes → Prop}

/-- After a deletion the key is free until something is written to it. -/
theorem written_of_lookup {root : UInt32} {key value : Bytes} {wrap : Err → ExecErr}
    {rest : Unit → Write} (hrest : Fallible.Keeps (Gains P) (rest ())) {trees : Trees}
    (hok : ((treeDelete root key wrap >>= rest).run trees).1 = .ok ())
    (hlookup : (((treeDelete root key wrap >>= rest).run trees).2 root).lookup key = some value) :
    P root key value := by
  cases h : (trees root).lookup key with
  | none =>
    obtain ⟨e, he⟩ := run_treeDelete_of_absent h wrap
    rw [Fallible.run_bind_of_error he] at hok
    cases hok
  | some old =>
    obtain ⟨tree, hrun, htree⟩ := run_treeDelete h wrap
    rw [Fallible.run_bind_of_ok hrun] at hlookup
    obtain hlookup | h := hrest _ root key value hlookup
    · rw [Function.update_self, htree, Function.update_self] at hlookup
      cases hlookup
    · exact h

variable {t : Database} {d : TableDef} {indexes : List IndexDef} {row oldRow : Row} {key : Bytes}

/-- A deleted row is gone. -/
theorem not_storedAt_deleteRow
    (hok : (Database.handler (.deleteRow d indexes oldRow key) t).1 = .ok ()) :
    ¬ StoredAt (Database.handler (.deleteRow d indexes oldRow key) t).2 d key row := by
  rintro ⟨value, hlookup, -⟩
  obtain ⟨rest, heq, hrest⟩ : ∃ rest, deleteRow d indexes oldRow key =
      treeDelete d.rootPageID key (.deletingRow d.name) >>= rest ∧
        Fallible.Keeps (Gains fun _ _ _ => False) (rest ()) :=
    deleteRow_eq fun _ _ _ _ => gains_treeDelete
  change ((deleteRow d indexes oldRow key).run t.trees).1 = .ok () at hok
  change (((deleteRow d indexes oldRow key).run t.trees).2 d.rootPageID).lookup key = _ at hlookup
  rw [heq] at hok hlookup
  exact written_of_lookup hrest hok hlookup

/-- A column that has been set to NULL is NULL. -/
theorem eq_of_storedAt_setColumn (hrooted : Rooted t) (htarget : Target t d indexes)
    {column : Bytes} {i : Nat}
    (hfits : List.Forall₂ (fun v c => Value.Fits v c.type) oldRow d.columns)
    (hok : (Database.handler (.setColumn d indexes column i oldRow .null key) t).1 = .ok ())
    (h : StoredAt (Database.handler (.setColumn d indexes column i oldRow .null key) t).2
      d key row) :
    row = oldRow.set i .null := by
  obtain ⟨value, hlookup, hdecode⟩ := h
  obtain ⟨rest, heq, hrest⟩ := setColumn_null_eq d indexes column i oldRow key
  have hsize := OrderedTree.fits _ key value hlookup
  change ((setColumn d indexes column i oldRow .null key).run t.trees).1 = .ok () at hok
  change (((setColumn d indexes column i oldRow .null key).run t.trees).2
    d.rootPageID).lookup key = _ at hlookup
  rw [heq] at hok hlookup
  exact (row_of_writesNull hrooted htarget htarget.table hfits
    (written_of_lookup hrest hok hlookup) hsize hdecode).2.2

end Writes

/-! ### What has been written stays -/

/-- Where a row has a key, it is stored under it. -/
def OwnKeys (t : Database) : Prop :=
  ∀ name d, t.catalog.tables.lookup name = some d → ∀ key row key', StoredAt t d key row →
    KeyOf d row key' → key' = key

/-- The value that was in a cell of a table is not there any more. -/
structure Marred (db : Database) (d₀ : TableDef) (key₀ : Bytes) (i₀ : Nat) (t : Database) :
    Prop where
  rooted : Rooted t
  catalog : t.catalog = db.catalog
  table : db.catalog.tables.lookup d₀.name = some d₀
  own : OwnKeys t
  gone : ∀ row, StoredAt t d₀ key₀ row → (row.getD i₀ .null).isNull = true

/-- A NULL has no key. -/
theorem KeyOf.of_set_null {d : TableDef} {row : Row} {key : Bytes} {i : Nat}
    (h : KeyOf d (row.set i .null) key) : KeyOf d row key := by
  obtain ⟨pk, hpk, hkey⟩ := h
  rw [getD_set_null] at hkey
  split_ifs at hkey
  · rw [columnKey_of_null d.columns pk rfl] at hkey
    cases hkey
  · exact ⟨pk, hpk, hkey⟩

section Marred

variable {db t : Database} {d₀ : TableDef} {key₀ : Bytes} {i₀ : Nat} {name : Bytes} {d : TableDef}
  {indexes : List IndexDef} {row : Row} {key : Bytes}

theorem OwnKeys.deleteRow (h : OwnKeys t) (d : TableDef) (indexes : List IndexDef) (row : Row)
    (key : Bytes) : OwnKeys (Database.handler (.deleteRow d indexes row key) t).2 :=
  fun name' d' hd' key' row' key'' hstored =>
    h name' d' hd' key' row' key'' (storedAt_deleteRow hstored)

theorem OwnKeys.setColumn (h : OwnKeys t) (hrooted : Rooted t) (htarget : Target t d indexes)
    {column : Bytes} {i : Nat}
    (hfits : List.Forall₂ (fun v c => Value.Fits v c.type) row d.columns) (hkey : KeyOf d row key) :
    OwnKeys (Database.handler (.setColumn d indexes column i row .null key) t).2 := by
  intro name' d' hd' key' row' key'' hstored hkeyOf
  obtain hstored | ⟨rfl, rfl, rfl⟩ := storedAt_setColumn hrooted htarget hd' hfits hstored
  · exact h name' d' hd' key' row' key'' hstored hkeyOf
  · exact hkeyOf.of_set_null.unique hkey

theorem Marred.deleteRow (h : Marred db d₀ key₀ i₀ t) (d : TableDef) (indexes : List IndexDef)
    (row : Row) (key : Bytes) :
    Marred db d₀ key₀ i₀ (Database.handler (.deleteRow d indexes row key) t).2 where
  rooted := h.rooted.handler _
  catalog := h.catalog
  table := h.table
  own := h.own.deleteRow d indexes row key
  gone row' hstored := h.gone row' (storedAt_deleteRow hstored)

theorem Marred.setColumn (h : Marred db d₀ key₀ i₀ t) (htarget : Target t d indexes)
    {column : Bytes} {i : Nat} (hkey : KeyOf d row key)
    (hfits : List.Forall₂ (fun v c => Value.Fits v c.type) row d.columns)
    (hcell : d = d₀ → KeyOf d row key₀ → ((row.set i .null).getD i₀ .null).isNull = true) :
    Marred db d₀ key₀ i₀
      (Database.handler (.setColumn d indexes column i row .null key) t).2 := by
  refine ⟨h.rooted.handler _, h.catalog, h.table, h.own.setColumn h.rooted htarget hfits hkey,
    fun row' hstored => ?_⟩
  have htable : t.catalog.tables.lookup d₀.name = some d₀ := by rw [h.catalog, h.table]
  obtain hstored | ⟨rfl, rfl, rfl⟩ := storedAt_setColumn h.rooted htarget htable hfits hstored
  · exact h.gone row' hstored
  · exact hcell rfl hkey

theorem kept_marred (hrooted : Rooted db) :
    Kept db.catalog (fun _ _ => True) (fun _ => True) (fun _ => True) (fun v => v = .null)
      (fun _ _ => True)
      (fun d row => List.Forall₂ (fun v c => Value.Fits v c.type) row d.columns ∧
        (d = d₀ → KeyOf d row key₀ → (row.getD i₀ .null).isNull = true))
      (Marred db d₀ key₀ i₀) where
  asks := asks_any
  name := hrooted.table_name
  catalog _ h := h.catalog
  tick _ h := ⟨h.rooted.handler .listTables, h.catalog, h.table, h.own, h.gone⟩
  scan _ _ _ _ _ := trivial
  read d t h hd row hstored := by
    refine ⟨trivial, fits_of_stored hstored, fun heq hkey => ?_⟩
    -- The row was read under its own key, and had the NULL then.
    subst heq
    obtain ⟨key, hstored⟩ := hstored
    exact h.gone row (h.own d.name d hd key row key₀ hstored hkey ▸ hstored)
  delete d indexes row key _ h _ _ _ _ := ⟨trivial, h.deleteRow d indexes row key⟩
  set d indexes column i row v key t h htarget _ hkey _ _ hv hread := by
    subst hv
    refine ⟨trivial, h.setColumn htarget hkey hread.1 fun heq hkey₀ => ?_⟩
    rw [getD_set_null]
    split_ifs
    · rfl
    · exact hread.2 heq hkey₀

theorem marred_deleteRowsFromTable (hrooted : Rooted db) (depth : Nat)
    (hd : db.catalog.tables.lookup d.name = some d) (rows : List Row) (s : Session) (t : Database)
    (h : Marred db d₀ key₀ i₀ t) :
    Proc.wp Database.any (deleteRowsFromTable depth d rows)
      (fun _ _ t' => Marred db d₀ key₀ i₀ t') s t :=
  (kept_marred hrooted).deleteRowsFromTable rfl
    (fun _ _ _ _ _ => ⟨trivial, trivial⟩) depth hd trivial
    (fun _ _ => trivial) h

end Marred

/-! ### A walk that has written -/

/-- A value that was stored at the start is gone for good. -/
def Modified (db t : Database) : Prop :=
  ∃ d₀ key₀ i₀ row₀, StoredAt db d₀ key₀ row₀ ∧ (row₀.getD i₀ .null).isNull = false ∧
    Marred db d₀ key₀ i₀ t

theorem Modified.trees_ne {db t : Database} (h : Modified db t) : t.trees ≠ db.trees := by
  obtain ⟨d₀, key₀, i₀, row₀, ⟨value, hlookup, hdecode⟩, hvalue, hmarred⟩ := h
  intro htrees
  have hnull := hmarred.gone row₀ ⟨value, htrees ▸ hlookup, hdecode⟩
  rw [hvalue] at hnull
  cases hnull

/-- What a failed walk leaves behind. -/
def Left (db : Database) (blocked : Prop) (r : Except ExecErr Unit) (t : Database) : Prop :=
  match r with
  | .ok _ => Modified db t
  | .error e => e.Plain ∨ e = .stackOverflow ∨ Modified db t ∨ blocked

theorem Untouched.rooted {db t : Database} (h : Untouched db clock t) (hrooted : Rooted db) :
    Rooted t :=
  hrooted.of_catalog h.catalog fun _ hr => h.roots ▸ hr

theorem Untouched.own {db t : Database} (h : Untouched db clock t) (hown : OwnKeys db) :
    OwnKeys t := by
  simp only [OwnKeys, StoredAt, h.catalog, h.trees]
  exact hown

theorem Modified.left {db t : Database} (h : Modified db t) (blocked : Prop)
    (r : Except ExecErr Unit) : Left db blocked r t := by
  cases r with
  | ok _ => exact h
  | error e => exact .inr (.inr (.inl h))

/-- What stays marred whatever a procedure does stays modified. -/
theorem Modified.wp {db t : Database} (h : Modified db t) {x : Exec Unit} {s : Session}
    (hx : ∀ d₀ key₀ i₀, Marred db d₀ key₀ i₀ t →
      Proc.wp Database.any x
        (fun _ _ t' => Marred db d₀ key₀ i₀ t') s t) :
    Proc.wp Database.any x
      (fun _ _ t' => Modified db t') s t := by
  obtain ⟨d₀, key₀, i₀, row₀, hstored, hvalue, hmarred⟩ := h
  exact Proc.wp_mono (hx d₀ key₀ i₀ hmarred) fun _ _ _ h =>
    ⟨d₀, key₀, i₀, row₀, hstored, hvalue, h⟩

section Modified

variable {db t : Database} {clock : Nat} {name : Bytes} {d : TableDef} (hrooted : Rooted db)
  (hown : OwnKeys db)

include hrooted hown

theorem modifies_updateColumnInRows (hsame : Untouched db clock t)
    (hd : db.catalog.tables.lookup name = some d) {column : Bytes} {rows : List Row} {v : Value}
    (hne : rows ≠ []) {i : Nat} (hi : colIndex d.columns column = some i)
    (hscanned : Collected db d (matchesAt d i v) rows) (s : Session) :
    Proc.wp Database.any
      (updateColumnInRows d column .null rows) (fun r _ t' => Left db False r t') s t := by
  have hdname := hrooted.table_name name d hd
  have hrooted' := hsame.rooted hrooted
  have hfits : ∀ row ∈ rows, List.Forall₂ (fun v c => Value.Fits v c.type) row d.columns :=
    fun row hrow => fits_of_stored ((hscanned.mem_iff row).mp hrow).1
  refine wp_updateColumnInRows asks_any (fun _ he _ => .inl he)
    fun i' pk indexes hi' _ hpk hindexes => ?_
  cases hi.symm.trans hi'
  obtain ⟨first, others, rfl⟩ := List.exists_cons_of_ne_nil hne
  obtain ⟨hfirst, hmatch⟩ := (hscanned.mem_iff first).mp List.mem_cons_self
  obtain ⟨c, -, hequal⟩ := matchesAt_eq_true.mp hmatch
  have htarget : ∀ t' : Database, t'.catalog = db.catalog → Target t' d indexes := by
    intro t' ht'
    refine target_of hrooted.table_name ht' hd ?_
    rw [← hsame.catalog, ← hdname, hindexes]
  refine Proc.wp_bind (R := fun r _ t' => match r with
    | .ok _ => ∃ key, StoredAt db d key first ∧ Marred db d key i t'
    | .error e => e.Plain) ?_ ?_ fun _ _ _ he => .inl he
  · refine wp_setOne (fun _ _ => trivial) fun key hkey _ => ⟨trivial, ?_⟩
    split
    · rename_i hok
      obtain ⟨key', hstored⟩ := hfirst
      cases hown name d hd key' first key hstored ⟨pk, hpk, hkey⟩
      refine ⟨key, hstored, hrooted'.handler _, hsame.catalog, hdname ▸ hd, ?_, fun row hrow => ?_⟩
      · exact (hsame.own hown).setColumn hrooted' (htarget t hsame.catalog)
          (hfits first List.mem_cons_self) ⟨pk, hpk, hkey⟩
      · rw [eq_of_storedAt_setColumn hrooted' (htarget t hsame.catalog)
          (hfits first List.mem_cons_self) hok hrow, getD_set_null, if_pos rfl]
        rfl
    · rename_i e he
      exact plain_setColumn _ _ _ _ _ _ t.trees e he
  · rintro _ s' t' ⟨key, hstored, hmarred⟩
    refine Proc.wp_mono (Proc.wp_forEach_keeps (J := fun _ t => Marred db d key i t) hmarred
      fun row hrow s t h => ?_) fun r s t h => ?_
    · refine wp_setOne (fun _ _ => h) fun key' hkey' _ => ⟨trivial, ?_⟩
      refine h.setColumn (htarget t h.catalog) ⟨pk, hpk, hkey'⟩
        (hfits row (List.mem_cons_of_mem _ hrow)) fun _ _ => ?_
      rw [getD_set_null, if_pos rfl]
      rfl
    · have hmodified : Modified db t :=
        ⟨d, key, i, first, hstored, (not_null_of_valuesEqual hequal).1, h⟩
      cases r with
      | ok _ => exact hmodified
      | error e => exact .inr (.inr (.inl hmodified))

variable {row : Row}

/-- One round of the walk: nothing refers to the row, or something is
written, or the walk is stopped. -/
theorem left_onDelete {delete : TableDef → List Row → Exec Unit} {pk : Nat}
    {past rest : List (TableDef × ForeignKeyDef)} {child : TableDef} {fk : ForeignKeyDef}
    (hsame : Untouched db (clock + 1) t) (hpk : pkIndex d.columns = some pk)
    (hchild : db.catalog.tables.lookup name = some child)
    (hlist : db.referencesAt clock = past ++ (child, fk) :: rest)
    (hpast : ∀ q ∈ past, q.2.refTable = d.name → Referrers db (row.getD pk .null) q [])
    (hdelete : ∀ crow crows s t, Untouched db (clock + 1) t → Stored db child crow →
      Proc.wp Database.any (delete child (crow :: crows))
        (fun r _ t' => Left db (Blocked db (clock + 1) child crow) r t') s t) (s : Session) :
    Proc.wp Database.any (onDelete delete d.name (row.getD pk .null) child fk) (fun r _ t' =>
        match r with
        | .ok _ => (Untouched db (clock + 1) t' ∧ ∀ q ∈ past ++ [(child, fk)],
            q.2.refTable = d.name → Referrers db (row.getD pk .null) q []) ∨ Modified db t'
        | .error e => Left db (Blocked db clock d row) (.error e) t') s t := by
  have hquiet : (fk.refTable = d.name → Referrers db (row.getD pk .null) (child, fk) []) →
      ∀ q ∈ past ++ [(child, fk)], q.2.refTable = d.name →
        Referrers db (row.getD pk .null) q [] := by
    intro h q hq
    obtain hq | hq := List.mem_append.mp hq
    · exact hpast q hq
    · rw [List.mem_singleton.mp hq]
      exact h
  refine wp_onDelete (fun h => .inl ⟨hsame, hquiet fun h' => absurd h' h⟩) (fun _ _ => trivial)
    (fun _ _ he _ => .inl he) (fun _ i hi hrows => .inl ⟨hsame, hquiet fun _ => ?_⟩)
    fun href i crows hne hi hrows => ?_
  · exact ⟨i, hi, hsame.collected.mp hrows⟩
  · rw [hsame.collected] at hrows
    have hfirst : FirstReferrers db clock d row (child, fk) crows :=
      ⟨pk, past, rest, hpk, hlist, hpast, href, hne, i, hi, hrows⟩
    refine ⟨fun haction => .inr (.inr (.inr (.restrict hfirst haction))), fun haction => ?_,
      fun _ => ?_⟩
    · obtain ⟨crow, crows, rfl⟩ := List.exists_cons_of_ne_nil hne
      have hcrow := ((hrows.mem_iff crow).mp List.mem_cons_self).1
      refine Proc.wp_mono (hdelete crow crows s t hsame hcrow) fun r _ t' hleft => ?_
      cases r with
      | ok _ => exact .inr hleft
      | error e => exact hleft.imp_right (.imp_right (.imp_right (.cascade hfirst haction)))
    · refine Proc.wp_mono (modifies_updateColumnInRows hrooted hown hsame hchild hne hi hrows s)
        fun r _ t' hleft => ?_
      cases r with
      | ok _ => exact .inr hleft
      | error e => exact hleft.imp_right (.imp_right (.imp_right False.elim))

/-- A row that is deleted is a value that is gone. -/
theorem left_deleteRow {pk : Nat} {key : Bytes} {indexes : List IndexDef}
    (hsame : Untouched db clock t) (hpk : pkIndex d.columns = some pk)
    (hd : db.catalog.tables.lookup name = some d) (hstored : Stored db d row)
    (hkey : columnKey d.columns pk (row.getD pk .null) = .ok key) (blocked : Prop) :
    Left db blocked (Database.handler (.deleteRow d indexes row key) t).1
      (Database.handler (.deleteRow d indexes row key) t).2 := by
  cases hr : (Database.handler (.deleteRow d indexes row key) t).1 with
  | error e => exact .inl (plain_deleteRow _ _ _ _ t.trees e hr)
  | ok _ =>
    obtain ⟨key', hstored⟩ := hstored
    cases hown name d hd key' row key hstored ⟨pk, hpk, hkey⟩
    refine ⟨d, key, pk, row, hstored, ?_, (hsame.rooted hrooted).handler _, hsame.catalog, ?_,
      (hsame.own hown).deleteRow d indexes row key, fun row' hrow' => ?_⟩
    · rw [← Bool.not_eq_true]
      intro hnull
      rw [columnKey_of_null d.columns pk hnull] at hkey
      cases hkey
    · rw [hrooted.table_name name d hd, hd]
    · exact absurd hrow' (not_storedAt_deleteRow hr)

theorem left_deleteRowsFromTable (depth : Nat) (hd : db.catalog.tables.lookup name = some d)
    (hstored : Stored db d row) (rest : List Row) (s : Session) (hsame : Untouched db clock t) :
    Proc.wp Database.any (deleteRowsFromTable depth d (row :: rest))
      (fun r _ t' => Left db (Blocked db clock d row) r t') s t := by
  induction depth generalizing clock name d row rest s t with
  | zero => exact .inr (.inl rfl)
  | succ depth ih =>
    refine wp_deleteRowsFromTable_succ asks_any (fun _ he _ => .inl he)
      fun pk indexes hpk hindexes => ?_
    refine Proc.wp_bind (R := fun r _ t' => Left db (Blocked db clock d row) r t')
      (wp_deleteOne (wp_forEachKey_listed asks_any
        (J := fun past _ t' => (Untouched db (clock + 1) t' ∧ ∀ q ∈ past, q.2.refTable = d.name →
          Referrers db (row.getD pk .null) q []) ∨ Modified db t')
        (.inl ⟨hsame.tick, nofun⟩) ?_ ?_)) ?_ fun _ _ _ h => h
    · rintro past child fk rest' hsplit s t' h
      have hlist := hsame.references.symm.trans hsplit
      have hchild : ∃ name, db.catalog.tables.lookup name = some child := by
        have hmem : (child, fk) ∈ db.referencesAt clock := by
          rw [hlist]
          exact List.mem_append_right _ List.mem_cons_self
        rw [← hsame.references] at hmem
        obtain ⟨name, hname⟩ := mem_listTables.mp (mem_references.mp hmem).1
        exact ⟨name, hsame.catalog ▸ hname⟩
      obtain ⟨name', hchild⟩ := hchild
      obtain ⟨hsame', hpast⟩ | hmodified := h
      · exact left_onDelete hrooted hown hsame' hpk hchild hlist hpast
          (fun crow crows s t h hcrow => ih hchild hcrow crows s h) s
      · refine Proc.wp_mono (hmodified.wp fun d₀ key₀ i₀ h => ?_) fun r _ _ h => ?_
        · have hlookup := hrooted.lookup_name hchild
          exact (kept_marred hrooted).onDelete rfl hlookup (fun _ => ⟨trivial, trivial⟩)
            (fun _ rows s t h _ => marred_deleteRowsFromTable hrooted depth hlookup rows s t h) h
        cases r with
        | ok _ => exact .inr h
        | error e => exact h.left _ _
    · rintro s' t' h
      refine ⟨fun _ _ => .inl trivial, fun key hkey _ => ⟨trivial, ?_⟩⟩
      obtain ⟨hsame', -⟩ | hmodified := h
      · exact left_deleteRow hrooted hown hsame' hpk hd hstored hkey _
      · obtain ⟨d₀, key₀, i₀, row₀, hrow₀, hvalue, hmarred⟩ := hmodified
        exact Modified.left ⟨d₀, key₀, i₀, row₀, hrow₀, hvalue,
          hmarred.deleteRow d indexes row key⟩ _ _
    · intro _ s' t' hmodified
      refine Proc.wp_mono (hmodified.wp fun d₀ key₀ i₀ h => ?_) fun r _ _ h => h.left _ r
      exact Proc.wp_forEach_keeps (J := fun _ t => Marred db d₀ key₀ i₀ t) h fun row _ s t h =>
        (kept_marred hrooted).deleteOne rfl (fun _ _ _ _ _ => ⟨trivial, trivial⟩)
          (fun _ hchild _ rows s t h _ =>
            marred_deleteRowsFromTable hrooted depth hchild rows s t h)
          (hrooted.lookup_name hd) trivial hpk (hsame.catalog ▸ hindexes) trivial h

end Modified

/-! ### Statements -/

/-- The first row that the `DELETE` matches is blocked. -/
def StoppedFirst (db : Database) (stmt : DeleteStmt) : Prop :=
  ∃ d row rest, db.catalog.tables.lookup stmt.table = some d ∧
    Collected db d (wanted d stmt.where) (row :: rest) ∧ Blocked db db.clock d row

theorem untouched_locked (s : Session) (table : Bytes) (mode : Txn.LockMode) (db : Database) :
    Untouched db db.clock (locked s table mode db) := by
  rw [locked]
  split <;> exact ⟨rfl, rfl, rfl, rfl, rfl⟩

section Statements

variable {db : Database} {stmt : DeleteStmt}

theorem wp_executeDelete_stopped (h : StoppedFirst db stmt) (depth : Nat) (s : Session) :
    Proc.wp Database.any (executeDelete depth stmt) (fun _ _ t' => t'.trees = db.trees) s db := by
  obtain ⟨d, row, rest, hd, hrows, hblocked⟩ := h
  have hsame := untouched_locked s stmt.table .lockExclusive db
  refine wp_executeDelete asks_any rfl (fun _ _ _ => trivial) (fun _ => hsame.trees)
    (fun _ _ => hsame.trees) fun d' _ hd' =>
      ⟨fun _ => trivial, fun _ _ _ => hsame.trees, fun rows' hrows' => ?_⟩
  rw [hsame.catalog] at hd'
  cases hd.symm.trans hd'
  rw [hsame.collected] at hrows'
  cases Except.ok.inj (hrows.symm.trans hrows')
  exact Proc.wp_mono (hblocked.wp_deleteRowsFromTable depth rest s _ hsame) fun _ _ _ h => h.2

theorem wp_executeDelete_left (hrooted : Rooted db) (hown : OwnKeys db) (depth : Nat)
    (s : Session) :
    Proc.wp Database.any (executeDelete depth stmt)
      (fun r _ t' => ∀ parent n child, r = .error (.cannotDelete parent n child) →
        t'.trees = db.trees → StoppedFirst db stmt) s db := by
  have hsame := untouched_locked s stmt.table .lockExclusive db
  refine wp_executeDelete asks_any rfl (fun _ _ _ => trivial) nofun nofun
    fun d _ hd => ⟨fun _ => trivial, fun e he _ => ?_, fun rows hrows => ?_⟩
  · rintro _ _ _ ⟨⟩
    exact he.elim
  rw [hsame.catalog] at hd
  rw [hsame.collected] at hrows
  cases rows with
  | nil =>
    cases depth with
    | zero => exact nofun
    | succ depth =>
      refine wp_deleteRowsFromTable_succ asks_any (fun e he _ => ?_) fun _ _ _ _ => nofun
      rintro _ _ _ ⟨⟩
      exact he.elim
  | cons row rest =>
    have hstored := ((hrows.mem_iff row).mp List.mem_cons_self).1
    refine Proc.wp_mono (left_deleteRowsFromTable hrooted hown depth hd hstored rest s hsame) ?_
    rintro _ _ t' hleft parent n child rfl htrees
    obtain h | h | h | h := hleft
    · exact h.elim
    · cases h
    · exact absurd htrees h.trees_ne
    · exact ⟨d, row, rest, hd, hrows, h⟩

/-- When a foreign key stops a `DELETE`, nothing has been written if the
first row was stopped at once, and only then if the rows are stored under
their keys. -/
theorem trees_of_restricted {w : World} {depth : Nat} {parent child : Bytes} {n : Nat}
    (hopen : w.stopped = false)
    (hfail : w.outcome depth (.deleteStmt stmt) = .error (.cannotDelete parent n child)) :
    (StoppedFirst w.db stmt → (w.step depth (.deleteStmt stmt)).db.trees = w.db.trees) ∧
      (Rooted w.db → OwnKeys w.db →
        (w.step depth (.deleteStmt stmt)).db.trees = w.db.trees → StoppedFirst w.db stmt) := by
  constructor
  · intro h
    obtain ⟨r, s, t, htrees, -, hstep⟩ := World.delete_of_wp (wp_executeDelete_stopped h depth _)
    rw [hstep hopen, htrees]
  · intro hrooted hown htrees
    obtain ⟨r, s, t, hleft, houtcome, hstep⟩ :=
      World.delete_of_wp (wp_executeDelete_left hrooted hown depth w.session)
    rw [hstep hopen] at htrees
    refine hleft parent n child ?_ htrees
    cases r with
    | ok _ => cases hfail.symm.trans houtcome
    | error e => exact congrArg _ (Except.error.inj (houtcome.symm.trans hfail))

end Statements

/-! ### A row that goes before another is stopped -/

/-- `CREATE TABLE p (id INT PRIMARY KEY)`, `CREATE TABLE c (id INT PRIMARY
KEY, p INT, FOREIGN KEY (p) REFERENCES p (id) ON DELETE RESTRICT)`, a row of
`p` that nothing refers to and one that a row of `c` refers to. -/
def restrictSecond : World :=
  [.createTableStmt { table := ascii "p", columns := [idColumn] },
    .createTableStmt
      { table := ascii "c", columns := [idColumn, intColumn "p"],
        foreignKeys := [{ column := ascii "p", refTable := ascii "p", refColumn := ascii "id",
                          onDelete := ascii "RESTRICT" }] },
    insertInto "p" [["1"], ["2"]], insertInto "c" [["7", "2"]]].foldl (World.step 1)
    (World.new plainEnv)

/-- `DELETE FROM p WHERE id = 2`. -/
def deleteSecond : DeleteStmt where
  table := ascii "p"
  «where» := some (.binaryExpr (.columnRef [] (ascii "id")) .eq (integer "2"))

theorem stoppedFirst_deleteSecond : StoppedFirst restrictSecond.db deleteSecond := by
  let p : TableDef :=
    { name := ascii "p", columns := [{ name := ascii "id", type := .typeInt, primaryKey := true }],
      foreignKeys := [], rootPageID := 1 }
  let fk : ForeignKeyDef :=
    { columnName := ascii "p", refTable := ascii "p", refColumn := ascii "id",
      onDelete := .fkRestrict, onUpdate := .fkRestrict }
  let c : TableDef :=
    { name := ascii "c", columns := [{ name := ascii "id", type := .typeInt, primaryKey := true },
        { name := ascii "p", type := .typeInt }], foreignKeys := [fk], rootPageID := 2 }
  have hrows : Collected restrictSecond.db p (wanted p deleteSecond.where) [[{ intVal := 2 }]] := by
    unfold Collected
    decide +kernel
  have hcrows : Collected restrictSecond.db c (matchesAt c 1 { intVal := 2 })
      [[{ intVal := 7 }, { intVal := 2 }]] := by
    unfold Collected
    decide +kernel
  have hfirst : FirstReferrers restrictSecond.db restrictSecond.db.clock p [{ intVal := 2 }] (c, fk)
      [[{ intVal := 7 }, { intVal := 2 }]] :=
    ⟨0, [], [], by decide +kernel, by decide +kernel, nofun, rfl, nofun, 1, by decide +kernel,
      hcrows⟩
  exact ⟨p, [{ intVal := 2 }], [], by decide +kernel, hrows, .restrict hfirst rfl⟩

theorem trees_of_restricted_deleteSecond :
    (restrictSecond.step 1 (.deleteStmt deleteSecond)).db.trees = restrictSecond.db.trees := by
  have hfail : restrictSecond.outcome 1 (.deleteStmt deleteSecond) =
      .error (.cannotDelete (ascii "p") 1 (ascii "c")) := by decide +kernel
  exact (trees_of_restricted (by decide +kernel) hfail).1 stoppedFirst_deleteSecond

/-- The first row is deleted before the second one is stopped. -/
theorem restrict_after_delete :
    restrictSecond.outcome 1 (.deleteStmt { table := ascii "p" }) =
        .error (.cannotDelete (ascii "p") 1 (ascii "c")) ∧
      (restrictSecond.db.trees 1).lookup (be 8 1) = some (0 :: be 8 1) ∧
      ((restrictSecond.step 1 (.deleteStmt { table := ascii "p" })).db.trees 1).lookup (be 8 1) =
        none := by
  decide +kernel

end MySQLight.Sql
