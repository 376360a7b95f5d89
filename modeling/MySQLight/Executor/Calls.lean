import MySQLight.Executor.Execute

/-!
How the statements call the database.

For each procedure there is a rule that follows its text: what is known at
a call, and what has to be shown of it. The rules are about any handler of
the form `Database.checked assume require`, so what is shown of
the calls (that they are well formed, that a lock is held, that an invariant
is kept) is up to the user of the rules.
-/

namespace MySQLight.Sql

open MySQLight.Data MySQLight.Schema MySQLight.Effect MySQLight.Txn

/-- An error other than those of a lock, of a foreign key that restricts and
of the stack. -/
def ExecErr.Plain : ExecErr → Prop
  | .blocked | .stackOverflow | .cannotDelete .. => False
  | _ => True

/-! ### Rows that are read -/

section Collect

variable {columns : List ColumnDef} {keep : Row → Except ExecErr Bool} {values : List Bytes}
  {rows : List Row}

theorem collect_cons_eq_ok {value : Bytes} :
    collect columns keep (value :: values) = .ok rows ↔
      ∃ row kept rest, decodeRow value columns = .ok row ∧ keep row = .ok kept ∧
        collect columns keep values = .ok rest ∧ rows = if kept then row :: rest else rest := by
  rw [collect]
  cases decodeRow value columns with
  | error e => simp [Except.mapError, bind, Except.bind]
  | ok row =>
    cases hkeep : keep row with
    | error e => simp [Except.mapError, bind, Except.bind, hkeep]
    | ok kept =>
      cases collect columns keep values with
      | error e => simp [Except.mapError, bind, Except.bind, hkeep]
      | ok rest =>
        cases kept <;>
          simp [Except.mapError, bind, Except.bind, hkeep, pure, Except.pure, eq_comm]

/-- The rows that are kept are those of the values that are. -/
theorem mem_of_collect (h : collect columns keep values = .ok rows) {row : Row} :
    row ∈ rows ↔ ∃ value ∈ values, decodeRow value columns = .ok row ∧ keep row = .ok true := by
  induction values generalizing rows with
  | nil =>
    cases h
    simp
  | cons value values ih =>
    obtain ⟨first, kept, rest, hdecode, hkeep, hrest, rfl⟩ := collect_cons_eq_ok.mp h
    have hmem : row ∈ (if kept then first :: rest else rest) ↔
        (kept = true ∧ row = first) ∨ row ∈ rest := by
      cases kept <;> simp
    rw [hmem, ih hrest, List.exists_mem_cons_iff, hdecode]
    refine or_congr_left ⟨?_, ?_⟩
    · rintro ⟨rfl, rfl⟩
      exact ⟨rfl, hkeep⟩
    · rintro ⟨hrow, htrue⟩
      cases hrow
      rw [hkeep] at htrue
      cases htrue
      exact ⟨rfl, rfl⟩

/-- A scan fails at a value that is not a row, or at a row it cannot judge. -/
theorem cause_of_collect_error {e : ExecErr} (h : collect columns keep values = .error e) :
    ∃ value ∈ values, (∃ e', decodeRow value columns = .error e' ∧ e = .row e') ∨
      ∃ row, decodeRow value columns = .ok row ∧ keep row = .error e := by
  induction values with
  | nil => cases h
  | cons value values ih =>
    rw [collect] at h
    cases hdecode : decodeRow value columns with
    | error e' =>
      rw [hdecode] at h
      cases h
      exact ⟨value, List.mem_cons_self, .inl ⟨e', hdecode, rfl⟩⟩
    | ok row =>
      cases hkeep : keep row with
      | error e' =>
        simp only [hdecode, Except.mapError, bind, Except.bind, hkeep] at h
        cases h
        exact ⟨value, List.mem_cons_self, .inr ⟨row, hdecode, hkeep⟩⟩
      | ok kept =>
        cases hrest : collect columns keep values with
        | error e' =>
          simp only [hdecode, Except.mapError, bind, Except.bind, hkeep, hrest] at h
          cases h
          obtain ⟨value', hmem, hcause⟩ := ih hrest
          exact ⟨value', List.mem_cons_of_mem value hmem, hcause⟩
        | ok rest =>
          simp only [hdecode, Except.mapError, bind, Except.bind, hkeep, hrest] at h
          cases h

theorem plain_of_collect (hkeep : ∀ row e, keep row = .error e → e.Plain) {e : ExecErr}
    (h : collect columns keep values = .error e) : e.Plain := by
  obtain ⟨value, -, ⟨e', -, rfl⟩ | ⟨row, -, hrow⟩⟩ := cause_of_collect_error h
  · trivial
  · exact hkeep row e hrow

end Collect

/-- The row is stored in the table under the key. -/
def StoredAt (t : Database) (d : TableDef) (key : Bytes) (row : Row) : Prop :=
  ∃ value, (t.trees d.rootPageID).lookup key = some value ∧ decodeRow value d.columns = .ok row

/-- The row is stored in the table. -/
def Stored (t : Database) (d : TableDef) (row : Row) : Prop := ∃ key, StoredAt t d key row

/-- A row that was read is as long as the table is wide. -/
theorem length_of_stored {t : Database} {d : TableDef} {row : Row} (h : Stored t d row) :
    row.length = d.columns.length := by
  obtain ⟨key, value, -, hdecode⟩ := h
  exact length_of_decodeRow hdecode

/-- The column at a position has the value, as `valuesEqual` sees it. -/
def Matches (d : TableDef) (i : Nat) (v : Value) (row : Row) : Prop :=
  ∃ c, d.columns[i]? = some c ∧ valuesEqual (row.getD i .null) v c.type = true

/-- What `findRowsMatchingValue` asks of a row. -/
def matchesAt (d : TableDef) (i : Nat) (value : Value) (row : Row) : Except ExecErr Bool :=
  .ok ((d.columns[i]?).any fun c => valuesEqual (row.getD i .null) value c.type)

/-- What the scan of `executeUpdate` and `executeDelete` asks of a row. -/
def wanted (d : TableDef) (condition : Option Expr) (row : Row) : Except ExecErr Bool :=
  match condition with
  | none => .ok true
  | some predicate => holds predicate d.columns row

/-- The rows that a scan of the table delivers, in key order. -/
def Collected (t : Database) (d : TableDef) (keep : Row → Except ExecErr Bool) (rows : List Row) :
    Prop :=
  collect d.columns keep ((t.trees d.rootPageID).entries.map (·.2)) = .ok rows

/-- A stored value of the table is not a row. -/
def Undecodable (t : Database) (d : TableDef) : Prop :=
  ∃ key value e, (t.trees d.rootPageID).lookup key = some value ∧
    decodeRow value d.columns = .error e

/-- A foreign key of a row has what it refers to. -/
def HasParent (t : Database) (d : TableDef) (row : Row) (fk : ForeignKeyDef) : Prop :=
  ∀ i, colIndex d.columns fk.columnName = some i → (row.getD i .null).isNull = false →
    ∃ parent j prow, t.catalog.tables.lookup fk.refTable = some parent ∧
      colIndex parent.columns fk.refColumn = some j ∧ Stored t parent prow ∧
      Matches parent j (row.getD i .null) prow

/-- What a statement has found out about its table before it comes to the
rows. -/
structure Opened (t : Database) (table : Bytes) (d : TableDef) (pk : Nat)
    (indexes : List IndexDef) : Prop where
  lookup : t.catalog.tables.lookup table = some d
  key : pkIndex d.columns = some pk
  listed : t.catalog.indexesForTable table = .ok indexes

/-- The database after a request for a lock. -/
def locked (s : Session) (table : Bytes) (mode : LockMode) (t : Database) : Database :=
  match s.currentTxn with
  | none => t
  | some txnID => (Database.handler (.acquire txnID table mode) t).2

/-! ### Reading -/

/-- The catalog may be asked at any time. -/
structure Asks (require : DbOp → Database → Prop) : Prop where
  getTable : ∀ name t, require (.getTable name) t
  indexesForTable : ∀ name t, require (.indexesForTable name) t
  listTables : ∀ t, require .listTables t

/-- The database with nothing assumed of the calls and nothing to be shown. -/
noncomputable abbrev Database.any : Prog.Ideal DbI Database :=
  Database.checked (fun _ _ => True) fun _ _ => True

theorem asks_any : Asks fun _ _ => True where
  getTable _ _ := trivial
  indexesForTable _ _ := trivial
  listTables _ := trivial

/-- What a procedure ensures if `assume` holds of its calls; `require` does. -/
abbrev Meets (assume require : DbOp → Database → Prop) {α : Type} (p : Exec α)
    (Q : Except ExecErr α → Session → Database → Prop) : Session → Database → Prop :=
  Proc.wp (Database.checked assume require) p Q

/-- The call is made as required, and `Q` holds of what it returns. -/
def Performs (assume require : DbOp → Database → Prop) (o : DbOp)
    (Q : o.Resp → Session → Database → Prop) (s : Session) (t : Database) : Prop :=
  assume o t → require o t ∧ Q (Database.handler o t).1 s (Database.handler o t).2

/-- `P` after a success, `Q` after an error. -/
abbrev OrFails (P : Session → Database → Prop)
    (Q : Except ExecErr Unit → Session → Database → Prop) (r : Except ExecErr Unit) (s : Session)
    (t : Database) : Prop :=
  match r with
  | .ok _ => P s t
  | .error e => Q (.error e) s t

/-- The tables that the foreign keys refer to may be scanned. -/
def ScansParents (assume require : DbOp → Database → Prop) (d : TableDef) (t : Database) : Prop :=
  ∀ fk ∈ d.foreignKeys, ∀ parent, t.catalog.tables.lookup fk.refTable = some parent →
    assume (.scan parent) t → require (.scan parent) t

section Rules

variable {assume require : DbOp → Database → Prop} {α : Type}
  {Q : Except ExecErr α → Session → Database → Prop} {s : Session} {t : Database}

theorem wp_perform_bind {o : DbOp} {f : o.Resp → Exec α}
    (h : assume o t → require o t ∧
      Meets assume require (f (Database.handler o t).1) Q s (Database.handler o t).2) :
    Meets assume require (perform o >>= f) Q s t :=
  Prog.holds_checked.mpr h

theorem wp_getTable_bind (hask : Asks require) {name : Bytes} {wrap : CatalogErr → ExecErr}
    {f : TableDef → Exec α}
    (hok : ∀ d, t.catalog.tables.lookup name = some d →
      Meets assume require (f d) Q s t)
    (herror : t.catalog.tables.lookup name = none → ∀ e, Q (.error (wrap e)) s t) :
    Meets assume require (getTable name wrap >>= f) Q s t := by
  rw [getTable, bind_assoc]
  refine wp_perform_bind fun _ => ⟨hask.getTable name t, ?_⟩
  show Proc.wp _ (Proc.ofExcept ((t.catalog.getTable name).mapError wrap) >>= f) Q s t
  rw [Catalog.getTable]
  cases hlookup : t.catalog.tables.lookup name with
  | none => exact herror hlookup _
  | some d => exact hok d hlookup

theorem wp_indexesForTable_bind (hask : Asks require) {name : Bytes} {f : List IndexDef → Exec α}
    (hok : ∀ indexes, t.catalog.indexesForTable name = .ok indexes →
      Meets assume require (f indexes) Q s t)
    (herror : ∀ e, t.catalog.indexesForTable name = .error e → Q (.error (.catalog e)) s t) :
    Meets assume require (indexesForTable name >>= f) Q s t := by
  rw [indexesForTable, bind_assoc]
  refine wp_perform_bind fun _ => ⟨hask.indexesForTable name t, ?_⟩
  show Proc.wp _ (Proc.ofExcept ((t.catalog.indexesForTable name).mapError .catalog) >>= f) Q s t
  cases hindexes : t.catalog.indexesForTable name with
  | error e => exact herror e hindexes
  | ok indexes => exact hok indexes hindexes

theorem wp_primaryKey_bind {columns : List ColumnDef} {table : Bytes} {f : Nat → Exec α}
    (hok : ∀ pk, pkIndex columns = some pk →
      Meets assume require (f pk) Q s t)
    (herror : pkIndex columns = none → Q (.error (.noPrimaryKey table)) s t) :
    Meets assume require (primaryKey columns table >>= f) Q s t := by
  rw [primaryKey]
  cases hpk : pkIndex columns with
  | none => exact herror hpk
  | some pk => exact hok pk hpk

theorem wp_acquire_bind {table : Bytes} {mode : LockMode} {f : Unit → Exec α}
    (hcall : ∀ txnID, s.currentTxn = some txnID → assume (.acquire txnID table mode) t →
      require (.acquire txnID table mode) t)
    (hblocked : ¬ (∀ txnID, s.currentTxn = some txnID →
        (t.lockMgr.acquire txnID (lockName table) mode).1 = none) →
      Q (.error .blocked) s (locked s table mode t))
    (hok : (∀ txnID, s.currentTxn = some txnID →
        (t.lockMgr.acquire txnID (lockName table) mode).1 = none) →
      Meets assume require (f ()) Q s (locked s table mode t)) :
    Meets assume require (acquire table mode >>= f) Q s t := by
  rw [acquire, bind_assoc, Meets, Proc.wp_get_bind]
  rw [locked] at hblocked hok
  cases htxn : s.currentTxn with
  | none =>
    rw [htxn] at hok
    exact hok nofun
  | some txnID =>
    rw [htxn] at hblocked hok
    simp only [bind_assoc]
    refine wp_perform_bind fun hassume => ⟨hcall txnID htxn hassume, ?_⟩
    show Meets assume require ((if (t.lockMgr.acquire _ _ _).1.isNone then _ else _) >>= f) Q s _
    cases hchan : (t.lockMgr.acquire txnID (lockName table) mode).1 with
    | none =>
      refine hok fun id hid => ?_
      cases hid
      exact hchan
    | some chan =>
      refine hblocked fun h => ?_
      cases hchan.symm.trans (h txnID rfl)

variable {d : TableDef} {row : Row}

theorem mem_values {value : Bytes} :
    value ∈ (Database.handler (.scan d) t).1 ↔
      ∃ key, (t.trees d.rootPageID).lookup key = some value := by
  show value ∈ (t.trees d.rootPageID).entries.map (·.2) ↔ _
  simp [← Storage.OrderedTree.mem_entries]

/-- A scan gives the stored rows that are kept. -/
theorem Collected.mem_iff {keep : Row → Except ExecErr Bool} {rows : List Row}
    (h : Collected t d keep rows) (row : Row) :
    row ∈ rows ↔ Stored t d row ∧ keep row = .ok true := by
  rw [mem_of_collect h]
  constructor
  · rintro ⟨value, hvalue, hdecode, hkeep⟩
    obtain ⟨key, hkey⟩ := mem_values.mp hvalue
    exact ⟨⟨key, value, hkey, hdecode⟩, hkeep⟩
  · rintro ⟨⟨key, value, hkey, hdecode⟩, hkeep⟩
    exact ⟨value, mem_values.mpr ⟨key, hkey⟩, hdecode, hkeep⟩

/-- A scan that succeeds reads every value. -/
theorem Collected.not_undecodable {keep : Row → Except ExecErr Bool} {rows : List Row}
    (h : Collected t d keep rows) : ¬ Undecodable t d := by
  rintro ⟨key, value, e, hlookup, hdecode⟩
  have hvalue : value ∈ (t.trees d.rootPageID).entries.map (·.2) := mem_values.mpr ⟨key, hlookup⟩
  rw [Collected] at h
  generalize (t.trees d.rootPageID).entries.map (·.2) = values at h hvalue
  induction values generalizing rows with
  | nil => cases hvalue
  | cons first values ih =>
    obtain ⟨row, kept, rest, hfirst, -, hrest, -⟩ := collect_cons_eq_ok.mp h
    obtain rfl | hvalue := List.mem_cons.mp hvalue
    · rw [hdecode] at hfirst
      cases hfirst
    · exact ih hrest hvalue

theorem matchesAt_eq_true {i : Nat} {value : Value} :
    matchesAt d i value row = .ok true ↔ Matches d i value row := by
  simp [matchesAt, Matches, Option.any_eq_true]

theorem wp_findRowsMatchingValue_bind {columnName : Bytes} {value : Value} {f : List Row → Exec α}
    (hscan : assume (.scan d) t → require (.scan d) t)
    (hok : ∀ i rows, colIndex d.columns columnName = some i →
      Collected t d (matchesAt d i value) rows →
      Meets assume require (f rows) Q s t)
    (herror : ∀ e, e.Plain → colIndex d.columns columnName = none ∨ Undecodable t d →
      Q (.error e) s t) :
    Meets assume require (findRowsMatchingValue d columnName value >>= f) Q s t := by
  rw [findRowsMatchingValue]
  cases hcol : colIndex d.columns columnName with
  | none => exact herror _ trivial (.inl hcol)
  | some i =>
    simp only [bind_assoc]
    refine wp_perform_bind fun hassume => ⟨hscan hassume, ?_⟩
    refine Proc.wp_ofExcept_bind_of (fun rows hrows => hok i rows hcol hrows) (fun e he => ?_)
    have hplain : e.Plain := plain_of_collect (fun row e hkeep => by cases hkeep) he
    obtain ⟨value, hvalue, ⟨e', hdecode, -⟩ | ⟨row, -, hkeep⟩⟩ := cause_of_collect_error he
    · obtain ⟨key, hkey⟩ := mem_values.mp hvalue
      exact herror e hplain (.inr ⟨key, value, e', hkey, hdecode⟩)
    · cases hkeep

theorem wp_matchingRows_bind {condition : Option Expr} {f : List Row → Exec α}
    (hscan : assume (.scan d) t → require (.scan d) t)
    (hok : ∀ rows, Collected t d (wanted d condition) rows →
      Meets assume require (f rows) Q s t)
    (herror : ∀ e, e.Plain → (¬ ∃ rows, Collected t d (wanted d condition) rows) →
      Q (.error e) s t) :
    Meets assume require (matchingRows d condition >>= f) Q s t := by
  rw [matchingRows, bind_assoc]
  refine wp_perform_bind fun hassume => ⟨hscan hassume, ?_⟩
  refine Proc.wp_ofExcept_bind_of hok fun e he => herror e (plain_of_collect ?_ he) ?_
  · intro row e hkeep
    cases condition with
    | none => cases hkeep
    | some predicate =>
      change holds predicate d.columns row = .error e at hkeep
      rw [holds] at hkeep
      split at hkeep <;> cases hkeep
      trivial
  · rintro ⟨rows, hrows⟩
    cases hrows.symm.trans he

theorem wp_verifyParent (hask : Asks require) {fk : ForeignKeyDef}
    {Q : Except ExecErr Unit → Session → Database → Prop}
    (hscan : ∀ parent, t.catalog.tables.lookup fk.refTable = some parent →
      assume (.scan parent) t → require (.scan parent) t)
    (hok : HasParent t d row fk → Q (.ok ()) s t) (herror : ∀ e, Q (.error e) s t) :
    Meets assume require (verifyParent row d fk) Q s t := by
  rw [verifyParent]
  cases hcol : colIndex d.columns fk.columnName with
  | none =>
    refine hok fun i hi => ?_
    rw [hcol] at hi
    cases hi
  | some i =>
    show Proc.wp _ (if _ then _ else _) Q s t
    split_ifs with hnull
    · refine hok fun i' hi' hvalue => ?_
      rw [hcol] at hi'
      cases hi'
      rw [hnull] at hvalue
      cases hvalue
    · refine wp_getTable_bind hask (fun parent hparent => ?_) fun _ _ => herror _
      rw [columnContainsValue, bind_assoc]
      refine wp_findRowsMatchingValue_bind (hscan parent hparent)
        (fun j rows hj hrows => ?_) fun e _ _ => herror e
      rw [Meets, Proc.wp_pure_bind]
      cases rows with
      | nil => exact herror _
      | cons prow rows =>
        refine hok fun i' hi' _ => ?_
        rw [hcol] at hi'
        cases hi'
        obtain ⟨hstored, hmatch⟩ := (hrows.mem_iff prow).mp List.mem_cons_self
        exact ⟨parent, j, prow, hparent, hj, hstored, matchesAt_eq_true.mp hmatch⟩

theorem wp_verifyFKParents_bind (hask : Asks require) {f : Unit → Exec α}
    (hscan : ScansParents assume require d t)
    (hok : (∀ fk ∈ d.foreignKeys, HasParent t d row fk) →
      Meets assume require (f ()) Q s t) (herror : ∀ e, Q (.error e) s t) :
    Meets assume require (verifyFKParents row d >>= f) Q s t := by
  have hloop : ∀ fks ⊆ d.foreignKeys,
      Meets assume require (Proc.forEach (verifyParent row d) fks) (fun r s' t' => s' = s ∧ t' = t ∧
          (r = .ok () → ∀ fk ∈ fks, HasParent t d row fk)) s t := by
    intro fks hfks
    induction fks with
    | nil => exact ⟨rfl, rfl, fun _ fk hfk => by cases hfk⟩
    | cons fk fks ih =>
      obtain ⟨hfk, hfks⟩ := List.cons_subset.mp hfks
      refine Proc.wp_bind (R := fun r s' t' => s' = s ∧ t' = t ∧
        (r = .ok () → HasParent t d row fk))
        (wp_verifyParent hask (hscan fk hfk) (fun h => ⟨rfl, rfl, fun _ => h⟩)
          fun e => ⟨rfl, rfl, nofun⟩) ?_ ?_
      · rintro _ s' t' ⟨rfl, rfl, hfirst⟩
        refine Proc.wp_mono (ih hfks) ?_
        rintro r s'' t'' ⟨hs, ht, hrest⟩
        exact ⟨hs, ht, fun hr => List.forall_mem_cons.mpr ⟨hfirst rfl, hrest hr⟩⟩
      · rintro e s' t' ⟨rfl, rfl, -⟩
        exact ⟨rfl, rfl, nofun⟩
  refine Proc.wp_bind (hloop d.foreignKeys (List.Subset.refl _)) ?_ ?_
  · rintro _ s' t' ⟨rfl, rfl, h⟩
    exact hok (h rfl)
  · rintro e s' t' ⟨rfl, rfl, -⟩
    exact herror e

/-! ### Writing -/

/-- A key, if the value of the column has one. -/
theorem wp_key_bind {columns : List ColumnDef} {i : Nat} {v : Value} {wrap : KeyErr → ExecErr}
    {f : Bytes → Exec α}
    (hok : ∀ key, columnKey columns i v = .ok key →
      Meets assume require (f key) Q s t)
    (herror : ∀ e, columnKey columns i v = .error e → Q (.error (wrap e)) s t) :
    Meets assume require (Proc.ofExcept ((columnKey columns i v).mapError wrap) >>= f) Q s t := by
  cases hkey : columnKey columns i v with
  | error e => exact herror e hkey
  | ok key => exact hok key hkey

section Writes

variable {Q : Except ExecErr Unit → Session → Database → Prop}

variable {d child : TableDef} {pk : Nat} {indexes : List IndexDef}
  {delete : TableDef → List Row → Exec Unit} {parentTable : Bytes} {pkValue : Value}
  {fk : ForeignKeyDef} {J : Session → Database → Prop}
  {D : TableDef → ForeignKeyDef → Database → Prop}

theorem wp_insertOne (hask : Asks require) {columnNames : List Bytes} {valueExprs : List Expr}
    (hscan : ScansParents assume require d t) (herror : ∀ e, Q (.error e) s t)
    (hwrite : ∀ row key, buildInsertRow valueExprs columnNames d = .ok row →
      checkNotNull d.columns row = .ok () → (∀ fk ∈ d.foreignKeys, HasParent t d row fk) →
      columnKey d.columns pk (row.getD pk .null) = .ok key →
      Performs assume require (.insertRow d indexes row key) Q s t) :
    Meets assume require (insertOne d columnNames pk indexes valueExprs) Q s t := by
  rw [insertOne]
  refine Proc.wp_ofExcept_bind_of (fun row hrow => ?_) fun e _ => herror e
  refine Proc.wp_ofExcept_bind_of (fun _ hnull => ?_) fun e _ => herror e
  refine wp_verifyFKParents_bind hask hscan (fun hparents => ?_) herror
  refine wp_key_bind (fun key hkey => ?_) fun _ _ => herror _
  exact wp_perform_bind (hwrite row key hrow hnull hparents hkey)

theorem wp_setOne {columnName : Bytes} {i : Nat} {newValue : Value} {oldRow : Row}
    (herror : ∀ e, columnKey d.columns pk (oldRow.getD pk .null) = .error e →
      Q (.error (.key e)) s t)
    (hwrite : ∀ key, columnKey d.columns pk (oldRow.getD pk .null) = .ok key →
      Performs assume require (.setColumn d indexes columnName i oldRow newValue key) Q s t) :
    Meets assume require (setOne d indexes columnName i newValue pk oldRow) Q s t := by
  rw [setOne]
  exact wp_key_bind (fun key hkey => wp_perform_bind (hwrite key hkey)) herror

/-- Why a foreign-key action cannot set a column. -/
def CannotSet (t : Database) (d : TableDef) (columnName : Bytes) (newValue : Value) : Prop :=
  colIndex d.columns columnName = none ∨
    (newValue.isNull = true ∧ ∃ i c, colIndex d.columns columnName = some i ∧
      d.columns[i]? = some c ∧ c.notNull = true) ∨
    pkIndex d.columns = none ∨ ∃ e, t.catalog.indexesForTable d.name = .error e

theorem wp_updateColumnInRows (hask : Asks require) {columnName : Bytes} {newValue : Value}
    {rows : List Row} (herror : ∀ e, e.Plain → CannotSet t d columnName newValue → Q (.error e) s t)
    (hloop : ∀ i pk indexes, colIndex d.columns columnName = some i →
      (newValue.isNull = true → ∀ c, d.columns[i]? = some c → c.notNull = false) →
      pkIndex d.columns = some pk → t.catalog.indexesForTable d.name = .ok indexes →
      Meets assume require (Proc.forEach (setOne d indexes columnName i newValue pk) rows) Q s t) :
    Meets assume require (updateColumnInRows d columnName newValue rows) Q s t := by
  rw [updateColumnInRows]
  cases hcol : colIndex d.columns columnName with
  | none => exact herror _ trivial (.inl hcol)
  | some i =>
    show Proc.wp _ (if _ then _ else _) Q s t
    split_ifs with hnull
    · simp only [Bool.and_eq_true, Option.any_eq_true] at hnull
      obtain ⟨hnull, c, hc, hnot⟩ := hnull
      exact herror _ trivial (.inr (.inl ⟨hnull, i, c, hcol, hc, hnot⟩))
    · refine wp_primaryKey_bind (fun pk hpk => ?_)
        fun hpk => herror _ trivial (.inr (.inr (.inl hpk)))
      refine wp_indexesForTable_bind hask (fun indexes hindexes => ?_)
        fun e he => herror _ trivial (.inr (.inr (.inr ⟨e, he⟩)))
      refine hloop i pk indexes hcol (fun hvalue c hc => ?_) hpk hindexes
      simp only [Bool.and_eq_true, Option.any_eq_true, not_and, not_exists] at hnull
      exact Bool.eq_false_iff.mpr (hnull hvalue c hc)

theorem wp_onDelete (hother : fk.refTable ≠ parentTable → Q (.ok ()) s t)
    (hscan : fk.refTable = parentTable → assume (.scan child) t → require (.scan child) t)
    (herror : fk.refTable = parentTable → ∀ e, e.Plain →
      colIndex child.columns fk.columnName = none ∨ Undecodable t child → Q (.error e) s t)
    (hnone : fk.refTable = parentTable → ∀ i, colIndex child.columns fk.columnName = some i →
      Collected t child (matchesAt child i pkValue) [] → Q (.ok ()) s t)
    (hrows : fk.refTable = parentTable → ∀ i rows, rows ≠ [] →
      colIndex child.columns fk.columnName = some i →
      Collected t child (matchesAt child i pkValue) rows →
      (fk.onDelete = .fkRestrict →
        Q (.error (.cannotDelete parentTable rows.length child.name)) s t) ∧
      (fk.onDelete = .fkCascade →
        Meets assume require (delete child rows) Q s t) ∧
      (fk.onDelete = .fkSetNull → Meets assume require
        (updateColumnInRows child fk.columnName .null rows) Q s t)) :
    Meets assume require (onDelete delete parentTable pkValue child fk) Q s t := by
  rw [onDelete]
  split_ifs with href
  · refine wp_findRowsMatchingValue_bind (hscan href) (fun i rows hi hscanned => ?_)
      (herror href)
    cases rows with
    | nil => exact hnone href i hi hscanned
    | cons row rows =>
      obtain ⟨hrestrict, hcascade, hnull⟩ := hrows href i _ (List.cons_ne_nil _ _) hi hscanned
      rw [List.isEmpty_cons, if_neg (by decide)]
      cases haction : fk.onDelete with
      | fkRestrict => exact hrestrict haction
      | fkCascade => exact hcascade haction
      | fkSetNull => exact hnull haction
  · exact hother href

theorem wp_onUpdate {oldPKValue newPKValue : Value}
    (hother : fk.refTable ≠ parentTable → Q (.ok ()) s t)
    (hscan : fk.refTable = parentTable → assume (.scan child) t → require (.scan child) t)
    (herror : fk.refTable = parentTable → ∀ e, colIndex child.columns fk.columnName = none ∨
      Undecodable t child ∨ fk.onUpdate = .fkRestrict → Q (.error e) s t)
    (hrows : fk.refTable = parentTable → ∀ i rows, colIndex child.columns fk.columnName = some i →
      Collected t child (matchesAt child i oldPKValue) rows →
      (rows = [] → Q (.ok ()) s t) ∧
      (fk.onUpdate = .fkCascade → Meets assume require
        (updateColumnInRows child fk.columnName newPKValue rows) Q s t) ∧
      (fk.onUpdate = .fkSetNull → Meets assume require
        (updateColumnInRows child fk.columnName .null rows) Q s t)) :
    Meets assume require (onUpdate parentTable oldPKValue newPKValue child fk) Q s t := by
  rw [onUpdate]
  split_ifs with href
  · refine wp_findRowsMatchingValue_bind (hscan href) (fun i rows hi hmem => ?_)
      fun e _ he => herror href e (he.imp id .inl)
    obtain ⟨hnone, hcascade, hnull⟩ := hrows href i rows hi hmem
    cases rows with
    | nil => exact hnone rfl
    | cons row rows =>
      rw [List.isEmpty_cons, if_neg (by decide)]
      cases haction : fk.onUpdate with
      | fkRestrict => exact herror href _ (.inr (.inr haction))
      | fkCascade => exact hcascade haction
      | fkSetNull => exact hnull haction
  · exact hother href

/-- The foreign keys of tables, each with its table. -/
def references (tables : List TableDef) : List (TableDef × ForeignKeyDef) :=
  tables.flatMap fun child => child.foreignKeys.map (child, ·)

theorem mem_references {tables : List TableDef} :
    (child, fk) ∈ references tables ↔ child ∈ tables ∧ fk ∈ child.foreignKeys := by
  simp only [references, List.mem_flatMap, List.mem_map, Prod.mk.injEq]
  constructor
  · rintro ⟨_, hchild, _, hfk, rfl, rfl⟩
    exact ⟨hchild, hfk⟩
  · rintro ⟨hchild, hfk⟩
    exact ⟨child, hchild, fk, hfk, rfl, rfl⟩

theorem mem_listTables :
    child ∈ (Database.handler .listTables t).1 ↔
      ∃ name, t.catalog.tables.lookup name = some child := by
  show child ∈ t.catalog.listTables _ ↔ _
  rw [Catalog.listTables, mem_permute, List.mem_map]
  constructor
  · rintro ⟨⟨name, d⟩, hmem, rfl⟩
    exact ⟨name, AList.mem_lookup_iff.mpr hmem⟩
  · rintro ⟨name, hname⟩
    exact ⟨⟨name, child⟩, AList.mem_lookup_iff.mp hname, rfl⟩

/-- The loop of `applyOnDelete` and `applyOnUpdate`. -/
abbrev forEachKey (f : TableDef → ForeignKeyDef → Exec Unit) : Exec Unit := do
  let tables : List TableDef ← perform .listTables
  Proc.forEach (fun child => Proc.forEach (f child) child.foreignKeys) tables

variable {f : TableDef → ForeignKeyDef → Exec Unit}

/-- The foreign keys come in the order in which they are listed. -/
theorem wp_forEachKey_listed (hask : Asks require)
    {J : List (TableDef × ForeignKeyDef) → Session → Database → Prop} (hs : J [] s t.tick)
    (hround : ∀ past child fk rest,
      references (t.catalog.listTables (t.env.order t.clock)) = past ++ (child, fk) :: rest →
      ∀ s t, J past s t →
        Meets assume require (f child fk) (OrFails (J (past ++ [(child, fk)])) Q) s t)
    (hend : ∀ s' t', J (references (t.catalog.listTables (t.env.order t.clock))) s' t' →
      Q (.ok ()) s' t') :
    Meets assume require (forEachKey f) Q s t := by
  refine wp_perform_bind fun _ => ⟨hask.listTables t, ?_⟩
  have hloop (tables : List TableDef) :
      Proc.forEach (fun child => Proc.forEach (f child) child.foreignKeys) tables =
        Proc.forEach (fun p => f p.1 p.2) (references tables) := by
    rw [references, Proc.forEach_flatMap]
    simp only [Proc.forEach_map]
  rw [hloop]
  refine Proc.wp_forEach_done hs (fun past p rest hsplit s t h => ?_) hend
  refine Proc.wp_mono (hround past p.1 p.2 rest hsplit s t h) fun r _ _ h => ?_
  cases r <;> exact h

/-- The same when the order does not matter. `D` is what a round achieves
for its foreign key and the later rounds keep. -/
theorem wp_forEachKey (hask : Asks require) (hs : J s t.tick)
    (hround : ∀ name child, t.catalog.tables.lookup name = some child →
      ∀ fk ∈ child.foreignKeys, ∀ s t, J s t → Meets assume require (f child fk)
        (OrFails (fun s' t' => J s' t' ∧ D child fk t' ∧ ∀ c k, D c k t → D c k t') Q) s t)
    (hend : ∀ s' t', J s' t' → (∀ name child, t.catalog.tables.lookup name = some child →
      ∀ fk ∈ child.foreignKeys, D child fk t') → Q (.ok ()) s' t') :
    Meets assume require (forEachKey f) Q s t := by
  refine wp_forEachKey_listed hask (J := fun past s t => J s t ∧ ∀ p ∈ past, D p.1 p.2 t)
    ⟨hs, nofun⟩ (fun past child fk rest hsplit s' t' h => ?_) fun s' t' h => ?_
  · obtain ⟨hinv, hpast⟩ := h
    have hkey : (child, fk) ∈ references (t.catalog.listTables (t.env.order t.clock)) := by
      rw [hsplit]
      exact List.mem_append_right _ List.mem_cons_self
    obtain ⟨hchild, hfk⟩ := mem_references.mp hkey
    obtain ⟨name, hname⟩ := mem_listTables.mp hchild
    refine Proc.wp_mono (hround name child hname fk hfk s' t' hinv) fun r s'' t'' hr => ?_
    cases r with
    | error e => exact hr
    | ok _ =>
      obtain ⟨hinv', hdone, hkeep⟩ := hr
      refine ⟨hinv', fun q hq => ?_⟩
      obtain hq | hq := List.mem_append.mp hq
      · exact hkeep q.1 q.2 (hpast q hq)
      · rw [List.mem_singleton.mp hq]
        exact hdone
  · exact hend s' t' h.1 fun name child hname fk hfk =>
      h.2 (child, fk) (mem_references.mpr ⟨mem_listTables.mpr ⟨name, hname⟩, hfk⟩)

theorem wp_deleteOne {row : Row}
    (h : Meets assume require (applyOnDelete delete d.name (row.getD pk .null)) (OrFails
      (fun s' t' =>
        (∀ e, columnKey d.columns pk (row.getD pk .null) = .error e →
          Q (.error (.encodingKeyForDelete e)) s' t') ∧
        ∀ key, columnKey d.columns pk (row.getD pk .null) = .ok key →
          Performs assume require (.deleteRow d indexes row key) Q s' t') Q) s t) :
    Meets assume require (deleteOne delete d pk indexes row) Q s t := by
  rw [deleteOne]
  refine Proc.wp_bind h (fun _ s' t' hok => ?_) fun _ _ _ he => he
  exact wp_key_bind (fun key hkey => wp_perform_bind (hok.2 key hkey)) hok.1

theorem wp_deleteRowsFromTable_succ (hask : Asks require) {depth : Nat} {rows : List Row}
    (herror : ∀ e, e.Plain → pkIndex d.columns = none ∨
      (∃ e', t.catalog.indexesForTable d.name = .error e') → Q (.error e) s t)
    (hloop : ∀ pk indexes, pkIndex d.columns = some pk →
      t.catalog.indexesForTable d.name = .ok indexes →
      Meets assume require (Proc.forEach
        (deleteOne (deleteRowsFromTable depth) d pk indexes) rows) Q s t) :
    Meets assume require (deleteRowsFromTable (depth + 1) d rows) Q s t := by
  rw [deleteRowsFromTable]
  refine wp_primaryKey_bind (fun pk hpk => ?_) fun hpk => herror _ trivial (.inl hpk)
  exact wp_indexesForTable_bind hask (fun indexes hindexes => hloop pk indexes hpk hindexes)
    fun e he => herror _ trivial (.inr ⟨e, he⟩)

theorem wp_updateOne (hask : Asks require) {statement : UpdateStmt} {oldRow : Row}
    (hscan : ScansParents assume require d t) (herror : ∀ e, Q (.error e) s t)
    (hwrite : ∀ newRow oldPK newPK,
      statement.set.foldlM (assign d statement.table) oldRow = .ok newRow →
      checkNotNull d.columns newRow = .ok () →
      columnKey d.columns pk (oldRow.getD pk .null) = .ok oldPK →
      columnKey d.columns pk (newRow.getD pk .null) = .ok newPK →
      (∀ fk ∈ d.foreignKeys, HasParent t d newRow fk) →
      Meets assume require (propagateKey d statement.table pk oldRow newRow) (OrFails
        (Performs assume require (.updateRow d indexes oldRow newRow oldPK newPK) Q) Q) s t) :
    Meets assume require (updateOne statement d pk indexes oldRow) Q s t := by
  rw [updateOne]
  refine Proc.wp_ofExcept_bind_of (fun newRow hnew => ?_) fun e _ => herror e
  refine Proc.wp_ofExcept_bind_of (fun _ hnull => ?_) fun e _ => herror e
  refine wp_key_bind (fun oldPK hold => ?_) fun _ _ => herror _
  refine wp_key_bind (fun newPK hnewPK => ?_) fun _ _ => herror _
  refine wp_verifyFKParents_bind hask hscan (fun hparents => ?_) herror
  exact Proc.wp_bind (hwrite newRow oldPK newPK hnew hnull hold hnewPK hparents)
    (fun _ s' t' h => wp_perform_bind h) fun _ _ _ he => he

/-! ### Statements -/

variable {inv : Database → Prop}

/-- The request for the statement's own lock. -/
structure Asking (assume require : DbOp → Database → Prop) (inv : Database → Prop) (s : Session)
    (table : Bytes) (t : Database) : Prop where
  call : ∀ txnID, s.currentTxn = some txnID → assume (.acquire txnID table .lockExclusive) t →
    require (.acquire txnID table .lockExclusive) t
  locked : inv (locked s table .lockExclusive t)

/-- The statement has its lock, if it needs one. -/
def Granted (s : Session) (table : Bytes) (t : Database) : Prop :=
  ∀ txnID, s.currentTxn = some txnID →
    (t.lockMgr.acquire txnID (lockName table) .lockExclusive).1 = none

theorem wp_executeInsert (hask : Asks require) {statement : InsertStmt}
    (hlock : Asking assume require inv s statement.table t)
    (hrow : ∀ d pk indexes, Granted s statement.table t →
      Opened (locked s statement.table .lockExclusive t) statement.table d pk indexes →
      ∀ valueExprs ∈ statement.values, ∀ s t, inv t → Meets assume require
        (insertOne d statement.columns pk indexes valueExprs) (fun _ _ t' => inv t') s t) :
    Meets assume require (executeInsert statement)
      (fun _ _ t' => inv t') s t := by
  rw [executeInsert]
  refine wp_acquire_bind hlock.call (fun _ => hlock.locked) fun hgranted => ?_
  refine wp_getTable_bind hask (fun d hd => ?_) fun _ _ => hlock.locked
  refine wp_primaryKey_bind (fun pk hpk => ?_) fun _ => hlock.locked
  refine wp_indexesForTable_bind hask (fun indexes hindexes => ?_) fun _ _ => hlock.locked
  exact Proc.wp_forEach_keeps (J := fun _ t => inv t) hlock.locked
    (hrow d pk indexes hgranted ⟨hd, hpk, hindexes⟩)

theorem wp_executeUpdate (hask : Asks require) {statement : UpdateStmt}
    (hlock : Asking assume require inv s statement.table t)
    (hscan : ∀ d, Granted s statement.table t →
      (locked s statement.table .lockExclusive t).catalog.tables.lookup statement.table = some d →
      assume (.scan d) (locked s statement.table .lockExclusive t) →
      require (.scan d) (locked s statement.table .lockExclusive t))
    (hrow : ∀ d pk indexes, Granted s statement.table t →
      Opened (locked s statement.table .lockExclusive t) statement.table d pk indexes →
      ∀ oldRow, Stored (locked s statement.table .lockExclusive t) d oldRow →
      ∀ s t, inv t → Meets assume require (updateOne statement d pk indexes oldRow)
        (fun _ _ t' => inv t') s t) :
    Meets assume require (executeUpdate statement)
      (fun _ _ t' => inv t') s t := by
  rw [executeUpdate]
  refine wp_acquire_bind hlock.call (fun _ => hlock.locked) fun hgranted => ?_
  refine wp_getTable_bind hask (fun d hd => ?_) fun _ _ => hlock.locked
  refine wp_matchingRows_bind (hscan d hgranted hd) (fun rows hrows => ?_)
    fun _ _ _ => hlock.locked
  refine wp_primaryKey_bind (fun pk hpk => ?_) fun _ => hlock.locked
  refine wp_indexesForTable_bind hask (fun indexes hindexes => ?_) fun _ _ => hlock.locked
  exact Proc.wp_forEach_keeps (J := fun _ t => inv t) hlock.locked fun oldRow hmem =>
    hrow d pk indexes hgranted ⟨hd, hpk, hindexes⟩ oldRow ((hrows.mem_iff oldRow).mp hmem).1

theorem wp_executeDelete (hask : Asks require) {depth : Nat} {statement : DeleteStmt}
    {t' : Database} (ht : locked s statement.table .lockExclusive t = t')
    (hcall : ∀ txnID, s.currentTxn = some txnID →
      assume (.acquire txnID statement.table .lockExclusive) t →
      require (.acquire txnID statement.table .lockExclusive) t)
    (hblocked : ¬ Granted s statement.table t → Q (.error .blocked) s t')
    (htable : t'.catalog.tables.lookup statement.table = none →
      ∀ e, Q (.error (.tableNotFound statement.table e)) s t')
    (hrows : ∀ d, Granted s statement.table t →
      t'.catalog.tables.lookup statement.table = some d →
      (assume (.scan d) t' → require (.scan d) t') ∧
      (∀ e, e.Plain → (¬ ∃ rows, Collected t' d (wanted d statement.where) rows) →
        Q (.error e) s t') ∧
      ∀ rows, Collected t' d (wanted d statement.where) rows →
        Meets assume require (deleteRowsFromTable depth d rows) Q s t') :
    Meets assume require (executeDelete depth statement) Q s t := by
  subst ht
  rw [executeDelete]
  refine wp_acquire_bind hcall hblocked fun hgranted => ?_
  refine wp_getTable_bind hask (fun d hd => ?_) htable
  obtain ⟨hscan, herror, hok⟩ := hrows d hgranted hd
  exact wp_matchingRows_bind hscan hok herror

end Writes

end Rules

end MySQLight.Sql
