import Mathlib.Logic.Relation
import MySQLight.Executor.Cursor
import MySQLight.Executor.WellFormed
import MySQLight.Txn.LockSafety

/-!
The table locks of a transaction.

A statement locks the table it names, and a `SELECT` those it joins, before
it touches their rows; a lock that is held stays until the transaction ends.
The tables that foreign keys lead to are touched without a lock: the ones a
row refers to are read by `INSERT` and `UPDATE`, the ones that refer to a
row are read and written by `UPDATE` and, to any depth, by `DELETE`. If the
transaction has the locks on those from before, every access is covered.
-/

namespace MySQLight.Sql

open MySQLight.Data MySQLight.Schema MySQLight.Effect MySQLight.Txn

/-! ### Locks that are held -/

/-- The transaction holds a lock of this mode on the table. -/
def Held (txnID : Nat) (table : Bytes) (mode : LockMode) (db : Database) : Prop :=
  (db.lockMgr.entry (lockName table)).holders.lookup txnID = some mode

instance (txnID : Nat) (table : Bytes) (mode : LockMode) (db : Database) :
    Decidable (Held txnID table mode db) :=
  inferInstanceAs (Decidable (_ = _))

/-- What is held in the first state is held in the second. -/
def Holding (txnID : Nat) (db db' : Database) : Prop :=
  ∀ table mode, Held txnID table mode db → Held txnID table mode db'

instance (txnID : Nat) : Std.Refl (Holding txnID) := ⟨fun _ _ _ h => h⟩

instance (txnID : Nat) : IsTrans Database (Holding txnID) :=
  ⟨fun _ _ _ h h' table mode ht => h' table mode (h table mode ht)⟩

/-- The call ends a transaction. -/
def DbOp.ends : DbOp → Bool
  | .commitTxn _ | .rollbackTxn _ => true
  | _ => false

theorem Database.lockMgr_allocating (db : Database) (taken : Bool)
    (call : Except Storage.Err UInt32 → Fallible Catalog CatalogErr Unit) :
    (db.allocating taken call).2.lockMgr = db.lockMgr := by
  have hroot : db.allocateNewRoot.2.lockMgr = db.lockMgr := by
    rw [allocateNewRoot]
    split
    · rfl
    · split_ifs <;> rfl
  cases taken with
  | true => rfl
  | false => exact hroot

/-- A lock stays until the transaction ends. -/
theorem holding_handler (txnID : Nat) {o : DbOp} (ho : o.ends = false) (db : Database) :
    Holding txnID db (Database.handler o db).2 := by
  intro table mode h
  cases o with
  | acquire id table' mode' => exact LockManager.holds_of_acquire h id (lockName table') mode'
  | createTable d =>
    rw [Held]
    exact (congrArg (fun lm => (LockManager.entry lm _).holders.lookup txnID)
      (db.lockMgr_allocating _ _)).trans h
  | createIndex x =>
    rw [Held]
    exact (congrArg (fun lm => (LockManager.entry lm _).holders.lookup txnID)
      (db.lockMgr_allocating _ _)).trans h
  | beginTxn =>
    rw [Database.handler]
    split_ifs <;> exact h
  | commitTxn _ | rollbackTxn _ => cases ho
  | _ => exact h

/-- A request that is granted gives the lock. -/
theorem held_of_granted {txnID : Nat} {table : Bytes} {mode : LockMode} {db : Database}
    (h : (Database.handler (.acquire txnID table mode) db).1 = true) :
    Held txnID table mode (Database.handler (.acquire txnID table mode) db).2 :=
  LockManager.holds_of_granted (Option.isNone_iff_eq_none.mp h)

/-! ### Accesses -/

/-- If the call reads rows of a table, the transaction has a lock on it, and
if it writes rows or index entries, an exclusive one. -/
def Covered (txnID : Nat) : DbOp → Database → Prop
  | .scan d, db => ∃ mode, Held txnID d.name mode db
  | .insertRow d _ _ _, db | .updateRow d _ _ _ _ _, db | .deleteRow d _ _ _, db
  | .setColumn d _ _ _ _ _ _, db => Held txnID d.name .lockExclusive db
  | _, _ => True

instance (txnID : Nat) : (o : DbOp) → (db : Database) → Decidable (Covered txnID o db)
  | .scan d, db => decidable_of_iff
      (Held txnID d.name .lockShared db ∨ Held txnID d.name .lockExclusive db) <| by
        refine ⟨fun h => h.elim (⟨_, ·⟩) (⟨_, ·⟩), ?_⟩
        rintro ⟨mode, h⟩
        cases mode with
        | lockShared => exact .inl h
        | lockExclusive => exact .inr h
  | .insertRow d _ _ _, db | .updateRow d _ _ _ _ _, db | .deleteRow d _ _ _, db
  | .setColumn d _ _ _ _ _ _, db =>
    inferInstanceAs (Decidable (Held txnID d.name .lockExclusive db))
  | .getTable _, _ | .indexesForTable _, _ | .listTables, _ | .createTable _, _ | .dropTable _, _
  | .createIndex _, _ | .dropIndex _, _ | .acquire .., _ | .beginTxn, _ | .commitTxn _, _
  | .rollbackTxn _, _ => .isTrue trivial

theorem DbOp.ends_of_proper {reads writes : Bytes → Prop} {o : DbOp} {db : Database}
    (h : Proper reads writes o db) : o.ends = false := by
  cases o with
  | commitTxn | rollbackTxn => exact h.elim
  | _ => rfl

section Covered

variable {txnID : Nat} {s : Session} {db : Database}

/-- Inside a transaction a lock is asked for. -/
theorem acquire_bind {α : Type} (htxn : s.currentTxn = some txnID) (table : Bytes)
    (mode : LockMode) (rest : Unit → Exec α) :
    (acquire table mode >>= rest) s = .call (.acquire txnID table mode) fun granted =>
      ((if granted = true then pure () else throw ExecErr.blocked : Exec Unit) >>= rest) s := by
  cases s
  cases htxn
  rfl

/-- `INSERT`, `UPDATE` and `DELETE` on a table: the lock on it comes first,
and those on the other tables are there already. -/
theorem covered_of_proper {α : Type} {table : Bytes} {rest : Unit → Exec α}
    {reads writes : Bytes → Prop} (htxn : s.currentTxn = some txnID)
    (hreads : ∀ p, reads p → p = table ∨ ∃ mode, Held txnID p mode db)
    (hwrites : ∀ p, writes p → p = table ∨ Held txnID p .lockExclusive db)
    (h : Prog.Along Database.handler (Proper reads writes)
      ((acquire table .lockExclusive >>= rest) s) db) :
    Prog.Along Database.handler (Covered txnID) ((acquire table .lockExclusive >>= rest) s) db := by
  rw [acquire_bind htxn] at h ⊢
  refine ⟨trivial, ?_⟩
  have hstart := holding_handler txnID (o := .acquire txnID table .lockExclusive) rfl db
  have hrest := h.2
  generalize hdb : (Database.handler (.acquire txnID table .lockExclusive) db).2 = db₁ at *
  cases hgranted : (Database.handler (.acquire txnID table .lockExclusive) db).1 with
  | false => trivial
  | true =>
    rw [hgranted] at hrest
    have hown : Held txnID table .lockExclusive db₁ := hdb ▸ held_of_granted hgranted
    -- From here on nothing that is held is lost.
    refine Prog.Along.mono ?_ (hrest.with_invariant (J := Holding txnID db₁) ?_ (refl_of _ db₁))
    · rintro o db' ⟨hheld, hproper⟩
      have hread : ∀ p, reads p → ∃ mode, Held txnID p mode db' := by
        intro p hp
        obtain rfl | ⟨mode, hmode⟩ := hreads p hp
        · exact ⟨_, hheld _ _ hown⟩
        · exact ⟨mode, hheld _ _ (hstart _ _ hmode)⟩
      have hwrite : ∀ p, writes p → Held txnID p .lockExclusive db' := by
        intro p hp
        obtain rfl | hmode := hwrites p hp
        · exact hheld _ _ hown
        · exact hheld _ _ (hstart _ _ hmode)
      cases o with
      | scan d => exact hread d.name hproper.2
      | insertRow d | updateRow d | deleteRow d | setColumn d => exact hwrite d.name hproper.2.1
      | _ => trivial
    · exact fun o db' hheld hproper =>
        trans_of (Holding txnID) hheld (holding_handler txnID (DbOp.ends_of_proper hproper) db')

end Covered

/-! ### `SELECT` -/

section Select

variable {s : Session}

/-- A `SELECT` changes no table and loses no lock. -/
def Onward (s : Session) (db db' : Database) : Prop :=
  db.Unchanged db' ∧ ∀ txnID, s.currentTxn = some txnID → Holding txnID db db'

instance : Std.Refl (Onward s) :=
  ⟨fun db => ⟨refl_of _ db, fun txnID _ => refl_of (Holding txnID) db⟩⟩

instance : IsTrans Database (Onward s) :=
  ⟨fun _ _ _ h h' => ⟨trans_of Database.Unchanged h.1 h'.1, fun txnID htxn =>
    trans_of (Holding txnID) (h.2 txnID htxn) (h'.2 txnID htxn)⟩⟩

/-- A `SELECT` reads tables, each under a lock if there is a transaction. -/
def Selects (s : Session) (o : DbOp) (db : Database) : Prop :=
  Proper (fun _ => True) (fun _ => False) o db ∧
    ∀ txnID, s.currentTxn = some txnID → Covered txnID o db

variable {db : Database}

theorem holds_selects (o : DbOp) {P : o.Resp × Database → Prop} (h : Selects s o db)
    (hsame : db.Unchanged (Database.handler o db).2) (hP : P (Database.handler o db)) :
    (Database.checked (fun _ _ => True) (Selects s) o db).Holds fun a =>
      Onward s db a.2 ∧ P a := by
  have honward : Onward s db (Database.handler o db).2 :=
    ⟨hsame, fun txnID _ => holding_handler txnID (DbOp.ends_of_proper h.1) db⟩
  exact (Prog.holds_checked (I := DbI) (o := o)).mpr fun _ => ⟨h, honward, hP⟩

/-- The scan of a table opens with the lock on it. -/
theorem serves_selects (hrooted : Rooted db) :
    Serves (Database.checked (fun _ _ => True) (Selects s)) (Onward s) s db := by
  intro name db' hdb'
  refine holds_selects (.getTable name) ⟨trivial, fun _ _ => trivial⟩ ⟨rfl, rfl⟩
    ⟨rfl, fun d hd => ?_⟩
  have hlookup : db'.catalog.tables.lookup name = some d := Catalog.getTable_eq_ok.mp hd
  have hname : d.name = name := hrooted.table_name name d (hdb'.1.1 ▸ hlookup)
  refine reads_tableScan (P := fun db₁ => Onward s db' db₁ ∧
    ∀ txnID, s.currentTxn = some txnID → Held txnID name .lockShared db₁)
    (returns_acquire ?_ fun txnID db₁ htxn hdb₁ => ?_) ?_
  · refine fun htxn => ⟨refl_of _ db', fun txnID htxn' => ?_⟩
    rw [htxn] at htxn'
    cases htxn'
  · refine holds_selects (.acquire txnID name .lockShared) ⟨trivial, fun _ _ => trivial⟩ ⟨rfl, rfl⟩
      fun hgranted => ⟨trans_of _ hdb₁ ?_, fun txnID' htxn' => ?_⟩
    · exact ⟨⟨rfl, rfl⟩, fun id _ => holding_handler id rfl db₁⟩
    · rw [htxn] at htxn'
      cases htxn'
      exact held_of_granted hgranted
  · rintro db₁ db₂ ⟨hdb₁, hheld⟩ hdb₂
    have hsame := (trans_of (Onward s) hdb₁ hdb₂).1
    refine holds_selects (.scan d) ⟨⟨?_, trivial⟩, fun txnID htxn => ⟨.lockShared, ?_⟩⟩
      ⟨rfl, rfl⟩ ?_
    · rw [hsame.1, hname, hlookup]
    · rw [hname]
      exact hdb₂.2 txnID htxn name .lockShared (hheld txnID htxn)
    · rw [← hsame.2]
      rfl

theorem selects_executeSelect (hrooted : Rooted db) (stmt : SelectStmt) :
    Prog.Along Database.handler (Selects s) (executeSelect stmt s) db := by
  have hserves : Serves _ (Onward s) s db := serves_selects hrooted
  have hyields := yields_executeSelect (fun _ _ h => h.1) hserves stmt
  exact (Prog.along_of_wp (Prog.Steady.wp hyields) (Prog.along_true _ _ _)).1

end Select

/-! ### Statements -/

/-- A foreign key of the table `child` refers to the table `parent`. -/
def Refers (c : Catalog) (child parent : Bytes) : Prop :=
  ∃ d, c.tables.lookup child = some d ∧ ∃ fk ∈ d.foreignKeys, fk.refTable = parent

/-- The table that a statement names to change it. -/
def Statement.target : Statement → Option Bytes
  | .insertStmt stmt => some stmt.table
  | .updateStmt stmt => some stmt.table
  | .deleteStmt stmt => some stmt.table
  | _ => none

/-- The tables whose rows such a statement may read. -/
def MayRead (c : Catalog) : Statement → Bytes → Prop
  | .insertStmt stmt, p => Refers c stmt.table p
  | .updateStmt stmt, p => p = stmt.table ∨ Refers c stmt.table p ∨ Refers c p stmt.table
  | .deleteStmt stmt, p =>
    Relation.ReflTransGen (fun parent child => Refers c child parent) stmt.table p
  | _, _ => False

/-- The tables whose rows such a statement may write. -/
def MayWrite (c : Catalog) : Statement → Bytes → Prop
  | .insertStmt stmt, p => p = stmt.table
  | .updateStmt stmt, p => p = stmt.table ∨ Refers c p stmt.table
  | .deleteStmt stmt, p =>
    Relation.ReflTransGen (fun parent child => Refers c child parent) stmt.table p
  | _, _ => False

/-- The locks on the tables that foreign keys lead to are there before the
statement. -/
def Prelocked (txnID : Nat) (db : Database) (stmt : Statement) : Prop :=
  ∀ p, stmt.target ≠ some p →
    (MayRead db.catalog stmt p → ∃ mode, Held txnID p mode db) ∧
      (MayWrite db.catalog stmt p → Held txnID p .lockExclusive db)

section Statements

variable {txnID : Nat} {s : Session} {db : Database}

variable {stmt : Statement}

/-- A statement that changes a table and makes the calls it may make. -/
theorem covered_of_target {table : Bytes} {rest : Unit → Exec Unit}
    (htxn : s.currentTxn = some txnID) (hpre : Prelocked txnID db stmt)
    (htarget : stmt.target = some table)
    (h : Prog.Along Database.handler (Proper (MayRead db.catalog stmt) (MayWrite db.catalog stmt))
      ((acquire table .lockExclusive >>= rest) s) db) :
    Prog.Along Database.handler (Covered txnID) ((acquire table .lockExclusive >>= rest) s) db := by
  have hother : ∀ p, p = table ∨ stmt.target ≠ some p := by
    intro p
    rw [htarget, ne_eq, Option.some_inj, eq_comm]
    exact em _
  refine covered_of_proper htxn (fun p hp => ?_) (fun p hp => ?_) h
  · exact (hother p).imp_right fun hne => (hpre p hne).1 hp
  · exact (hother p).imp_right fun hne => (hpre p hne).2 hp

/-- A statement that makes one call, and what follows makes none. -/
theorem along_perform_bind {α : Type} {φ : DbOp → Database → Prop} {o : DbOp}
    {f : o.Resp → Exec α} (ho : φ o db)
    (hf : ∀ r db', Prog.Along Database.handler φ (f r s) db') :
    Prog.Along Database.handler φ ((perform o >>= f) s) db :=
  ⟨ho, hf _ _⟩

theorem along_ddl {φ : DbOp → Database → Prop} (r : Except CatalogErr Unit) :
    Prog.Along Database.handler φ (ddl r s) db := by
  cases r <;> trivial

theorem covered_execute (hrooted : Rooted db) (htxn : s.currentTxn = some txnID)
    (hpre : Prelocked txnID db stmt) (depth : Nat) :
    Prog.Along Database.handler (Covered txnID) (execute depth stmt s) db := by
  cases stmt with
  | selectStmt stmt =>
    exact (selects_executeSelect hrooted stmt).mono fun _ _ h => h.2 txnID htxn
  | insertStmt stmt =>
    have hproper : Prog.Along Database.handler (Proper (MayRead db.catalog (.insertStmt stmt))
        (MayWrite db.catalog (.insertStmt stmt))) (executeInsert stmt s) db := by
      refine proper_executeInsert hrooted ?_ (fun d hd fk hfk => ?_) s
      · rfl
      · exact ⟨d, hd, fk, hfk, rfl⟩
    exact along_bind_pure (covered_of_target htxn hpre rfl hproper)
  | updateStmt stmt =>
    have hproper : Prog.Along Database.handler (Proper (MayRead db.catalog (.updateStmt stmt))
        (MayWrite db.catalog (.updateStmt stmt))) (executeUpdate stmt s) db :=
      proper_executeUpdate hrooted (.inl rfl) (.inl rfl)
        (fun d hd fk hfk => .inr (.inl ⟨d, hd, fk, hfk, rfl⟩))
        (fun name child hchild fk hfk href =>
          ⟨.inr (.inr ⟨child, hchild, fk, hfk, href⟩), .inr ⟨child, hchild, fk, hfk, href⟩⟩) s
    exact along_bind_pure (covered_of_target htxn hpre rfl hproper)
  | deleteStmt stmt =>
    have hproper : Prog.Along Database.handler (Proper (MayRead db.catalog (.deleteStmt stmt))
        (MayWrite db.catalog (.deleteStmt stmt))) (executeDelete depth stmt s) db :=
      proper_executeDelete hrooted .refl .refl (fun name child hchild fk hfk hwrite =>
        ⟨hwrite.tail ⟨child, hchild, fk, hfk, rfl⟩,
          hwrite.tail ⟨child, hchild, fk, hfk, rfl⟩⟩) depth s
    exact along_bind_pure (covered_of_target htxn hpre rfl hproper)
  | createTableStmt stmt =>
    rw [execute]
    cases astToTableDef stmt with
    | error e => trivial
    | ok d => exact along_perform_bind trivial fun r _ => along_ddl r
  | dropTableStmt table => exact along_perform_bind trivial fun r _ => along_ddl r
  | createIndexStmt stmt => exact along_perform_bind trivial fun r _ => along_ddl r
  | dropIndexStmt index => exact along_perform_bind trivial fun r _ => along_ddl r
  | beginStmt =>
    cases s
    cases htxn
    trivial
  | commitStmt =>
    cases s
    cases htxn
    refine along_perform_bind trivial fun r _ => ?_
    cases r <;> trivial
  | rollbackStmt =>
    cases s
    cases htxn
    refine along_perform_bind trivial fun r _ => ?_
    cases r <;> trivial
  | analyzeStmt table => trivial

/-- Only `COMMIT` and `ROLLBACK` end a transaction. -/
theorem goes_on_execute (hrooted : Rooted db) (hcommit : stmt ≠ .commitStmt)
    (hrollback : stmt ≠ .rollbackStmt) (depth : Nat) :
    Prog.Along Database.handler (fun o _ => o.ends = false) (execute depth stmt s) db := by
  have hlawful : ∀ o db, Lawful o db → o.ends = false := by
    rintro o db (⟨stmt, d, -, rfl⟩ | ⟨x, rfl⟩ | hproper)
    · rfl
    · rfl
    · exact DbOp.ends_of_proper hproper
  cases stmt with
  | selectStmt stmt =>
    exact (selects_executeSelect hrooted stmt).mono fun _ _ h => DbOp.ends_of_proper h.1
  | insertStmt _ | updateStmt _ | deleteStmt _ | createTableStmt _ | createIndexStmt _ =>
    exact (lawful_execute hrooted rfl depth s).mono hlawful
  | dropTableStmt table => exact along_perform_bind rfl fun r _ => along_ddl r
  | dropIndexStmt index => exact along_perform_bind rfl fun r _ => along_ddl r
  | beginStmt =>
    obtain ⟨_ | txnID⟩ := s
    · refine along_perform_bind rfl fun r _ => ?_
      cases r <;> trivial
    · trivial
  | commitStmt => exact absurd rfl hcommit
  | rollbackStmt => exact absurd rfl hrollback
  | analyzeStmt table => trivial

end Statements

/-! ### Runs -/

/-- The locks on the tables that foreign keys lead to are there before the
statement, if it is inside a transaction. -/
def World.Prelocked (w : World) (stmt : Statement) : Prop :=
  ∀ txnID, w.session.currentTxn = some txnID → Sql.Prelocked txnID w.db stmt

/-- Inside a transaction every access of the statement is covered by a lock,
and only `COMMIT` and `ROLLBACK` take locks away. -/
structure World.TwoPhase (depth : Nat) (w : World) (stmt : Statement) : Prop where
  covered : w.stopped = false → ∀ txnID, w.session.currentTxn = some txnID →
    Prog.Along Database.handler (Covered txnID) (execute depth stmt w.session) w.db
  kept : stmt ≠ .commitStmt → stmt ≠ .rollbackStmt → ∀ txnID,
    Holding txnID w.db (w.step depth stmt).db

theorem accesses_covered_of_prelocked {env : Env} {depth : Nat} {stmts : List Statement}
    (h : Effect.Along (World.step depth) World.Prelocked stmts (World.new env)) :
    Effect.Along (World.step depth) (World.TwoPhase depth) stmts (World.new env) := by
  refine h.imp (J := fun w => Rooted w.db)
    (fun w stmt hrooted _ => w.rooted_step depth hrooted stmt)
    (fun w stmt hrooted hpre => ⟨fun _ txnID htxn => ?_, fun hcommit hrollback txnID => ?_⟩)
    (Rooted.new env)
  · exact covered_execute hrooted htxn (hpre txnID htxn) depth
  · rw [World.step]
    split_ifs
    · exact refl_of (Holding txnID) w.db
    · refine Prog.run_invariant (J := Holding txnID w.db) (fun o db hheld ho => ?_)
        (refl_of (Holding txnID) w.db) (goes_on_execute hrooted hcommit hrollback depth)
      exact trans_of (Holding txnID) hheld (holding_handler txnID ho db)

/-- A table with a row, and another one with a foreign key to it. -/
def parentAndChild : List Statement :=
  [.createTableStmt { table := ascii "p", columns := [idColumn] },
    .createTableStmt
      { table := ascii "c", columns := [idColumn, intColumn "p"],
        foreignKeys := [{ column := ascii "p", refTable := ascii "p", refColumn := ascii "id" }] },
    insertInto "p" [["1"]]]

/-- The transaction reads the parent before it adds a child. -/
def readParentFirst : List Statement :=
  parentAndChild ++ [.beginStmt, .selectStmt { columns := [.starExpr], «from» := ascii "p" },
    insertInto "c" [["7", "1"]]]

theorem accesses_covered_at_readParentFirst :
    Effect.Along (World.step 1) (World.TwoPhase 1) readParentFirst (World.new plainEnv) := by
  have houtside : ∀ (w : World) (stmt : Statement), w.session.currentTxn = none →
      w.Prelocked stmt := by
    intro w stmt hnone txnID htxn
    rw [hnone] at htxn
    cases htxn
  have hinside : ∀ w : World, w.session.currentTxn = some 1 →
      ((w.db.catalog.tables.lookup (ascii "c")).map fun d => d.foreignKeys.map (·.refTable)) =
        some [ascii "p"] → Held 1 (ascii "p") .lockShared w.db →
      w.Prelocked (insertInto "c" [["7", "1"]]) := by
    intro w hsome hkeys hheld txnID htxn p hp
    rw [hsome] at htxn
    cases htxn
    refine ⟨?_, fun h => absurd (congrArg some h.symm) hp⟩
    rintro ⟨d, hd, fk, hfk, rfl⟩
    have hmem : fk.refTable ∈ d.foreignKeys.map (·.refTable) := List.mem_map_of_mem hfk
    have hd : w.db.catalog.tables.lookup (ascii "c") = some d := hd
    rw [hd, Option.map_some, Option.some_inj] at hkeys
    rw [hkeys, List.mem_singleton] at hmem
    rw [hmem]
    exact ⟨_, hheld⟩
  refine accesses_covered_of_prelocked
    ⟨houtside _ _ rfl, houtside _ _ ?_, houtside _ _ ?_, houtside _ _ ?_, ?_, hinside _ ?_ ?_ ?_,
      trivial⟩
  · decide +kernel
  · decide +kernel
  · decide +kernel
  · exact fun _ _ _ _ => ⟨False.elim, False.elim⟩
  · decide +kernel
  · decide +kernel
  · decide +kernel

/-- The transaction adds a child at once. -/
def insertIntoChild : List Statement :=
  parentAndChild ++ [.beginStmt, insertInto "c" [["7", "1"]]]

/-- The parent is read without a lock. -/
theorem parent_read_without_lock :
    ¬ Effect.Along (World.step 1) (World.TwoPhase 1) insertIntoChild (World.new plainEnv) := by
  rintro ⟨-, -, -, -, hlast, -⟩
  have hcovered := hlast.covered (by decide +kernel) 1 (by decide +kernel)
  revert hcovered
  decide +kernel

/-! ### What a statement changes -/

/-- The page is the root of the table or of one of its indexes. -/
def TreeOf (c : Catalog) (table : Bytes) (root : UInt32) : Prop :=
  (∃ d, c.tables.lookup table = some d ∧ d.rootPageID = root) ∨
    ∃ indexes, c.indexesForTable table = .ok indexes ∧ ∃ x ∈ indexes, x.rootPageID = root

/-- Only the trees of tables that are written differ from what they were. -/
def Confined (c : Catalog) (writes : Bytes → Prop) (start trees : Trees) : Prop :=
  ∀ root, trees root ≠ start root → ∃ p, writes p ∧ TreeOf c p root

section Confined

variable {reads writes : Bytes → Prop} {start : Trees} {db : Database}

theorem confined_of_proper {o : DbOp} (h : Proper reads writes o db)
    (hdb : Confined db.catalog writes start db.trees) :
    (Database.handler o db).2.catalog = db.catalog ∧
      Confined db.catalog writes start (Database.handler o db).2.trees := by
  let R := Fallible.Preserving (Confined db.catalog writes start)
  have hupdate (p : Bytes) (root : UInt32) (hp : writes p ∧ TreeOf db.catalog p root)
      (trees : Trees) (tree : Storage.OrderedTree) : R trees (Function.update trees root tree) := by
    intro htrees other hne
    by_cases heq : other = root
    · exact ⟨p, heq ▸ hp⟩
    · exact htrees other (by rwa [Function.update_of_ne heq] at hne)
  have hkeeps {d indexes} (ht : Target db d indexes) (hw : writes d.name) (root : UInt32)
      (hroot : root = d.rootPageID ∨ ∃ x ∈ indexes, x.rootPageID = root) :
      (∀ key value wrap, Fallible.Keeps R (treeInsert root key value wrap)) ∧
        ∀ key wrap, Fallible.Keeps R (treeDelete root key wrap) := by
    have hp : writes d.name ∧ TreeOf db.catalog d.name root :=
      ⟨hw, hroot.imp (fun h => ⟨d, ht.table, h.symm⟩) fun h => ⟨indexes, ht.indexes, h⟩⟩
    exact ⟨fun _ _ _ => keeps_treeInsert fun trees tree _ => hupdate _ root hp trees tree,
      fun _ _ => keeps_treeDelete fun trees tree _ => hupdate _ root hp trees tree⟩
  cases o with
  | insertRow =>
    have hk := hkeeps h.1 h.2.1
    exact ⟨rfl, keeps_insertRow ((hk _ (.inl rfl)).1 _ _ _)
      (fun x hx => (hk _ (.inr ⟨x, hx, rfl⟩)).1) db.trees hdb⟩
  | updateRow =>
    have hk := hkeeps h.1 h.2.1
    exact ⟨rfl, keeps_updateRow ((hk _ (.inl rfl)).2 _ _) ((hk _ (.inl rfl)).1 _ _ _)
      (fun x hx => (hk _ (.inr ⟨x, hx, rfl⟩)).2) (fun x hx => (hk _ (.inr ⟨x, hx, rfl⟩)).1)
      db.trees hdb⟩
  | deleteRow =>
    have hk := hkeeps h.1 h.2.1
    exact ⟨rfl, keeps_deleteRow ((hk _ (.inl rfl)).2 _ _)
      (fun x hx => (hk _ (.inr ⟨x, hx, rfl⟩)).2) db.trees hdb⟩
  | setColumn =>
    have hk := hkeeps h.1 h.2.1
    exact ⟨rfl, keeps_setColumn ((hk _ (.inl rfl)).2 _ _) ((hk _ (.inl rfl)).1 _ _ _)
      (fun x hx => (hk _ (.inr ⟨x, hx, rfl⟩)).2) (fun x hx => (hk _ (.inr ⟨x, hx, rfl⟩)).1)
      db.trees hdb⟩
  | getTable | indexesForTable | listTables | scan | acquire => exact ⟨rfl, hdb⟩
  | _ => exact h.elim

/-- `INSERT`, `UPDATE` and `DELETE` make the calls they may make. -/
theorem proper_execute {stmt : Statement} (hrooted : Rooted db) (htarget : stmt.target.isSome)
    (depth : Nat) (s : Session) :
    Prog.Along Database.handler (Proper (MayRead db.catalog stmt) (MayWrite db.catalog stmt))
      (execute depth stmt s) db := by
  cases stmt with
  | insertStmt stmt =>
    have hwrite : MayWrite db.catalog (.insertStmt stmt) stmt.table := rfl
    exact along_bind_pure (proper_executeInsert hrooted hwrite
      (fun d hd fk hfk => ⟨d, hd, fk, hfk, rfl⟩) s)
  | updateStmt stmt =>
    exact along_bind_pure (proper_executeUpdate hrooted (.inl rfl) (.inl rfl)
      (fun d hd fk hfk => .inr (.inl ⟨d, hd, fk, hfk, rfl⟩))
      (fun name child hchild fk hfk href =>
        ⟨.inr (.inr ⟨child, hchild, fk, hfk, href⟩), .inr ⟨child, hchild, fk, hfk, href⟩⟩) s)
  | deleteStmt stmt =>
    exact along_bind_pure (proper_executeDelete hrooted .refl .refl
      (fun name child hchild fk hfk hwrite => ⟨hwrite.tail ⟨child, hchild, fk, hfk, rfl⟩,
        hwrite.tail ⟨child, hchild, fk, hfk, rfl⟩⟩) depth s)
  | _ => cases htarget

end Confined

/-- Whatever its outcome, a statement on the rows of a table leaves the
catalog as it is, and the trees of all tables and indexes that its foreign
keys do not lead to. -/
theorem changes_confined (env : Env) (depth : Nat) (stmts : List Statement) :
    Effect.Along (World.step depth) (fun w stmt => stmt.target.isSome →
      (w.step depth stmt).db.catalog = w.db.catalog ∧
        Confined w.db.catalog (MayWrite w.db.catalog stmt) w.db.trees (w.step depth stmt).db.trees)
      stmts (World.new env) := by
  have hall : Effect.Along (World.step depth) (fun _ _ => True) stmts (World.new env) :=
    .of_forall (fun _ _ _ => trivial) _
  refine Effect.Along.imp (J := fun w => Rooted w.db)
    (fun w stmt h _ => w.rooted_step depth h stmt) (fun w stmt hrooted _ htarget => ?_)
    (Rooted.new env) hall
  rw [World.step]
  split_ifs
  · exact ⟨rfl, fun _ hne => absurd rfl hne⟩
  · -- The catalog stays, so the trees that may change are the same at every call.
    refine Prog.run_invariant (J := fun db => db.catalog = w.db.catalog ∧
      Confined w.db.catalog (MayWrite w.db.catalog stmt) w.db.trees db.trees)
      (fun o db hdb ho => ?_) ⟨rfl, fun _ hne => absurd rfl hne⟩
      (proper_execute hrooted htarget depth w.session)
    have hstart : Confined db.catalog (MayWrite w.db.catalog stmt) w.db.trees db.trees := by
      rw [hdb.1]
      exact hdb.2
    obtain ⟨hcatalog, htrees⟩ := confined_of_proper ho hstart
    exact ⟨hcatalog.trans hdb.1, hdb.1 ▸ htrees⟩

end MySQLight.Sql
