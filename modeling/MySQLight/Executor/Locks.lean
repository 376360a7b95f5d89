import MySQLight.Executor.Similar
import MySQLight.Txn.LockSafety
import MySQLight.Txn.TxnManager

/-!
The locks of a session (`executor/executor.go`, `executor/scan.go`).

A session executes one statement after the other and has at most one
transaction open. Inside a transaction a statement asks for table locks:
`INSERT`, `UPDATE` and `DELETE` for an exclusive one before anything else, a
`SELECT` for a shared one whenever a scan is opened, which for the right
side of a join happens once for every row of the left side. The locks stay
until the transaction ends.

The statements are run over the lock manager and the transaction manager.
What they ask of the catalog, of rows and of pages has no part in this, and
is answered in any way.

A request is refused only because of a lock the session holds itself, since
nobody else is there. The module says which requests those are, and that a
session that never makes one never blocks.
-/

namespace MySQLight.Sql

open MySQLight.Data MySQLight.Effect MySQLight.Storage MySQLight.Txn Fallible

/-! ### The managers below the executor -/

/-- Answers to the calls that have nothing to do with transactions, from the
pool and from anything else. -/
abbrev Answers (τ : Type) : Type := (o : DbOp) → τ × BufferPool → o.Resp × τ × BufferPool

/-- The transaction manager, the object of the open transaction in it, and
the channel a statement waits on. -/
structure Engine (τ : Type) where
  txnManager : TxnManager
  store : τ
  handle : Option Nat := none
  blocked : Option Nat := none

namespace Engine

variable {τ : Type}

/-- `Acquire`, which does not return if there is a channel to wait on. -/
def acquire (e : Engine τ) (txnID : Nat) (table : Bytes) (mode : LockMode) : Bool × Engine τ :=
  match e.txnManager.lockMgr.acquire txnID (lockName table) mode with
  | (none, lm) => (true, { e with txnManager := { e.txnManager with lockMgr := lm } })
  | (some chan, lm) =>
    (false, { e with txnManager := { e.txnManager with lockMgr := lm }, blocked := some chan })

def beginTxn (e : Engine τ) : Option Nat × Engine τ :=
  match TxnManager.begin.run e.txnManager with
  | (.error _, m) => (none, { e with txnManager := m })
  | (.ok handle, m) =>
    (some e.txnManager.nextID,
      { e with
        txnManager := { m with pool := m.pool.setTxnID e.txnManager.nextID }
        handle := some handle })

/-- `COMMIT` and `ROLLBACK`. -/
def endTxn (e : Engine τ) (finish : Nat → Fallible TxnManager TxnErr Unit) : Bool × Engine τ :=
  match e.handle with
  | none => (false, e)
  | some handle =>
    match (finish handle).run e.txnManager with
    | (.error _, m) => (false, { e with txnManager := m })
    | (.ok _, m) =>
      (true, { e with txnManager := { m with pool := m.pool.setTxnID 0 }, handle := none })

def handler (answers : Answers τ) : Prog.Handler DbI (Engine τ)
  | .acquire txnID table mode, e => e.acquire txnID table mode
  | .beginTxn, e => e.beginTxn
  | .commitTxn _, e => e.endTxn TxnManager.commit
  | .rollbackTxn _, e => e.endTxn TxnManager.rollback
  | o, e =>
    let (r, store, pool) := answers o (e.store, e.txnManager.pool)
    (r, { e with store := store, txnManager := { e.txnManager with pool := pool } })

/-- The transaction holds a lock of this mode on the table. -/
def Holds (e : Engine τ) (txnID : Nat) (table : Bytes) (mode : LockMode) : Prop :=
  (e.txnManager.lockMgr.entry (lockName table)).holders.lookup txnID = some mode

instance (e : Engine τ) (txnID : Nat) (table : Bytes) (mode : LockMode) :
    Decidable (e.Holds txnID table mode) :=
  inferInstanceAs (Decidable (_ = _))

/-- A request for a lock that the transaction can share with itself: a shared
lock on a table it has not locked exclusively, an exclusive one on a table it
has not locked. -/
def Free : DbOp → Engine τ → Prop
  | .acquire txnID table mode, e =>
    ¬ e.Holds txnID table .lockExclusive ∧
      (mode = .lockExclusive → ¬ e.Holds txnID table .lockShared)
  | _, _ => True

instance : (o : DbOp) → (e : Engine τ) → Decidable (Free o e)
  | .acquire txnID table mode, e =>
    inferInstanceAs (Decidable (¬ e.Holds txnID table .lockExclusive ∧
      (mode = .lockExclusive → ¬ e.Holds txnID table .lockShared)))
  | .scan _, _ | .insertRow .., _ | .updateRow .., _ | .deleteRow .., _ | .setColumn .., _
  | .getTable _, _ | .indexesForTable _, _ | .listTables, _ | .createTable _, _ | .dropTable _, _
  | .createIndex _, _ | .dropIndex _, _ | .beginTxn, _ | .commitTxn _, _ | .rollbackTxn _, _ =>
    .isTrue trivial

/-! ### The invariant -/

/-- Nobody waits, and only the transaction of the session has locks; it is
the one that `COMMIT` and `ROLLBACK` end. -/
structure Ok (s : Session) (e : Engine τ) : Prop where
  quiet : e.txnManager.lockMgr.Quiet
  own : ∀ table t m, (e.txnManager.lockMgr.entry table).holders.lookup t = some m →
    s.currentTxn = some t
  current : ∀ txnID, s.currentTxn = some txnID → ∃ handle state,
    e.handle = some handle ∧ e.txnManager.txns[handle]? = some ⟨txnID, state⟩
  free : e.blocked = none

variable {s : Session} {e e' : Engine τ} {answers : Answers τ}

theorem Ok.of_same (h : Ok s e) (hlocks : e'.txnManager.lockMgr = e.txnManager.lockMgr)
    (htxns : e'.txnManager.txns = e.txnManager.txns) (hhandle : e'.handle = e.handle)
    (hblocked : e'.blocked = e.blocked) : Ok s e' where
  quiet := hlocks ▸ h.quiet
  own := hlocks ▸ h.own
  current := by
    rw [hhandle, htxns]
    exact h.current
  free := hblocked.trans h.free

/-- A request is refused because of what the transaction has itself. -/
theorem Ok.refused_iff (h : Ok s e) {txnID : Nat} (hid : s.currentTxn = some txnID) (table : Bytes)
    (mode : LockMode) : (e.txnManager.lockMgr.acquire txnID (lockName table) mode).1 ≠ none ↔
      e.Holds txnID table .lockExclusive ∨
        mode = .lockExclusive ∧ e.Holds txnID table .lockShared := by
  have hgrant : (e.txnManager.lockMgr.acquire txnID (lockName table) mode).1 ≠ none ↔
      canGrant (e.txnManager.lockMgr.entry (lockName table)) mode ≠ true := by
    rw [LockManager.acquire, LockManager.entry]
    split_ifs with hgrant
    · simp [hgrant]
    · simp [hgrant]
  have hown (t : Nat) (m : LockMode)
      (ht : (e.txnManager.lockMgr.entry (lockName table)).holders.lookup t = some m) :
      t = txnID :=
    Option.some.inj ((h.own _ t m ht).symm.trans hid)
  rw [hgrant, ne_eq, canGrant_iff, Holds, Holds]
  cases hlookup : (e.txnManager.lockMgr.entry (lockName table)).holders.lookup txnID with
  | none =>
    have hnone (t : Nat) :
        (e.txnManager.lockMgr.entry (lockName table)).holders.lookup t = none := by
      rw [Option.eq_none_iff_forall_ne_some]
      intro m ht
      rw [hown t m ht, hlookup] at ht
      cases ht
    simp [hnone]
  | some m =>
    have hsome :
        ¬ ∀ t, (e.txnManager.lockMgr.entry (lockName table)).holders.lookup t = none := by
      intro hnone
      rw [hnone] at hlookup
      cases hlookup
    cases m with
    | lockExclusive =>
      exact iff_of_true (not_or.mpr ⟨hsome, fun h => h.2 txnID hlookup⟩) (.inl rfl)
    | lockShared =>
      have hshared (t : Nat) :
          (e.txnManager.lockMgr.entry (lockName table)).holders.lookup t ≠
            some .lockExclusive := by
        intro ht
        rw [hown t _ ht, hlookup] at ht
        cases ht
      cases mode with
      | lockShared => simp [hshared]
      | lockExclusive => simp [hsome]

/-! ### Calls -/

/-- A free request is granted. -/
theorem Ok.acquire (h : Ok s e) {txnID : Nat} (hid : s.currentTxn = some txnID) {table : Bytes}
    {mode : LockMode} (hfree : Free (.acquire txnID table mode) e) :
    Ok s (e.acquire txnID table mode).2 := by
  have hnone : (e.txnManager.lockMgr.acquire txnID (lockName table) mode).1 = none := by
    by_contra hsome
    obtain hheld | ⟨hmode, hheld⟩ := (h.refused_iff hid table mode).mp hsome
    · exact hfree.1 hheld
    · exact hfree.2 hmode hheld
  rw [LockManager.acquire] at hnone
  split_ifs at hnone with hgrant
  let lm := { e.txnManager.lockMgr with
    locks := e.txnManager.lockMgr.locks.insert (lockName table)
      ((e.txnManager.lockMgr.entry (lockName table)).hold txnID mode) }
  have hput : LockManager.Put e.txnManager.lockMgr lm (lockName table)
      ((e.txnManager.lockMgr.entry (lockName table)).hold txnID mode) :=
    LockManager.put_insert _ _ _ _ rfl
  have hrun : e.acquire txnID table mode =
      (true, { e with txnManager := { e.txnManager with lockMgr := lm } }) := by
    rw [Engine.acquire, LockManager.acquire, if_pos hgrant]
    rfl
  rw [hrun]
  refine ⟨?_, ?_, h.current, h.free⟩
  · exact hput.forall_entry (P := fun entry => entry.waiters = []) h.quiet (h.quiet _)
  · refine hput.forall_entry (P := fun entry => ∀ t m, entry.holders.lookup t = some m →
      s.currentTxn = some t) h.own fun t m ht => ?_
    rw [lookup_hold] at ht
    split at ht
    · rename_i heq
      rw [heq, hid]
    · exact h.own _ t m ht

/-- The calls of a statement inside or outside of a transaction. -/
theorem Ok.call (h : Ok s e) {o : DbOp} (hwithin : Within s o) (hfree : Free o e) :
    Ok s (handler answers o e).2 := by
  cases o with
  | acquire txnID table mode => exact h.acquire hwithin hfree
  | beginTxn | commitTxn | rollbackTxn => exact hwithin.elim
  | _ => exact h.of_same rfl rfl rfl rfl

theorem Ok.beginTxn (h : Ok s e) (hnone : s.currentTxn = none) :
    Ok ⟨e.beginTxn.1⟩ e.beginTxn.2 := by
  have hfree : ∀ table t m, (e.txnManager.lockMgr.entry table).holders.lookup t ≠ some m := by
    intro table t m ht
    cases hnone.symm.trans (h.own table t m ht)
  obtain ⟨err, m, hrun, hsame⟩ | ⟨m, hrun, hlocks, htxns⟩ := TxnManager.begin_locks e.txnManager
  · rw [Engine.beginTxn, hrun]
    refine ⟨hsame.lockMgr ▸ h.quiet, fun table t m ht => ?_, nofun, h.free⟩
    rw [hsame.lockMgr] at ht
    exact absurd ht (hfree table t m)
  · rw [Engine.beginTxn, hrun]
    refine ⟨hlocks ▸ h.quiet, fun table t m ht => ?_, fun txnID htxn => ?_, h.free⟩
    · rw [hlocks] at ht
      exact absurd ht (hfree table t m)
    · cases htxn
      refine ⟨_, .txnActive, rfl, ?_⟩
      show m.txns[e.txnManager.txns.length]? = _
      rw [htxns, List.getElem?_concat_length]

/-- `COMMIT` and `ROLLBACK` fail, or there are no locks left. -/
theorem Ok.endTxn (h : Ok s e) {finish : Nat → Fallible TxnManager TxnErr Unit}
    (hfinish : TxnManager.EndsTxn finish) {txnID : Nat} (htxn : s.currentTxn = some txnID) :
    Ok (if (e.endTxn finish).1 then ⟨none⟩ else s) (e.endTxn finish).2 := by
  obtain ⟨handle, state, hhandle, hobj⟩ := h.current txnID htxn
  obtain ⟨err, m, hrun, hsame⟩ | ⟨m, txnObj, order, hrun, hobj', hrelease⟩ :=
    hfinish e.txnManager handle
  · have hend : e.endTxn finish = (false, { e with txnManager := m }) := by
      simp only [Engine.endTxn, hhandle, hrun]
    rw [hend]
    exact h.of_same hsame.lockMgr hsame.txns rfl rfl
  · cases hobj.symm.trans hobj'
    obtain ⟨hquiet, hlookup⟩ := LockManager.releaseAll_spec h.quiet txnID order
    have hend : e.endTxn finish =
        (true, { e with txnManager := { m with pool := m.pool.setTxnID 0 }, handle := none }) := by
      simp only [Engine.endTxn, hhandle, hrun]
    rw [hend]
    refine ⟨hrelease ▸ hquiet, fun table t m ht => ?_, nofun, h.free⟩
    -- every lock was one of the transaction, and those are gone
    rw [hrelease, hlookup] at ht
    split_ifs at ht with hne
    exact absurd (Option.some.inj ((h.own table t m ht).symm.trans htxn)) hne

end Engine

/-! ### Whole sessions -/

/-- A session and what it runs on. -/
structure Client (τ : Type) where
  session : Session := {}
  engine : Engine τ

namespace Client

variable {τ : Type} {answers : Answers τ} {depth : Nat} {c : Client τ}

/-- The session takes the next statement, unless it is still blocked. -/
def step (answers : Answers τ) (depth : Nat) (c : Client τ) (stmt : Statement) : Client τ :=
  if c.engine.blocked.isSome then c
  else
    let r := Prog.run (Engine.handler answers) (execute depth stmt c.session) c.engine
    { session := r.1.2, engine := r.2 }

/-- The statement asks for free locks only. -/
def Free (answers : Answers τ) (depth : Nat) (c : Client τ) (stmt : Statement) : Prop :=
  Prog.Along (Engine.handler answers) Engine.Free (execute depth stmt c.session) c.engine

instance (c : Client τ) (stmt : Statement) : Decidable (Free answers depth c stmt) :=
  inferInstanceAs (Decidable (Prog.Along ..))

/-- A session on a database that has just been opened. -/
def new (pool : BufferPool) (store : τ) : Client τ :=
  { engine := { txnManager := .new pool, store := store } }

def Ok (c : Client τ) : Prop := Engine.Ok c.session c.engine

theorem ok_new (pool : BufferPool) (store : τ) : Ok (new pool store) where
  quiet := fun _ => rfl
  own := nofun
  current := nofun
  free := rfl

section Control

variable {g : Prog.Handler DbI (Engine τ)} {s : Session}

theorem Ok.ofBegin {k : Option Nat → Prog DbI (Except ExecErr (List Row) × Session)}
    (hnone : k none = .ret (.error .log, ⟨none⟩))
    (hsome : ∀ txnID, k (some txnID) = .ret (.ok [], ⟨some txnID⟩)) {p : Option Nat × Engine τ}
    (hp : Engine.Ok ⟨p.1⟩ p.2) :
    Engine.Ok (Prog.run g (k p.1) p.2).1.2 (Prog.run g (k p.1) p.2).2 := by
  obtain ⟨_ | txnID, e⟩ := p
  · rwa [hnone]
  · rwa [hsome]

theorem Ok.ofEnd {k : Bool → Prog DbI (Except ExecErr (List Row) × Session)}
    (hfalse : k false = .ret (.error .log, s)) (htrue : k true = .ret (.ok [], ⟨none⟩))
    {p : Bool × Engine τ} (hp : Engine.Ok (if p.1 then ⟨none⟩ else s) p.2) :
    Engine.Ok (Prog.run g (k p.1) p.2).1.2 (Prog.run g (k p.1) p.2).2 := by
  obtain ⟨_ | _, e⟩ := p
  · rwa [hfalse]
  · rwa [htrue]

end Control

theorem Ok.step (h : Ok c) {stmt : Statement} (hfree : Free answers depth c stmt) :
    Ok (c.step answers depth stmt) := by
  have hstep : c.step answers depth stmt =
      ⟨(Prog.run (Engine.handler answers) (execute depth stmt c.session) c.engine).1.2,
        (Prog.run (Engine.handler answers) (execute depth stmt c.session) c.engine).2⟩ := by
    rw [Client.step, Engine.Ok.free h]
    rfl
  rw [hstep, Ok]
  cases hcontrol : stmt.isTxnControl with
  | false =>
    have hrel := rel_execute (s := c.session) depth (rfl : stmt.respell toUpper = _) hcontrol
    dsimp only
    rw [(Prog.Rel.run hrel (Engine.handler answers) c.engine).1.1]
    exact Prog.run_invariant (J := Engine.Ok c.session) (fun o e hok ho => hok.call ho.1 ho.2) h
      ((Prog.Rel.along hrel _ _).and hfree)
  | true =>
    obtain ⟨⟨_ | txnID⟩, e⟩ := c
    · cases stmt with
      | beginStmt =>
        obtain ⟨k, hk, hnone, hsome⟩ : ∃ k, execute depth .beginStmt ⟨none⟩ =
            .call .beginTxn k ∧ k none = .ret (.error .log, ⟨none⟩) ∧
            ∀ txnID, k (some txnID) = .ret (.ok [], ⟨some txnID⟩) :=
          ⟨_, rfl, rfl, fun _ => rfl⟩
        dsimp only
        rw [hk]
        exact Ok.ofBegin hnone hsome (Engine.Ok.beginTxn h rfl)
      | commitStmt | rollbackStmt => exact h
      | _ => cases hcontrol
    · cases stmt with
      | beginStmt => exact h
      | commitStmt =>
        obtain ⟨k, hk, hfalse, htrue⟩ : ∃ k, execute depth .commitStmt ⟨some txnID⟩ =
            .call (.commitTxn txnID) k ∧ k false = .ret (.error .log, ⟨some txnID⟩) ∧
            k true = .ret (.ok [], ⟨none⟩) := ⟨_, rfl, rfl, rfl⟩
        dsimp only
        rw [hk]
        exact Ok.ofEnd hfalse htrue (Engine.Ok.endTxn h TxnManager.endsTxn_commit rfl)
      | rollbackStmt =>
        obtain ⟨k, hk, hfalse, htrue⟩ : ∃ k, execute depth .rollbackStmt ⟨some txnID⟩ =
            .call (.rollbackTxn txnID) k ∧ k false = .ret (.error .log, ⟨some txnID⟩) ∧
            k true = .ret (.ok [], ⟨none⟩) := ⟨_, rfl, rfl, rfl⟩
        dsimp only
        rw [hk]
        exact Ok.ofEnd hfalse htrue (Engine.Ok.endTxn h TxnManager.endsTxn_rollback rfl)
      | _ => cases hcontrol

/-- A session that never asks again for a lock it cannot share with itself
never blocks, whatever is answered to its other calls and whichever of its
statements fail. In every state it reaches these are the only requests that
would have to wait. -/
theorem session_never_blocks (answers : Answers τ) (depth : Nat) (pool : BufferPool) (store : τ)
    (stmts : List Statement)
    (hfree : Effect.Along (step answers depth) (Free answers depth) stmts (new pool store)) :
    let c := stmts.foldl (step answers depth) (new pool store)
    c.engine.blocked = none ∧ ∀ txnID table mode, c.session.currentTxn = some txnID →
      ((c.engine.txnManager.lockMgr.acquire txnID (lockName table) mode).1 ≠ none ↔
        c.engine.Holds txnID table .lockExclusive ∨
          mode = .lockExclusive ∧ c.engine.Holds txnID table .lockShared) := by
  intro c
  have hok : Ok c := hfree.invariant (fun _ _ hok hfree => hok.step hfree) (ok_new pool store)
  exact ⟨hok.free, fun txnID table mode hid => hok.refused_iff hid table mode⟩

/-- The answers of a database. -/
def fromDatabase : Answers Database := fun o (db, pool) =>
  let (r, db) := Database.handler o db
  (r, db, pool)

/-- Two tables, one of them with rows. -/
def twoTables : List Statement :=
  [.createTableStmt { table := ascii "t", columns := [idColumn] },
    .createTableStmt { table := ascii "u", columns := [idColumn] }, insertInto "t" [["1"], ["2"]]]

def selectPairs : Statement :=
  .selectStmt { columns := [.starExpr], «from» := ascii "t", joins := [⟨ascii "t", [], none⟩] }

/-- Joining a table with itself and writing another, then writing the first
in a transaction of its own. -/
def freeStmts : List Statement :=
  twoTables ++ [.beginStmt, selectPairs, insertInto "u" [["1"]], .commitStmt, .beginStmt,
    .deleteStmt { table := ascii "t" }, .rollbackStmt, .beginStmt, selectPairs]

theorem session_never_blocks_at_freeStmts :
    let c := freeStmts.foldl (step fromDatabase 1) (new TxnManager.newPool (.new plainEnv))
    c.engine.blocked = none ∧ ∀ txnID table mode, c.session.currentTxn = some txnID →
      ((c.engine.txnManager.lockMgr.acquire txnID (lockName table) mode).1 ≠ none ↔
        c.engine.Holds txnID table .lockExclusive ∨
          mode = .lockExclusive ∧ c.engine.Holds txnID table .lockShared) :=
  session_never_blocks fromDatabase 1 TxnManager.newPool (.new plainEnv) freeStmts
    (by decide +kernel)

/-- `BEGIN`, and two `INSERT`s into one table, or a `SELECT` from it and an
`INSERT`, or an `INSERT` and a `SELECT`: the last statement waits for the
transaction it belongs to. -/
theorem session_blocks_on_itself :
    [[insertInto "t" [["3"]], insertInto "t" [["4"]]], [selectPairs, insertInto "t" [["3"]]],
      [insertInto "t" [["3"]], selectPairs]].map (fun stmts =>
        ((twoTables ++ .beginStmt :: stmts).foldl (step fromDatabase 1)
          (new TxnManager.newPool (.new plainEnv))).engine.blocked) = [some 0, some 0, some 0] := by
  decide +kernel

end Client

end MySQLight.Sql
