import MySQLight.Storage.PagerRuns
import MySQLight.Storage.PoolLog
import MySQLight.Txn.LockManager
import MySQLight.Wal.RoundTrip

/-!
The transaction manager (`txn/txn.go`).

A transaction is an object with an identifier and a state; clients hold
pointers to the objects `Begin` returned. The manager keeps a map of the
active ones, and it writes a record to the log when a transaction begins
and when it ends. The log is the one the pool writes its update records
to, as the database opens them.

After a crash only the log is left, and recovery takes those transactions
for active that began and did not end in it. The result of this module is
that the log and the map never disagree, whatever calls are made on
whatever transactions and whichever writes fail.
-/

namespace MySQLight.Txn

open MySQLight.Data MySQLight.Effect MySQLight.Storage MySQLight.Wal Fallible

inductive TxnState
  | txnActive
  | txnCommitted
  | txnAborted
deriving DecidableEq, Repr

/-- A transaction object. -/
structure TxnObj where
  id : Nat
  state : TxnState
deriving DecidableEq, Repr

inductive TxnErr
  | notActive
  | storage (e : Err)
deriving DecidableEq, Repr

/-- The manager. `txns` are the objects `Begin` has returned, in this
order; a pointer to one is its position. -/
structure TxnManager where
  nextID : Nat
  active : AList fun _ : Nat => Nat
  txns : List TxnObj
  lockMgr : LockManager
  pool : BufferPool

namespace TxnManager

/-- `NewTxnManager`. -/
def new (pool : BufferPool) : TxnManager := ⟨1, ∅, [], .new, pool⟩

/-- Run a call of the pool. -/
def onPool {α : Type} (x : Fallible BufferPool Err α) : Fallible TxnManager TxnErr α := fun m =>
  match x.run m.pool with
  | (.ok a, pool) => (.ok a, { m with pool := pool })
  | (.error e, pool) => (.error (.storage e), { m with pool := pool })

/-- Append a record to the log. -/
def writeRecord (type : RecordType) (txnID : Nat) : Fallible TxnManager TxnErr Unit :=
  onPool (BufferPool.writeRecord { lsn := 0, txnID := txnID, type := type })

/-- The answer is the pointer to the new transaction. -/
def begin : Fallible TxnManager TxnErr Nat := do
  let txnID := (← get).nextID
  writeRecord .recordBegin txnID
  let handle := (← get).txns.length
  modify fun m =>
    { m with
      txns := m.txns ++ [⟨txnID, .txnActive⟩]
      active := m.active.insert txnID handle
      nextID := (m.nextID + 1) % 2 ^ 64 }
  return handle

/-- The object a pointer leads to, if the transaction is active; there is
none behind a nil pointer. -/
def activeTxn (handle : Nat) : Fallible TxnManager TxnErr TxnObj := do
  match (← get).txns[handle]? with
  | none => throw (.storage .panic)
  | some txnObj => if txnObj.state ≠ .txnActive then throw .notActive else return txnObj

/-- How `Commit` and `Rollback` end: the locks are released, the state is
set and the transaction is no longer active. -/
def finish (handle : Nat) (txnObj : TxnObj) (state : TxnState) :
    Fallible TxnManager TxnErr Unit := do
  let order := (← get).pool.pager.disk.orders (← get).pool.pager.disk.clock
  modify fun m =>
    { m with
      pool := { m.pool with pager := m.pool.pager.ticked }
      lockMgr := m.lockMgr.releaseAll txnObj.id order
      txns := m.txns.set handle { txnObj with state := state }
      active := m.active.erase txnObj.id }

def commit (handle : Nat) : Fallible TxnManager TxnErr Unit := do
  let txnObj ← activeTxn handle
  writeRecord .recordCommit txnObj.id
  finish handle txnObj .txnCommitted

def rollback (handle : Nat) : Fallible TxnManager TxnErr Unit := do
  let txnObj ← activeTxn handle
  onPool (BufferPool.rollbackTxn txnObj.id)
  writeRecord .recordAbort txnObj.id
  finish handle txnObj .txnAborted

end TxnManager

/-- The calls of a client: those of the manager, and what it does to pages
in between. -/
inductive TxnCall
  | begin
  | commit (handle : Nat)
  | rollback (handle : Nat)
  | setTxnID (txnID : Nat)
  | data (o : DataOp)
  | flushAll

namespace TxnManager

def step (m : TxnManager) : TxnCall → TxnManager
  | .begin => (begin.run m).2
  | .commit handle => ((commit handle).run m).2
  | .rollback handle => ((rollback handle).run m).2
  | .setTxnID txnID => { m with pool := m.pool.setTxnID txnID }
  | .data o => { m with pool := (BufferPool.dataHandler o m.pool).2 }
  | .flushAll => { m with pool := (BufferPool.flushAll.run m.pool).2 }

/-- The log. -/
def log (m : TxnManager) : List Record := m.pool.pager.disk.log

/-! ### What a call does to the log -/

variable {m : TxnManager}

/-- The transactions are as before, and so is the connection to the log. -/
structure SameTxns (m m' : TxnManager) : Prop where
  nextID : m'.nextID = m.nextID
  active : m'.active = m.active
  txns : m'.txns = m.txns
  attached : m'.pool.walFile.isSome = m.pool.walFile.isSome

/-- Some update records. -/
def Updates (rs : List Record) : Prop := ∀ r ∈ rs, r.type = .recordUpdate

/-- A record that ends a transaction. -/
def Terminal (r : Record) : Prop := r.type = .recordCommit ∨ r.type = .recordAbort

instance (r : Record) : Decidable (Terminal r) := inferInstanceAs (Decidable (_ ∨ _))

/-- What happens to the transactions and the log at a time: the pool adds
update records, a transaction begins, or one ends. -/
inductive Outcome (m m' : TxnManager) : Prop
  | quiet (updates : List Record) (hupdates : Updates updates) (hsame : SameTxns m m')
      (hlog : m'.log = m.log ++ updates)
  | began (r : Record) (htype : r.type = .recordBegin) (hid : r.txnID = m.nextID)
      (hnext : m'.nextID = (m.nextID + 1) % 2 ^ 64)
      (hactive : m'.active = m.active.insert m.nextID m.txns.length)
      (htxns : m'.txns = m.txns ++ [⟨m.nextID, .txnActive⟩])
      (hattached : m'.pool.walFile.isSome) (hlog : m'.log = m.log ++ [r])
  | ended (handle : Nat) (txnObj : TxnObj) (state : TxnState) (r : Record)
      (hobj : m.txns[handle]? = some txnObj) (hbefore : txnObj.state = .txnActive)
      (hafter : state ≠ .txnActive) (hterminal : Terminal r)
      (hid : r.txnID = txnObj.id) (hnext : m'.nextID = m.nextID)
      (hactive : m'.active = m.active.erase txnObj.id)
      (htxns : m'.txns = m.txns.set handle { txnObj with state := state })
      (hattached : m'.pool.walFile.isSome) (hlog : m'.log = m.log ++ [r])

theorem Outcome.stay {m' : TxnManager} (hsame : SameTxns m m') (hlog : m'.log = m.log) :
    Outcome m m' :=
  .quiet [] (by simp [Updates]) hsame (by simp [hlog])

/-- A call of the pool. -/
theorem outcome_of_logs {pool : BufferPool} (h : m.pool.Logs pool) :
    Outcome m { m with pool := pool } := by
  obtain ⟨updates, hlog, hupdates⟩ := h.grew.log
  exact .quiet updates hupdates ⟨rfl, rfl, rfl, h.attached⟩ hlog

/-- An append fails and changes nothing, or it adds the record. -/
theorem writeRecord_cases (m : TxnManager) (hattached : m.pool.walFile.isSome) (type : RecordType)
    (txnID : Nat) :
    ∃ m', SameTxns m m' ∧
      ((∃ e, (writeRecord type txnID).run m = (.error e, m')) ∧ m'.log = m.log ∨
        (writeRecord type txnID).run m = (.ok (), m') ∧
          ∃ r, r.type = type ∧ r.txnID = txnID ∧ m'.log = m.log ++ [r]) := by
  obtain ⟨w, hwal⟩ := Option.isSome_iff_exists.mp hattached
  have hrun := BufferPool.writeRecord_run hwal { lsn := 0, txnID := txnID, type := type }
  by_cases hfault : m.pool.pager.disk.faults m.pool.pager.disk.clock = true
  · rw [if_pos hfault] at hrun
    refine ⟨{ m with pool := m.pool.logged w m.pool.pager.disk.tick },
      ⟨rfl, rfl, rfl, by simp [BufferPool.logged, hwal]⟩, .inl ⟨⟨.storage .io, ?_⟩, rfl⟩⟩
    simp only [writeRecord, Fallible.run, onPool] at hrun ⊢
    rw [hrun]
  · rw [if_neg hfault] at hrun
    refine ⟨{ m with pool := m.pool.logged w (m.pool.pager.disk.tick.record
        (.append { lsn := w.nextLSN, txnID := txnID, type := type })) },
      ⟨rfl, rfl, rfl, by simp [BufferPool.logged, hwal]⟩, .inr ⟨?_, _, rfl, rfl, rfl⟩⟩
    simp only [writeRecord, Fallible.run, onPool] at hrun ⊢
    rw [hrun]

/-- Only an active transaction is found. -/
theorem activeTxn_cases (m : TxnManager) (handle : Nat) :
    (∃ e, (activeTxn handle).run m = (.error e, m)) ∨
      ∃ txnObj, m.txns[handle]? = some txnObj ∧ txnObj.state = .txnActive ∧
        (activeTxn handle).run m = (.ok txnObj, m) := by
  cases hobj : m.txns[handle]? with
  | none => exact .inl ⟨.storage .panic, by simp [activeTxn, run_bind, hobj]⟩
  | some txnObj =>
    by_cases hstate : txnObj.state = .txnActive
    · exact .inr ⟨txnObj, rfl, hstate, by simp [activeTxn, run_bind, hobj, hstate]⟩
    · exact .inl ⟨.notActive, by simp [activeTxn, run_bind, hobj, hstate]⟩

theorem begin_outcome (m : TxnManager) (hattached : m.pool.walFile.isSome) :
    Outcome m (begin.run m).2 := by
  obtain ⟨m₁, hsame, ⟨⟨e, hrun⟩, hlog⟩ | ⟨hrun, r, htype, hid, hlog⟩⟩ :=
    writeRecord_cases m hattached .recordBegin m.nextID
  · have hbegin : (begin.run m).2 = m₁ := by
      simp [begin, run_bind, hrun]
    rw [hbegin]
    exact .stay hsame hlog
  · have hbegin : (begin.run m).2 =
        { m₁ with
          txns := m₁.txns ++ [⟨m.nextID, .txnActive⟩]
          active := m₁.active.insert m.nextID m₁.txns.length
          nextID := (m₁.nextID + 1) % 2 ^ 64 } := by
      simp [begin, run_bind, hrun]
    rw [hbegin]
    refine .began r htype hid ?_ ?_ ?_ ?_ hlog
    · rw [hsame.nextID]
    · rw [hsame.active, hsame.txns]
    · rw [hsame.txns]
    · exact hsame.attached.trans hattached

variable {txnObj : TxnObj} {rs log : List Record} {r : Record}

/-- `Commit` and `Rollback` after the pool has done its part: the record is
appended and the transaction ends, or nothing happens. -/
theorem ended_outcome {handle : Nat} {state : TxnState} {type : RecordType}
    (hobj : m.txns[handle]? = some txnObj) (hbefore : txnObj.state = .txnActive)
    (hafter : state ≠ .txnActive) (htype : type = .recordCommit ∨ type = .recordAbort)
    (hattached : m.pool.walFile.isSome) :
    Outcome m ((do
      writeRecord type txnObj.id
      finish handle txnObj state : Fallible TxnManager TxnErr Unit).run m).2 := by
  obtain ⟨m₁, hsame, ⟨⟨e, hrun⟩, hlog⟩ | ⟨hrun, r, hr, hid, hlog⟩⟩ :=
    writeRecord_cases m hattached type txnObj.id
  · rw [run_bind_of_error hrun]
    exact .stay hsame hlog
  · rw [run_bind_of_ok hrun]
    refine .ended handle txnObj state r hobj hbefore hafter ?_ hid hsame.nextID ?_ ?_ ?_ hlog
    · rwa [Terminal, hr]
    · rw [← hsame.active]
      rfl
    · rw [← hsame.txns]
      rfl
    · exact hsame.attached.trans hattached

theorem SameTxns.refl (m : TxnManager) : SameTxns m m := ⟨rfl, rfl, rfl, rfl⟩

/-- A call is at most two of these: `Rollback` restores the pages first. -/
theorem step_outcome (m : TxnManager) (hattached : m.pool.walFile.isSome) (call : TxnCall) :
    ∃ m₁, Outcome m m₁ ∧ Outcome m₁ (m.step call) := by
  have hstay (m : TxnManager) : Outcome m m := .stay (.refl m) rfl
  cases call with
  | begin => exact ⟨m, hstay m, begin_outcome m hattached⟩
  | commit handle =>
    refine ⟨m, hstay m, ?_⟩
    rw [step, commit]
    obtain ⟨e, hrun⟩ | ⟨txnObj, hobj, hbefore, hrun⟩ := activeTxn_cases m handle
    · rw [run_bind_of_error hrun]
      exact hstay m
    · rw [run_bind_of_ok hrun]
      exact ended_outcome hobj hbefore (by decide) (.inl rfl) hattached
  | rollback handle =>
    rw [step, rollback]
    obtain ⟨e, hrun⟩ | ⟨txnObj, hobj, hbefore, hrun⟩ := activeTxn_cases m handle
    · rw [run_bind_of_error hrun]
      exact ⟨m, hstay m, hstay m⟩
    · rw [run_bind_of_ok hrun]
      have hlogs := BufferPool.keeps_rollbackTxn txnObj.id m.pool
      rcases hpool : (BufferPool.rollbackTxn txnObj.id).run m.pool with ⟨result, pool⟩
      rw [hpool] at hlogs
      refine ⟨{ m with pool := pool }, outcome_of_logs hlogs, ?_⟩
      have honPool : (onPool (BufferPool.rollbackTxn txnObj.id)).run m =
          (result.mapError .storage, { m with pool := pool }) := by
        simp only [Fallible.run, onPool] at hpool ⊢
        rw [hpool]
        cases result <;> rfl
      cases result with
      | error e =>
        rw [run_bind_of_error honPool]
        exact hstay _
      | ok u =>
        rw [run_bind_of_ok honPool]
        exact ended_outcome hobj hbefore (by decide) (.inr rfl)
          (hlogs.attached.trans hattached)
  | setTxnID txnID => exact ⟨m, hstay m, .stay ⟨rfl, rfl, rfl, rfl⟩ rfl⟩
  | data o => exact ⟨m, hstay m, outcome_of_logs (BufferPool.logs_dataHandler o m.pool)⟩
  | flushAll => exact ⟨m, hstay m, outcome_of_logs (BufferPool.keeps_flushAll m.pool)⟩

theorem Outcome.attached {m' : TxnManager} (h : Outcome m m') (hattached : m.pool.walFile.isSome) :
    m'.pool.walFile.isSome := by
  cases h with
  | quiet updates hupdates hsame hlog => exact hsame.attached.trans hattached
  | began r htype hid hnext hactive htxns hattached' hlog => exact hattached'
  | ended handle txnObj state r hobj hbefore hafter hterminal hid hnext hactive htxns hattached'
      hlog => exact hattached'

/-- The log only grows. -/
theorem Outcome.log_append {m' : TxnManager} (h : Outcome m m') : ∃ rs, m'.log = m.log ++ rs := by
  cases h with
  | quiet updates hupdates hsame hlog => exact ⟨_, hlog⟩
  | began r htype hid hnext hactive htxns hattached hlog => exact ⟨_, hlog⟩
  | ended handle txnObj state r hobj hbefore hafter hterminal hid hnext hactive htxns hattached
      hlog => exact ⟨_, hlog⟩

/-! ### The log and the map of active transactions -/

/-- The log tells one story of each transaction: it begins once, and it
ends at most once and after it began. -/
structure Orderly (log : List Record) : Prop where
  begins : ((log.filter (·.type = .recordBegin)).map (·.txnID)).Nodup
  ends : ((log.filter (Terminal ·)).map (·.txnID)).Nodup
  ends_after_begin : ∀ pre r post, log = pre ++ r :: post → Terminal r →
    ∃ b ∈ pre, b.type = .recordBegin ∧ b.txnID = r.txnID

theorem Updates.not_terminal (h : Updates rs) (hr : r ∈ rs) : ¬ Terminal r := by
  rw [Terminal, h r hr]
  decide

theorem Updates.filter_begin (h : Updates rs) : rs.filter (·.type = .recordBegin) = [] := by
  rw [List.filter_eq_nil_iff]
  intro r hr
  rw [h r hr]
  decide

theorem Updates.filter_terminal (h : Updates rs) : rs.filter (Terminal ·) = [] := by
  rw [List.filter_eq_nil_iff]
  intro r hr
  simpa using h.not_terminal hr

/-- What comes behind a log that is cut at a record. -/
theorem append_eq_cut {pre post : List Record} (h : log ++ rs = pre ++ r :: post) :
    (∃ post', log = pre ++ r :: post') ∨ r ∈ rs ∧ ∀ b ∈ log, b ∈ pre := by
  obtain ⟨mid, rfl, rfl⟩ | ⟨mid, rfl, hmid⟩ := List.append_eq_append_iff.mp h
  · exact .inr ⟨by simp, fun b hb => List.mem_append_left _ hb⟩
  · cases mid with
    | nil =>
      rw [List.nil_append] at hmid
      exact .inr ⟨by simp [← hmid], by simp⟩
    | cons r' mid =>
      rw [List.cons_append, List.cons.injEq] at hmid
      exact .inl ⟨mid, by rw [hmid.1]⟩

theorem nodup_ids_concat {p : Record → Bool} (h : ((log.filter p).map (·.txnID)).Nodup)
    (hnew : ∀ b ∈ log, p b → b.txnID ≠ r.txnID) :
    (((log ++ [r]).filter p).map (·.txnID)).Nodup := by
  rw [List.filter_append, List.map_append, List.nodup_append]
  refine ⟨h, ?_, ?_⟩
  · by_cases hr : p r = true
    · simp [hr]
    · simp [hr]
  · intro id hid id' hid'
    obtain ⟨b, hb, rfl⟩ := List.mem_map.mp hid
    obtain ⟨b', hb', rfl⟩ := List.mem_map.mp hid'
    rw [List.mem_filter] at hb hb'
    rw [List.mem_singleton.mp hb'.1]
    exact hnew b hb.1 hb.2

namespace Orderly

variable {log updates : List Record} {r : Record}

theorem concat_updates (h : Orderly log) (hupdates : Updates updates) :
    Orderly (log ++ updates) where
  begins := by simpa [hupdates.filter_begin] using h.begins
  ends := by simpa [hupdates.filter_terminal] using h.ends
  ends_after_begin := by
    intro pre r post heq hterminal
    obtain ⟨post', hlog⟩ | ⟨hr, -⟩ := append_eq_cut heq
    · exact h.ends_after_begin pre r post' hlog hterminal
    · exact absurd hterminal (hupdates.not_terminal hr)

theorem concat_begin (h : Orderly log) (htype : r.type = .recordBegin)
    (hnew : ∀ b ∈ log, b.type = .recordBegin → b.txnID ≠ r.txnID) : Orderly (log ++ [r]) := by
  have hterminal : ¬ Terminal r := by
    rw [Terminal, htype]
    decide
  refine ⟨nodup_ids_concat h.begins (by simpa using hnew), by simpa [hterminal] using h.ends, ?_⟩
  · intro pre r' post heq hr'
    obtain ⟨post', hlog⟩ | ⟨hmem, -⟩ := append_eq_cut heq
    · exact h.ends_after_begin pre r' post' hlog hr'
    · rw [List.mem_singleton.mp hmem] at hr'
      exact absurd hr' hterminal

theorem concat_terminal (h : Orderly log) (hterminal : Terminal r)
    (hbegin : ∃ b ∈ log, b.type = .recordBegin ∧ b.txnID = r.txnID)
    (hnew : ∀ b ∈ log, Terminal b → b.txnID ≠ r.txnID) : Orderly (log ++ [r]) := by
  have htype : r.type ≠ .recordBegin := by
    rcases hterminal with h | h <;> rw [h] <;> decide
  refine ⟨by simpa [htype] using h.begins, nodup_ids_concat h.ends (by simpa using hnew), ?_⟩
  · intro pre r' post heq hr'
    obtain ⟨post', hlog⟩ | ⟨hmem, hpre⟩ := append_eq_cut heq
    · exact h.ends_after_begin pre r' post' hlog hr'
    · obtain ⟨b, hb, hb'⟩ := hbegin
      rw [List.mem_singleton.mp hmem]
      exact ⟨b, hpre b hb, hb'⟩

end Orderly

/-- The invariant. Identifiers are given out in order, so the `i`-th object
has the identifier `i + 1`. -/
structure Ok (m : TxnManager) : Prop where
  next : m.nextID = m.txns.length + 1
  ids : ∀ i txnObj, m.txns[i]? = some txnObj → txnObj.id = i + 1
  begin_count : (m.log.filter (·.type = .recordBegin)).length = m.txns.length
  begin_le : ∀ r ∈ m.log, r.type = .recordBegin → r.txnID ≤ m.txns.length
  begun : ∀ i < m.txns.length, ∃ b ∈ m.log, b.type = .recordBegin ∧ b.txnID = i + 1
  ended : ∀ r ∈ m.log, Terminal r →
    ∃ i txnObj, m.txns[i]? = some txnObj ∧ r.txnID = i + 1 ∧ txnObj.state ≠ .txnActive
  orderly : Orderly m.log
  active : ∀ id, id ∈ collectActive m.log ∅ ↔ id ∈ m.active

theorem collectActive_updates {updates : List Record} (h : Updates updates) (output : ActiveTxns) :
    collectActive updates output = output := by
  induction updates generalizing output with
  | nil => rfl
  | cons r updates ih =>
    obtain ⟨hr, hrest⟩ := List.forall_mem_cons.mp h
    rw [collectActive, List.foldl_cons, noteActive, hr]
    exact ih hrest output

theorem collectActive_append (log rs : List Record) (output : ActiveTxns) :
    collectActive (log ++ rs) output = collectActive rs (collectActive log output) :=
  List.foldl_append

/-- Update records say nothing about transactions. -/
theorem Ok.quiet {m' : TxnManager} (h : Ok m) {updates : List Record} (hupdates : Updates updates)
    (hsame : SameTxns m m') (hlog : m'.log = m.log ++ updates) : Ok m' := by
  have hbegin {r : Record} (hr : r ∈ m'.log) (htype : r.type = .recordBegin) : r ∈ m.log := by
    rw [hlog, List.mem_append] at hr
    refine hr.resolve_right fun hr => ?_
    rw [hupdates r hr] at htype
    cases htype
  have hend {r : Record} (hr : r ∈ m'.log) (hterminal : Terminal r) : r ∈ m.log := by
    rw [hlog, List.mem_append] at hr
    exact hr.resolve_right fun hr => hupdates.not_terminal hr hterminal
  refine ⟨?_, ?_, ?_, ?_, ?_, ?_, ?_, ?_⟩
  · rw [hsame.nextID, hsame.txns, h.next]
  · rw [hsame.txns]
    exact h.ids
  · rw [hlog, List.filter_append, hupdates.filter_begin, List.append_nil, hsame.txns, h.begin_count]
  · rw [hsame.txns]
    exact fun r hr htype => h.begin_le r (hbegin hr htype) htype
  · rw [hsame.txns, hlog]
    intro i hi
    obtain ⟨b, hb, hb'⟩ := h.begun i hi
    exact ⟨b, List.mem_append_left _ hb, hb'⟩
  · rw [hsame.txns]
    exact fun r hr hterminal => h.ended r (hend hr hterminal) hterminal
  · rw [hlog]
    exact h.orderly.concat_updates hupdates
  · rw [hlog, collectActive_append, collectActive_updates hupdates, hsame.active]
    exact h.active

/-- A transaction begins, with an identifier nobody had. -/
theorem Ok.began {m' : TxnManager} (h : Ok m) (htype : r.type = .recordBegin)
    (hid : r.txnID = m.nextID) (hnext : m'.nextID = (m.nextID + 1) % 2 ^ 64)
    (hactive : m'.active = m.active.insert m.nextID m.txns.length)
    (htxns : m'.txns = m.txns ++ [⟨m.nextID, .txnActive⟩]) (hlog : m'.log = m.log ++ [r])
    (hlen : m'.log.length < 2 ^ 63) : Ok m' := by
  have hterminal : ¬ Terminal r := by
    rw [Terminal, htype]
    decide
  have hcount : (m'.log.filter (·.type = .recordBegin)).length = m.txns.length + 1 := by
    rw [hlog, List.filter_append, List.length_append, h.begin_count]
    simp [htype]
  have hbound : m.txns.length + 1 < 2 ^ 63 :=
    (hcount ▸ List.length_filter_le _ _).trans_lt hlen
  rw [h.next] at hid hnext hactive htxns
  have hlen' : m'.txns.length = m.txns.length + 1 := by simp [htxns]
  refine ⟨?_, ?_, hcount.trans hlen'.symm, ?_, ?_, ?_, ?_, ?_⟩
  · rw [hnext, hlen']
    omega
  · intro i txnObj hobj
    rw [htxns] at hobj
    rcases Nat.lt_or_ge i m.txns.length with hi | hi
    · rw [List.getElem?_append_left hi] at hobj
      exact h.ids i txnObj hobj
    · rw [List.getElem?_append_right hi, List.getElem?_singleton] at hobj
      split at hobj
      · cases hobj
        change m.txns.length + 1 = i + 1
        omega
      · cases hobj
  · intro b hb hb'
    rw [hlen']
    rw [hlog, List.mem_append, List.mem_singleton] at hb
    rcases hb with hb | rfl
    · exact (h.begin_le b hb hb').trans (Nat.le_succ _)
    · exact hid.le
  · intro i hi
    rw [hlen'] at hi
    rw [hlog]
    rcases Nat.lt_succ_iff_lt_or_eq.mp hi with hi | rfl
    · obtain ⟨b, hb, hb'⟩ := h.begun i hi
      exact ⟨b, List.mem_append_left _ hb, hb'⟩
    · exact ⟨r, by simp, htype, hid⟩
  · intro b hb hb'
    rw [hlog, List.mem_append, List.mem_singleton] at hb
    rcases hb with hb | rfl
    · obtain ⟨i, txnObj, hobj, hi⟩ := h.ended b hb hb'
      refine ⟨i, txnObj, ?_, hi⟩
      rw [htxns, List.getElem?_append_left (List.getElem?_eq_some_iff.mp hobj).1]
      exact hobj
    · exact absurd hb' hterminal
  · rw [hlog]
    refine h.orderly.concat_begin htype fun b hb hb' => ?_
    have := h.begin_le b hb hb'
    omega
  · intro id
    rw [hlog, collectActive_append, hactive, AList.mem_insert, ← h.active id]
    simp [collectActive, noteActive, htype, hid, AList.mem_insert]

/-- A transaction ends that had not ended before. -/
theorem Ok.ended_step {m' : TxnManager} (h : Ok m) {handle : Nat} {state : TxnState}
    (hobj : m.txns[handle]? = some txnObj) (hbefore : txnObj.state = .txnActive)
    (hafter : state ≠ .txnActive) (hterminal : Terminal r) (hid : r.txnID = txnObj.id)
    (hnext : m'.nextID = m.nextID) (hactive : m'.active = m.active.erase txnObj.id)
    (htxns : m'.txns = m.txns.set handle { txnObj with state := state })
    (hlog : m'.log = m.log ++ [r]) : Ok m' := by
  have htype : r.type ≠ .recordBegin := by
    rcases hterminal with h | h <;> rw [h] <;> decide
  have hidx := h.ids handle txnObj hobj
  have hlt := (List.getElem?_eq_some_iff.mp hobj).1
  have hlen : m'.txns.length = m.txns.length := by simp [htxns]
  have hget (i : Nat) : m'.txns[i]? =
      if handle = i then some { txnObj with state := state } else m.txns[i]? := by
    rw [htxns, List.getElem?_set]
    simp [hlt]
  rw [hidx] at hid
  refine ⟨?_, ?_, ?_, ?_, ?_, ?_, ?_, ?_⟩
  · rw [hnext, hlen, h.next]
  · intro i x hx
    rw [hget] at hx
    split at hx
    · rename_i heq
      cases hx
      rw [← heq]
      exact hidx
    · exact h.ids i x hx
  · rw [hlog, hlen, ← h.begin_count]
    simp [htype]
  · intro b hb hb'
    rw [hlog, List.mem_append, List.mem_singleton] at hb
    rw [hlen]
    exact h.begin_le b (hb.resolve_right fun heq => htype (heq ▸ hb')) hb'
  · intro i hi
    obtain ⟨b, hb, hb'⟩ := h.begun i (hlen ▸ hi)
    exact ⟨b, by rw [hlog]; exact List.mem_append_left _ hb, hb'⟩
  · intro b hb hb'
    rw [hlog, List.mem_append, List.mem_singleton] at hb
    rcases hb with hb | rfl
    · obtain ⟨i, x, hx, hi, hstate⟩ := h.ended b hb hb'
      by_cases heq : handle = i
      · exact ⟨i, _, by rw [hget, if_pos heq], hi, hafter⟩
      · exact ⟨i, x, by rw [hget, if_neg heq, hx], hi, hstate⟩
    · exact ⟨handle, _, by rw [hget, if_pos rfl], hid, hafter⟩
  · rw [hlog]
    refine h.orderly.concat_terminal hterminal ?_ fun b hb hb' heq => ?_
    · rw [hid]
      exact h.begun handle hlt
    · -- a record that ended it earlier would have left the object ended
      obtain ⟨i, x, hx, hi, hstate⟩ := h.ended b hb hb'
      obtain rfl : i = handle := by omega
      rw [hobj] at hx
      cases hx
      exact hstate hbefore
  · intro id
    rw [hlog, collectActive_append, hactive, AList.mem_erase, ← h.active id, hidx]
    rcases hterminal with htype | htype <;>
      simp [collectActive, noteActive, htype, hid, AList.mem_erase]

theorem Ok.outcome {m' : TxnManager} (h : Ok m) (hout : Outcome m m')
    (hlen : m'.log.length < 2 ^ 63) : Ok m' := by
  cases hout with
  | quiet updates hupdates hsame hlog => exact h.quiet hupdates hsame hlog
  | began r htype hid hnext hactive htxns hattached hlog =>
    exact h.began htype hid hnext hactive htxns hlog hlen
  | ended handle txnObj state r hobj hbefore hafter hterminal hid hnext hactive htxns hattached
      hlog =>
      exact h.ended_step hobj hbefore hafter hterminal hid hnext hactive htxns hlog

theorem ok_new {pool : BufferPool} (hlog : pool.pager.disk.log = []) : Ok (new pool) := by
  have hlog' : (new pool).log = [] := hlog
  refine ⟨rfl, by simp [new], by rw [hlog']; rfl, by simp [hlog'], by simp [new], by simp [hlog'],
    ⟨by simp [hlog'], by simp [hlog'], by simp [hlog']⟩, ?_⟩
  intro id
  rw [hlog']
  exact Iff.rfl

/-- A log that fits into a file is shorter than the identifiers reach. -/
theorem length_lt_of_fits {crc : Bytes → UInt32}
    (hsize : (LogFile.encodeAll crc log).length ≤ maxFileSize) : log.length < 2 ^ 63 := by
  have hlen := LogFile.length_encodeAll crc log
  simp only [maxFileSize] at hsize
  omega

/-- What a run keeps: the log is attached, and as long as it is short
enough for the identifiers the invariant holds. -/
def Kept (m : TxnManager) : Prop := m.pool.walFile.isSome ∧ (m.log.length < 2 ^ 63 → Ok m)

theorem Kept.step (hm : Kept m) (call : TxnCall) : Kept (m.step call) := by
  obtain ⟨m₁, hout₁, hout₂⟩ := step_outcome m hm.1 call
  obtain ⟨rs₁, hlog₁⟩ := hout₁.log_append
  obtain ⟨rs₂, hlog₂⟩ := hout₂.log_append
  refine ⟨hout₂.attached (hout₁.attached hm.1), fun hlen => ?_⟩
  have hlen₁ : m₁.log.length < 2 ^ 63 := by
    rw [hlog₂, List.length_append] at hlen
    omega
  have hlen₀ : m.log.length < 2 ^ 63 := by
    rw [hlog₁, List.length_append] at hlen₁
    omega
  exact ((hm.2 hlen₀).outcome hout₁ hlen₁).outcome hout₂ hlen

/-- Whatever calls are made and whichever writes fail, the log tells one
story of each transaction, and the transactions that recovery would find
active in it are those in the map of active transactions. -/
theorem log_agrees_with_active (crc : Bytes → UInt32) (pool : BufferPool)
    (hattached : pool.walFile.isSome) (hempty : pool.pager.disk.log = []) (calls : List TxnCall)
    (hsize : (LogFile.encodeAll crc (calls.foldl step (new pool)).log).length ≤ maxFileSize) :
    let m := calls.foldl step (new pool)
    Orderly m.log ∧
      ∀ p active q, (pagerWriter.analysisPass m.log ∅).run p = (.ok active, q) →
        ∀ id, id ∈ active ↔ id ∈ m.active := by
  intro m
  have hnew : Kept (new pool) := ⟨hattached, fun _ => ok_new hempty⟩
  have hok := (foldl_invariant Kept (fun m call hm => hm.step call) hnew calls).2
    (length_lt_of_fits hsize)
  refine ⟨hok.orderly, fun p active q hrun id => ?_⟩
  rw [pagerWriter.analysisPass_ok hrun]
  exact hok.active id

/-- A pool over a new file, with its log attached. -/
def newPool : BufferPool := (BufferPool.new (Session.newPager 4 Disk.four_le) 2).setWAL ⟨0⟩

/-- Two transactions, the second still open, and a second commit of the
first. -/
def repeatedCalls : List TxnCall :=
  [.begin, .begin, .data .allocatePage, .data (.fetchPage 1), .data (.unpinPage 1 true), .commit 0,
    .flushAll, .commit 0]

theorem log_agrees_at_repeatedCalls :
    let m := repeatedCalls.foldl step (new newPool)
    Orderly m.log ∧
      ∀ p active q, (pagerWriter.analysisPass m.log ∅).run p = (.ok active, q) →
        ∀ id, id ∈ active ↔ id ∈ m.active :=
  log_agrees_with_active (fun _ => 0) newPool rfl rfl repeatedCalls (by decide +kernel)

/-! ### The locks -/

/-- The locks and the transactions are as before. -/
structure SameLocks (m m' : TxnManager) : Prop where
  lockMgr : m'.lockMgr = m.lockMgr
  txns : m'.txns = m.txns

instance : Std.Refl SameLocks := ⟨fun _ => ⟨rfl, rfl⟩⟩

instance : IsTrans TxnManager SameLocks :=
  ⟨fun _ _ _ h h' => ⟨h'.lockMgr.trans h.lockMgr, h'.txns.trans h.txns⟩⟩

theorem keeps_onPool {α : Type} (x : Fallible BufferPool Err α) :
    Keeps SameLocks (onPool x) := by
  intro m
  simp only [Fallible.run, onPool]
  split
  · exact ⟨rfl, rfl⟩
  · exact ⟨rfl, rfl⟩

/-- `Begin` fails, or there is one transaction more. -/
theorem begin_locks (m : TxnManager) :
    (∃ e m', begin.run m = (.error e, m') ∧ SameLocks m m') ∨
      ∃ m', begin.run m = (.ok m.txns.length, m') ∧ m'.lockMgr = m.lockMgr ∧
        m'.txns = m.txns ++ [⟨m.nextID, .txnActive⟩] := by
  have hsame : SameLocks m ((writeRecord .recordBegin m.nextID).run m).2 := keeps_onPool _ m
  rcases hrun : (writeRecord .recordBegin m.nextID).run m with ⟨e | u, m₁⟩
  · rw [hrun] at hsame
    exact .inl ⟨e, m₁, by simp [begin, run_bind, hrun], hsame⟩
  · rw [hrun] at hsame
    have hbegin : begin.run m = (.ok m₁.txns.length,
        { m₁ with
          txns := m₁.txns ++ [⟨m.nextID, .txnActive⟩]
          active := m₁.active.insert m.nextID m₁.txns.length
          nextID := (m₁.nextID + 1) % 2 ^ 64 }) := by
      simp [begin, run_bind, hrun]
    rw [hsame.txns] at hbegin
    exact .inr ⟨_, hbegin, hsame.lockMgr, rfl⟩

/-- The call fails, or it releases the locks of the transaction. -/
def Ends (m : TxnManager) (txnObj : TxnObj) (x : Fallible TxnManager TxnErr Unit) : Prop :=
  (∃ e m', x.run m = (.error e, m') ∧ SameLocks m m') ∨
    ∃ m' order, x.run m = (.ok (), m') ∧ m'.lockMgr = m.lockMgr.releaseAll txnObj.id order

theorem ends_finish (m : TxnManager) (handle : Nat) (txnObj : TxnObj) (state : TxnState) :
    Ends m txnObj (finish handle txnObj state) :=
  .inr ⟨_, _, rfl, rfl⟩

theorem ends_bind {x y : Fallible TxnManager TxnErr Unit} (hx : Keeps SameLocks x)
    (hy : ∀ m, Ends m txnObj y) : Ends m txnObj (x >>= fun _ => y) := by
  have hsame := hx m
  rcases hrun : x.run m with ⟨e | u, m₁⟩
  · rw [hrun] at hsame
    exact .inl ⟨e, m₁, run_bind_of_error hrun _, hsame⟩
  · rw [hrun] at hsame
    have hbind := run_bind_of_ok hrun fun _ => y
    rcases hy m₁ with ⟨e, m', hrun', hsame'⟩ | ⟨m', order, hrun', hrelease⟩
    · exact .inl ⟨e, m', hbind.trans hrun', trans_of SameLocks hsame hsame'⟩
    · exact .inr ⟨m', order, hbind.trans hrun', hsame.lockMgr ▸ hrelease⟩

/-- `Commit` and `Rollback` fail, or the locks of the transaction are
released. -/
def EndsTxn (call : Nat → Fallible TxnManager TxnErr Unit) : Prop :=
  ∀ m handle, (∃ e m', (call handle).run m = (.error e, m') ∧ SameLocks m m') ∨
    ∃ m' txnObj order, (call handle).run m = (.ok (), m') ∧ m.txns[handle]? = some txnObj ∧
      m'.lockMgr = m.lockMgr.releaseAll txnObj.id order

theorem endsTxn_of_ends {x : Nat → TxnObj → Fallible TxnManager TxnErr Unit}
    (hx : ∀ m handle txnObj, Ends m txnObj (x handle txnObj)) :
    EndsTxn fun handle => activeTxn handle >>= x handle := by
  intro m handle
  obtain ⟨e, hrun⟩ | ⟨txnObj, hobj, -, hrun⟩ := activeTxn_cases m handle
  · exact .inl ⟨e, m, run_bind_of_error hrun _, ⟨rfl, rfl⟩⟩
  · have hbind := run_bind_of_ok hrun (x handle)
    rcases hx m handle txnObj with ⟨e, m', hrun', hsame⟩ | ⟨m', order, hrun', hrelease⟩
    · exact .inl ⟨e, m', hbind.trans hrun', hsame⟩
    · exact .inr ⟨m', txnObj, order, hbind.trans hrun', hobj, hrelease⟩

theorem endsTxn_commit : EndsTxn commit :=
  endsTxn_of_ends fun _ _ _ => ends_bind (keeps_onPool _) fun _ => ends_finish _ _ _ _

theorem endsTxn_rollback : EndsTxn rollback :=
  endsTxn_of_ends fun _ _ _ => ends_bind (keeps_onPool _) fun _ =>
    ends_bind (keeps_onPool _) fun _ => ends_finish _ _ _ _

end TxnManager

end MySQLight.Txn
