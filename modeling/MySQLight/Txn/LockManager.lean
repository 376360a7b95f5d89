import Mathlib.Data.List.AList
import MySQLight.Data.Permute
import MySQLight.Effect.Runs

/-!
The lock manager (`txn/lock_manager.go`).

A table has holders, each with a mode, and a queue of waiters. A request
that cannot be granted is put at the end of the queue with a channel of its
own, and its goroutine blocks until the channel is closed; `Release` takes
a holder away and grants from the front of the queue.

Every call is one critical section except `ReleaseAll`, which looks up the
tables in one and then releases them one at a time. The system at the end of
the first part therefore keeps the goroutines that are inside a
`ReleaseAll`, and its steps are the critical sections: a list of steps is
an interleaving.
-/

namespace MySQLight.Txn

open MySQLight.Data MySQLight.Effect

inductive LockMode
  | lockShared
  | lockExclusive
deriving DecidableEq, Repr

/-- A blocked request; `grant` is the channel it blocks on. -/
structure Waiter where
  txnID : Nat
  mode : LockMode
  grant : Nat
deriving DecidableEq, Repr

structure LockEntry where
  holders : AList fun _ : Nat => LockMode := ∅
  waiters : List Waiter := []

/-- The locks, the channel the next `make` gives, and the channels that
have been closed, in this order. -/
structure LockManager where
  locks : AList fun _ : String => LockEntry
  nextChan : Nat
  closed : List Nat

def canGrant (entry : LockEntry) (mode : LockMode) : Bool :=
  if entry.holders.entries.isEmpty then true
  else if mode = .lockShared then entry.holders.entries.all fun e => e.2 ≠ .lockExclusive
  else false

namespace LockEntry

/-- `entry.holders[txnID] = mode`. -/
def hold (entry : LockEntry) (txnID : Nat) (mode : LockMode) : LockEntry :=
  { entry with holders := entry.holders.insert txnID mode }

/-- The loop of `Release` over the queue: the entry, the waiters that
remain and the channels closed. -/
def grantWaiters (stopGranting : Bool) (entry : LockEntry) (remaining : List Waiter)
    (closed : List Nat) : List Waiter → LockEntry × List Waiter × List Nat
  | [] => (entry, remaining, closed)
  | w :: ws =>
    if !stopGranting && canGrant entry w.mode then
      grantWaiters (stopGranting || w.mode = .lockExclusive) (entry.hold w.txnID w.mode)
        remaining (closed ++ [w.grant]) ws
    else grantWaiters true entry (remaining ++ [w]) closed ws

end LockEntry

namespace LockManager

/-- `NewLockManager`. -/
def new : LockManager := ⟨∅, 0, []⟩

/-- The critical section of `Acquire`. The call returns at once, or it
blocks on the channel. -/
def acquire (lm : LockManager) (txnID : Nat) (table : String) (mode : LockMode) :
    Option Nat × LockManager :=
  let entry := (lm.locks.lookup table).getD {}
  if canGrant entry mode then
    (none, { lm with locks := lm.locks.insert table (entry.hold txnID mode) })
  else
    let waiters := entry.waiters ++ [⟨txnID, mode, lm.nextChan⟩]
    (some lm.nextChan,
      { lm with
        locks := lm.locks.insert table { entry with waiters := waiters }
        nextChan := lm.nextChan + 1 })

def release (lm : LockManager) (txnID : Nat) (table : String) : LockManager :=
  match lm.locks.lookup table with
  | none => lm
  | some entry =>
    let entry := { entry with holders := entry.holders.erase txnID }
    let (entry, remaining, closed) := entry.grantWaiters false [] lm.closed entry.waiters
    { lm with
      locks := lm.locks.insert table { entry with waiters := remaining }
      closed := closed }

/-- The first critical section of `ReleaseAll`: the tables on which the
transaction holds a lock, in the order of a map. -/
def heldTables (lm : LockManager) (txnID : Nat) (order : Nat) : List String :=
  permute order ((lm.locks.entries.filter fun e => (e.2.holders.lookup txnID).isSome).map (·.1))

/-- `ReleaseAll` when nobody interferes. -/
def releaseAll (lm : LockManager) (txnID : Nat) (order : Nat) : LockManager :=
  (lm.heldTables txnID order).foldl (release · txnID) lm

end LockManager

/-- The lock manager and the goroutines that are inside `ReleaseAll`, each
with its transaction and the tables still to be released. -/
structure LockSystem where
  lm : LockManager
  releasing : List (Nat × List String)

/-- The critical sections. `releaseNext i` is the next `Release` of the
`i`-th goroutine that is inside `ReleaseAll`. -/
inductive LockStep
  | acquire (txnID : Nat) (table : String) (mode : LockMode)
  | release (txnID : Nat) (table : String)
  | releaseAll (txnID : Nat) (order : Nat)
  | releaseNext (i : Nat)
deriving DecidableEq, Repr

namespace LockSystem

def new : LockSystem := ⟨.new, []⟩

def step (s : LockSystem) : LockStep → LockSystem
  | .acquire txnID table mode => { s with lm := (s.lm.acquire txnID table mode).2 }
  | .release txnID table => { s with lm := s.lm.release txnID table }
  | .releaseAll txnID order =>
    { s with releasing := s.releasing ++ [(txnID, s.lm.heldTables txnID order)] }
  | .releaseNext i =>
    match s.releasing[i]? with
    | some (txnID, table :: tables) =>
      ⟨s.lm.release txnID table, s.releasing.set i (txnID, tables)⟩
    | _ => s

end LockSystem

/-! ### Granting -/

section Granting

variable {entry : LockEntry} {mode : LockMode} {txnID : Nat}

theorem mem_entries_iff {holders : AList fun _ : Nat => LockMode} {t : Nat} {m : LockMode} :
    ⟨t, m⟩ ∈ holders.entries ↔ holders.lookup t = some m :=
  AList.mem_lookup_iff.symm

/-- A lock is granted if nobody holds the table, or if it is shared and so
are all locks on the table. -/
theorem canGrant_iff : canGrant entry mode = true ↔
    (∀ t, entry.holders.lookup t = none) ∨
      mode = .lockShared ∧ ∀ t, entry.holders.lookup t ≠ some .lockExclusive := by
  have hempty : entry.holders.entries.isEmpty = true ↔ ∀ t, entry.holders.lookup t = none := by
    simp only [List.isEmpty_iff, List.eq_nil_iff_forall_not_mem, Sigma.forall, mem_entries_iff,
      Option.eq_none_iff_forall_ne_some]
  have hall : (entry.holders.entries.all fun e => e.2 ≠ .lockExclusive) = true ↔
      ∀ t, entry.holders.lookup t ≠ some .lockExclusive := by
    simp only [List.all_eq_true, Sigma.forall, mem_entries_iff, decide_eq_true_eq]
    exact ⟨fun h t ht => h t _ ht rfl, fun h t m hm hex => h t (hex ▸ hm)⟩
  rw [canGrant]
  split
  · rename_i h
    exact iff_of_true rfl (.inl (hempty.mp h))
  · rename_i h
    rw [hempty] at h
    split
    · rename_i hshared
      rw [hall]
      exact ⟨fun h => .inr ⟨hshared, h⟩, fun h' => (h'.resolve_left h).2⟩
    · rename_i hshared
      exact iff_of_false Bool.false_ne_true fun h' => hshared (h'.resolve_left h).1

@[simp] theorem lookup_hold (entry : LockEntry) (txnID : Nat) (mode : LockMode) (t : Nat) :
    (entry.hold txnID mode).holders.lookup t =
      if t = txnID then some mode else entry.holders.lookup t := by
  split
  · rename_i h
    rw [h, LockEntry.hold, AList.lookup_insert]
  · rename_i h
    rw [LockEntry.hold, AList.lookup_insert_ne h]

/-- A grant changes no lock that is held. -/
theorem lookup_hold_of_canGrant (h : canGrant entry mode = true) {t : Nat} {m : LockMode}
    (ht : entry.holders.lookup t = some m) : (entry.hold txnID mode).holders.lookup t = some m := by
  obtain hnone | ⟨hshared, hex⟩ := canGrant_iff.mp h
  · rw [hnone] at ht
    cases ht
  · rw [lookup_hold]
    split
    · rename_i heq
      cases m with
      | lockShared => rw [hshared]
      | lockExclusive => exact absurd ht (hex t)
    · exact ht

/-- An exclusive lock has no other beside it. -/
def LockEntry.Alone (entry : LockEntry) : Prop :=
  ∀ t t' m, entry.holders.lookup t = some .lockExclusive → entry.holders.lookup t' = some m →
    t' = t

theorem LockEntry.alone_hold (hgrant : canGrant entry mode = true) :
    (entry.hold txnID mode).Alone := by
  intro t t' m ht ht'
  rw [lookup_hold] at ht ht'
  obtain hnone | ⟨hshared, hex⟩ := canGrant_iff.mp hgrant
  · simp only [hnone] at ht ht'
    split at ht
    · split at ht'
      · omega
      · cases ht'
    · cases ht
  · split at ht
    · rw [hshared] at ht
      cases ht
    · exact absurd ht (hex t)

theorem LockEntry.Alone.erase (h : entry.Alone) (txnID : Nat) :
    LockEntry.Alone { entry with holders := entry.holders.erase txnID } := by
  have hsub {t : Nat} {m : LockMode} (ht : (entry.holders.erase txnID).lookup t = some m) :
      entry.holders.lookup t = some m := by
    by_cases heq : t = txnID
    · rw [heq, AList.lookup_erase] at ht
      cases ht
    · rwa [AList.lookup_erase_ne heq] at ht
  exact fun t t' m ht ht' => h t t' m (hsub ht) (hsub ht')

/-- With an exclusive holder nothing is granted. -/
theorem canGrant_of_exclusive {t : Nat} (ht : entry.holders.lookup t = some .lockExclusive) :
    canGrant entry mode = false := by
  rw [Bool.eq_false_iff, ne_eq, canGrant_iff, not_or]
  refine ⟨fun h => ?_, fun h => h.2 t ht⟩
  rw [h] at ht
  cases ht

/-! ### The loop of `Release` -/

/-- The entry after grants to all of `ws`. -/
def LockEntry.holdAll (entry : LockEntry) (ws : List Waiter) : LockEntry :=
  ws.foldl (fun entry w => entry.hold w.txnID w.mode) entry

theorem grantWaiters_stop (entry : LockEntry) (remaining : List Waiter) (closed : List Nat)
    (ws : List Waiter) :
    entry.grantWaiters true remaining closed ws = (entry, remaining ++ ws, closed) := by
  induction ws generalizing remaining with
  | nil => simp [LockEntry.grantWaiters]
  | cons w ws ih => simp [LockEntry.grantWaiters, ih]

/-- What the loop does to the queue `ws`: it grants the requests of a part
at the front and stops before one that cannot be granted. -/
structure Grants (entry : LockEntry) (ws granted rest : List Waiter) : Prop where
  split : ws = granted ++ rest
  holds : ∀ w ∈ granted, (entry.holdAll granted).holders.lookup w.txnID = some w.mode
  keeps : ∀ t m, entry.holders.lookup t = some m →
    (entry.holdAll granted).holders.lookup t = some m
  alone : entry.Alone → (entry.holdAll granted).Alone
  refused : ∀ w ws', rest = w :: ws' → canGrant (entry.holdAll granted) w.mode = false

theorem grantWaiters_spec (entry : LockEntry) (remaining : List Waiter) (closed : List Nat)
    (ws : List Waiter) :
    ∃ granted rest, Grants entry ws granted rest ∧
      entry.grantWaiters false remaining closed ws =
        (entry.holdAll granted, remaining ++ rest, closed ++ granted.map (·.grant)) := by
  induction ws generalizing entry closed with
  | nil =>
    exact ⟨[], [], ⟨rfl, by simp, fun _ _ h => h, id, by simp⟩,
      by simp [LockEntry.grantWaiters, LockEntry.holdAll]⟩
  | cons w ws ih =>
    by_cases hgrant : canGrant entry w.mode = true
    · cases hmode : w.mode with
      | lockExclusive =>
        refine ⟨[w], ws, ⟨rfl, ?_, ?_, ?_, ?_⟩, ?_⟩
        · simp [LockEntry.holdAll]
        · exact fun t m ht => lookup_hold_of_canGrant hgrant ht
        · exact fun _ => LockEntry.alone_hold hgrant
        · refine fun w' ws' _ => canGrant_of_exclusive (t := w.txnID) ?_
          simp [LockEntry.holdAll, hmode]
        · rw [hmode] at hgrant
          simp [LockEntry.grantWaiters, hgrant, hmode, grantWaiters_stop, LockEntry.holdAll]
      | lockShared =>
        obtain ⟨granted, rest, h, hrun⟩ := ih (entry.hold w.txnID w.mode) (closed ++ [w.grant])
        refine ⟨w :: granted, rest, ⟨by rw [h.split]; rfl, ?_, ?_, ?_, h.refused⟩, ?_⟩
        · refine List.forall_mem_cons.mpr ⟨h.keeps _ _ ?_, h.holds⟩
          rw [lookup_hold, if_pos rfl]
        · exact fun t m ht => h.keeps t m (lookup_hold_of_canGrant hgrant ht)
        · exact fun _ => h.alone (LockEntry.alone_hold hgrant)
        · rw [hmode] at hgrant hrun
          simp [LockEntry.grantWaiters, hgrant, hmode, hrun, LockEntry.holdAll]
    · refine ⟨[], w :: ws, ⟨rfl, by simp, fun _ _ h => h, id, ?_⟩, ?_⟩
      · rintro w' ws' ⟨⟩
        simpa [LockEntry.holdAll] using hgrant
      · simp [LockEntry.grantWaiters, hgrant, grantWaiters_stop, LockEntry.holdAll]

end Granting

end MySQLight.Txn
