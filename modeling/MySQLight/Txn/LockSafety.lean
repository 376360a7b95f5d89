import MySQLight.Data.Tickets
import MySQLight.Txn.LockManager

/-!
What the lock manager keeps over every interleaving.

Two things are kept apart. Who holds what is a matter of the entries: an
exclusive lock is alone, and the first waiter of a queue cannot be granted.
Who is woken is a matter of the channels: each is a ticket that is handed
out once, waits in one queue and is called once (`Tickets`). What a step of
the system does is said once (`Move`), and both are read off it.

A transaction that is over has to be out of the queues as well as out of
the holders. `ReleaseAll` only sees to the second, so the first is an
assumption of what is said about it.
-/

namespace MySQLight.Txn

open MySQLight.Data MySQLight.Effect

/-! ### What a step does -/

namespace LockManager

/-- The entry of a table; a table nobody asked for has none. -/
def entry (lm : LockManager) (table : String) : LockEntry := (lm.locks.lookup table).getD {}

/-- Only the entry of one table changes. -/
structure Put (lm lm' : LockManager) (table : String) (entry : LockEntry) : Prop where
  here : lm'.entry table = entry
  elsewhere : ∀ t, t ≠ table → lm'.entry t = lm.entry t

theorem put_insert (lm lm' : LockManager) (table : String) (entry : LockEntry)
    (h : lm'.locks = lm.locks.insert table entry) : Put lm lm' table entry where
  here := by rw [LockManager.entry, h, AList.lookup_insert, Option.getD_some]
  elsewhere := by
    intro t ht
    rw [LockManager.entry, h, AList.lookup_insert_ne ht, LockManager.entry]

/-- All a critical section can do to the locks. -/
inductive Move (lm lm' : LockManager) : Prop
  | stay (h : lm' = lm)
  | grant (table : String) (txnID : Nat) (mode : LockMode)
      (hgrant : canGrant (lm.entry table) mode = true)
      (hput : Put lm lm' table ((lm.entry table).hold txnID mode))
      (hclosed : lm'.closed = lm.closed) (hnext : lm'.nextChan = lm.nextChan)
  | wait (table : String) (txnID : Nat) (mode : LockMode)
      (hrefuse : canGrant (lm.entry table) mode = false)
      (hput : Put lm lm' table { lm.entry table with
        waiters := (lm.entry table).waiters ++ [⟨txnID, mode, lm.nextChan⟩] })
      (hclosed : lm'.closed = lm.closed) (hnext : lm'.nextChan = lm.nextChan + 1)
  | release (table : String) (txnID : Nat) (granted rest : List Waiter)
      (hgrants : Grants { lm.entry table with holders := (lm.entry table).holders.erase txnID }
        (lm.entry table).waiters granted rest)
      (hput : Put lm lm' table
        { LockEntry.holdAll
            { lm.entry table with holders := (lm.entry table).holders.erase txnID } granted with
          waiters := rest })
      (hclosed : lm'.closed = lm.closed ++ granted.map (·.grant))
      (hnext : lm'.nextChan = lm.nextChan)

/-- `Acquire` makes the caller a holder and returns, or it puts the request
at the end of the queue. -/
theorem acquire_cases (lm : LockManager) (txnID : Nat) (table : String) (mode : LockMode) :
    (canGrant (lm.entry table) mode = true ∧
      lm.acquire txnID table mode = (none,
        { lm with locks := lm.locks.insert table ((lm.entry table).hold txnID mode) })) ∨
      (canGrant (lm.entry table) mode = false ∧
        lm.acquire txnID table mode = (some lm.nextChan,
          { lm with
            locks := lm.locks.insert table { lm.entry table with
              waiters := (lm.entry table).waiters ++ [⟨txnID, mode, lm.nextChan⟩] }
            nextChan := lm.nextChan + 1 })) := by
  rw [acquire, ← entry]
  cases hgrant : canGrant (lm.entry table) mode with
  | true => exact .inl ⟨rfl, rfl⟩
  | false => exact .inr ⟨rfl, rfl⟩

theorem acquire_move (lm : LockManager) (txnID : Nat) (table : String) (mode : LockMode) :
    Move lm (lm.acquire txnID table mode).2 := by
  obtain ⟨hgrant, hrun⟩ | ⟨hgrant, hrun⟩ := lm.acquire_cases txnID table mode
  · rw [hrun]
    exact .grant table txnID mode hgrant (put_insert _ _ _ _ rfl) rfl rfl
  · rw [hrun]
    exact .wait table txnID mode hgrant (put_insert _ _ _ _ rfl) rfl rfl

/-- `Acquire` takes nobody's lock away. -/
theorem holds_of_acquire {lm : LockManager} {t : Nat} {table : String} {m : LockMode}
    (h : (lm.entry table).holders.lookup t = some m) (txnID : Nat) (table' : String)
    (mode : LockMode) :
    ((lm.acquire txnID table' mode).2.entry table).holders.lookup t = some m := by
  obtain ⟨hgrant, hrun⟩ | ⟨-, hrun⟩ := lm.acquire_cases txnID table' mode
  · have hput := put_insert lm (lm.acquire txnID table' mode).2 table' _ (by rw [hrun])
    by_cases htable : table = table'
    · subst htable
      rw [hput.here]
      exact lookup_hold_of_canGrant hgrant h
    · rwa [hput.elsewhere table htable]
  · have hput := put_insert lm (lm.acquire txnID table' mode).2 table' _ (by rw [hrun])
    by_cases htable : table = table'
    · subst htable
      rwa [hput.here]
    · rwa [hput.elsewhere table htable]

/-- An `Acquire` that returns has given the lock. -/
theorem holds_of_granted {lm : LockManager} {txnID : Nat} {table : String} {mode : LockMode}
    (h : (lm.acquire txnID table mode).1 = none) :
    ((lm.acquire txnID table mode).2.entry table).holders.lookup txnID = some mode := by
  obtain ⟨-, hrun⟩ | ⟨-, hrun⟩ := lm.acquire_cases txnID table mode
  · rw [(put_insert lm (lm.acquire txnID table mode).2 table _ (by rw [hrun])).here, lookup_hold,
      if_pos rfl]
  · rw [hrun] at h
    cases h

/-- `Release` of a table nobody ever asked for does nothing; otherwise it
takes the caller away and grants from the front of the queue. -/
theorem release_cases (lm : LockManager) (txnID : Nat) (table : String) :
    (lm.locks.lookup table = none ∧ lm.release txnID table = lm) ∨
      ∃ granted rest,
        Grants { lm.entry table with holders := (lm.entry table).holders.erase txnID }
          (lm.entry table).waiters granted rest ∧
        Put lm (lm.release txnID table) table
          { LockEntry.holdAll
              { lm.entry table with holders := (lm.entry table).holders.erase txnID } granted with
            waiters := rest } ∧
        (lm.release txnID table).closed = lm.closed ++ granted.map (·.grant) ∧
        (lm.release txnID table).nextChan = lm.nextChan := by
  cases hlookup : lm.locks.lookup table with
  | none => exact .inl ⟨rfl, by simp [release, hlookup]⟩
  | some e =>
    have hentry : lm.entry table = e := by rw [entry, hlookup, Option.getD_some]
    obtain ⟨granted, rest, hgrants, hrun⟩ := grantWaiters_spec
      { e with holders := e.holders.erase txnID } [] lm.closed e.waiters
    subst hentry
    refine .inr ⟨granted, rest, hgrants, put_insert _ _ _ _ ?_, ?_, ?_⟩
    · simp [release, hlookup, hrun]
    · simp [release, hlookup, hrun]
    · simp [release, hlookup]

theorem release_move (lm : LockManager) (txnID : Nat) (table : String) :
    Move lm (lm.release txnID table) := by
  rcases lm.release_cases txnID table with
    ⟨-, heq⟩ | ⟨granted, rest, hgrants, hput, hclosed, hnext⟩
  · exact .stay heq
  · exact .release table txnID granted rest hgrants hput hclosed hnext

end LockManager

theorem LockSystem.step_move (s : LockSystem) (m : LockStep) : s.lm.Move (s.step m).lm := by
  cases m with
  | acquire txnID table mode => exact s.lm.acquire_move txnID table mode
  | release txnID table => exact s.lm.release_move txnID table
  | releaseAll txnID order => exact .stay rfl
  | releaseNext i =>
    rw [step]
    split
    · exact s.lm.release_move _ _
    · exact .stay rfl

/-! ### The invariant -/

namespace LockManager

/-- The channels of the queue of a table. -/
def channels (lm : LockManager) (table : String) : List Nat :=
  (lm.entry table).waiters.map (·.grant)

structure Ok (lm : LockManager) : Prop where
  alone : ∀ table, (lm.entry table).Alone
  refused : ∀ table w ws, (lm.entry table).waiters = w :: ws →
    canGrant (lm.entry table) w.mode = false
  tickets : Tickets lm.channels lm.closed lm.nextChan

theorem ok_new : Ok .new where
  alone := by
    intro table t t' m ht
    cases ht
  refused := by
    intro table w ws h
    cases h
  tickets := .empty

variable {lm lm' : LockManager}

variable {table : String} {entry : LockEntry}

/-- A property of all entries holds after a step if it holds of the one
that was put. -/
theorem Put.forall_entry {P : LockEntry → Prop} (hput : Put lm lm' table entry)
    (hall : ∀ t, P (lm.entry t)) (hentry : P entry) (t : String) : P (lm'.entry t) := by
  by_cases ht : t = table
  · rw [ht, hput.here]
    exact hentry
  · rw [hput.elsewhere t ht]
    exact hall t

theorem Put.channels_of_ne (hput : Put lm lm' table entry) (t : String) (ht : t ≠ table) :
    lm'.channels t = lm.channels t := by
  rw [channels, hput.elsewhere t ht, channels]

/-- A newcomer that is granted leaves the first waiter where it is: if that
one wants the table for itself the newcomer is in its way too, and if it
wants to share the table somebody has it alone and nobody is granted. -/
theorem canGrant_hold_of_refused {txnID : Nat} {mode mode' : LockMode}
    (hgrant : canGrant entry mode = true) (hrefuse : canGrant entry mode' = false) :
    canGrant (entry.hold txnID mode) mode' = false := by
  rw [Bool.eq_false_iff, ne_eq, canGrant_iff, not_or] at hrefuse ⊢
  refine ⟨fun hnone => ?_, fun ⟨hshared, hex⟩ => ?_⟩
  · have h := hnone txnID
    simp at h
  · obtain hnone | ⟨-, hex'⟩ := canGrant_iff.mp hgrant
    · exact hrefuse.1 hnone
    · exact hrefuse.2 ⟨hshared, hex'⟩

theorem Ok.move (h : Ok lm) (hmove : Move lm lm') : Ok lm' := by
  cases hmove with
  | stay heq => rwa [heq]
  | grant table txnID mode hgrant hput hclosed hnext =>
    refine ⟨hput.forall_entry h.alone (LockEntry.alone_hold hgrant), ?_, ?_⟩
    · refine hput.forall_entry (P := fun e => ∀ w ws, e.waiters = w :: ws →
        canGrant e w.mode = false) h.refused fun w ws hws => ?_
      exact canGrant_hold_of_refused hgrant (h.refused table w ws hws)
    · have hchannels : lm'.channels = lm.channels := by
        funext t
        by_cases ht : t = table
        · rw [ht, channels, hput.here]
          rfl
        · exact hput.channels_of_ne t ht
      rw [hchannels, hclosed, hnext]
      exact h.tickets
  | wait table txnID mode hrefuse hput hclosed hnext =>
    refine ⟨hput.forall_entry h.alone (h.alone table), ?_, ?_⟩
    · refine hput.forall_entry (P := fun e => ∀ w ws, e.waiters = w :: ws →
        canGrant e w.mode = false) h.refused fun w ws hws => ?_
      -- the first waiter is the one that was first before, or the new one
      cases hqueue : (lm.entry table).waiters with
      | nil =>
        simp only [hqueue, List.nil_append, List.cons.injEq] at hws
        rw [← hws.1]
        exact hrefuse
      | cons w' ws' =>
        simp only [hqueue, List.cons_append, List.cons.injEq] at hws
        rw [← hws.1]
        exact h.refused table w' ws' hqueue
    · rw [hclosed, hnext]
      refine h.tickets.join (k := table) ?_ hput.channels_of_ne
      rw [channels, hput.here, List.map_append]
      rfl
  | release table txnID granted rest hgrants hput hclosed hnext =>
    refine ⟨hput.forall_entry h.alone ?_, ?_, ?_⟩
    · exact hgrants.alone ((h.alone table).erase txnID)
    · exact hput.forall_entry (P := fun e => ∀ w ws, e.waiters = w :: ws →
        canGrant e w.mode = false) h.refused hgrants.refused
    · rw [hclosed, hnext]
      refine h.tickets.call (k := table) ?_ hput.channels_of_ne
      rw [channels, channels, hput.here, hgrants.split, List.map_append]

/-! ### Waiters -/

/-- How the waiters fare in a state and in the step after it. -/
structure Woken (lm lm' : LockManager) : Prop where
  first_refused : ∀ table w ws, (lm.entry table).waiters = w :: ws →
    canGrant (lm.entry table) w.mode = false
  held : ∀ table, (lm.entry table).waiters ≠ [] → (lm.entry table).holders.keys ≠ []
  own_channel : ∀ table table' w w', w ∈ (lm.entry table).waiters →
    w' ∈ (lm.entry table').waiters → w.grant = w'.grant → table = table' ∧ w = w'
  closed_once : lm.closed.Nodup
  closed_or_waiting : ∀ c < lm.nextChan,
    (c ∈ lm.closed ↔ ¬ ∃ table, ∃ w ∈ (lm.entry table).waiters, w.grant = c)
  grants_front : ∀ table, ∃ granted rest arrived,
    (lm.entry table).waiters = granted ++ rest ∧ (lm'.entry table).waiters = rest ++ arrived ∧
      (∀ w ∈ granted, w.grant ∈ lm'.closed ∧
        (lm'.entry table).holders.lookup w.txnID = some w.mode) ∧
      ∀ w ∈ rest, w.grant ∉ lm'.closed
  closed_waited : ∀ c ∈ lm'.closed, c ∉ lm.closed →
    ∃ table, ∃ w ∈ (lm.entry table).waiters, w.grant = c

/-- What a step does to the queue of a table: requests at the front are
granted, and a new one may come at the end. -/
theorem Move.queue (hmove : Move lm lm') (table : String) :
    ∃ granted rest arrived,
      (lm.entry table).waiters = granted ++ rest ∧ (lm'.entry table).waiters = rest ++ arrived ∧
        ∀ w ∈ granted, w.grant ∈ lm'.closed ∧
          (lm'.entry table).holders.lookup w.txnID = some w.mode := by
  have hsame (h : (lm'.entry table).waiters = (lm.entry table).waiters) :
      ∃ granted rest arrived,
        (lm.entry table).waiters = granted ++ rest ∧ (lm'.entry table).waiters = rest ++ arrived ∧
          ∀ w ∈ granted, w.grant ∈ lm'.closed ∧
            (lm'.entry table).holders.lookup w.txnID = some w.mode :=
    ⟨[], (lm.entry table).waiters, [], by simp, by simp [h], by simp⟩
  cases hmove with
  | stay heq => exact hsame (by rw [heq])
  | grant t txnID mode hgrant hput hclosed hnext =>
    by_cases ht : table = t
    · subst ht
      exact hsame (by rw [hput.here]; rfl)
    · exact hsame (by rw [hput.elsewhere table ht])
  | wait t txnID mode hrefuse hput hclosed hnext =>
    by_cases ht : table = t
    · subst ht
      exact ⟨[], _, _, rfl, by rw [hput.here], by simp⟩
    · exact hsame (by rw [hput.elsewhere table ht])
  | release t txnID granted rest hgrants hput hclosed hnext =>
    by_cases ht : table = t
    · subst ht
      refine ⟨granted, rest, [], hgrants.split, by rw [hput.here, List.append_nil], ?_⟩
      intro w hw
      refine ⟨?_, by rw [hput.here]; exact hgrants.holds w hw⟩
      rw [hclosed]
      exact List.mem_append_right _ (List.mem_map_of_mem hw)
    · exact hsame (by rw [hput.elsewhere table ht])

theorem Move.closed_waited (hmove : Move lm lm') {c : Nat} (hc : c ∈ lm'.closed)
    (hopen : c ∉ lm.closed) : ∃ table, ∃ w ∈ (lm.entry table).waiters, w.grant = c := by
  cases hmove with
  | stay heq => exact absurd (heq ▸ hc) hopen
  | grant t txnID mode hgrant hput hclosed hnext => exact absurd (hclosed ▸ hc) hopen
  | wait t txnID mode hrefuse hput hclosed hnext => exact absurd (hclosed ▸ hc) hopen
  | release t txnID granted rest hgrants hput hclosed hnext =>
    rw [hclosed, List.mem_append] at hc
    obtain ⟨w, hw, hgrant⟩ := List.mem_map.mp (hc.resolve_left hopen)
    exact ⟨t, w, hgrants.split ▸ List.mem_append_left _ hw, hgrant⟩

theorem mem_channels {c : Nat} :
    c ∈ lm.channels table ↔ ∃ w ∈ (lm.entry table).waiters, w.grant = c := by
  rw [channels, List.mem_map]

theorem Ok.woken (h : Ok lm) (hmove : Move lm lm') : Woken lm lm' where
  first_refused := h.refused
  held := by
    intro table hne hkeys
    obtain ⟨w, ws, hws⟩ := List.exists_cons_of_ne_nil hne
    have hrefuse := h.refused table w ws hws
    rw [Bool.eq_false_iff, ne_eq, canGrant_iff, not_or] at hrefuse
    refine hrefuse.1 fun t => AList.lookup_eq_none.mpr ?_
    rw [AList.mem_keys, hkeys]
    exact List.not_mem_nil
  own_channel := by
    intro table table' w w' hw hw' heq
    obtain rfl := h.tickets.waiting_disjoint table table' w.grant (mem_channels.mpr ⟨w, hw, rfl⟩)
      (mem_channels.mpr ⟨w', hw', heq.symm⟩)
    exact ⟨rfl, List.inj_on_of_nodup_map (h.tickets.waiting_nodup table) hw hw' heq⟩
  closed_once := h.tickets.called_nodup
  closed_or_waiting := by
    intro c hc
    constructor
    · rintro hclosed ⟨table, w, hw, hgrant⟩
      exact h.tickets.waiting_not_called table c (mem_channels.mpr ⟨w, hw, hgrant⟩) hclosed
    · intro hnone
      rcases h.tickets.waits_or_called c hc with hclosed | ⟨table, hwait⟩
      · exact hclosed
      · exact absurd ⟨table, mem_channels.mp hwait⟩ hnone
  grants_front := by
    intro table
    obtain ⟨granted, rest, arrived, hbefore, hafter, hgranted⟩ := hmove.queue table
    refine ⟨granted, rest, arrived, hbefore, hafter, hgranted, fun w hw => ?_⟩
    refine (h.move hmove).tickets.waiting_not_called table w.grant (mem_channels.mpr ⟨w, ?_, rfl⟩)
    rw [hafter]
    exact List.mem_append_left _ hw
  closed_waited := fun c => hmove.closed_waited

end LockManager

namespace LockSystem

open LockManager

theorem ok_run (steps : List LockStep) : (steps.foldl step new).lm.Ok :=
  foldl_invariant (fun s : LockSystem => s.lm.Ok)
    (fun s m hs => hs.move (s.step_move m)) ok_new steps

/-- In every interleaving a table has no exclusive holder, or exactly one
holder. -/
theorem exclusive_holder_is_alone (steps : List LockStep) (table : String) :
    let entry := (steps.foldl step new).lm.entry table
    (∀ t, entry.holders.lookup t ≠ some .lockExclusive) ∨ entry.holders.keys.length = 1 := by
  intro entry
  by_cases hex : ∃ t, entry.holders.lookup t = some .lockExclusive
  · obtain ⟨t, ht⟩ := hex
    right
    have halone := (ok_run steps).alone table
    have hmem : t ∈ entry.holders.keys :=
      AList.mem_keys.mp (AList.lookup_isSome.mp (by rw [ht]; rfl))
    have hkeys : ∀ t' ∈ entry.holders.keys, t' = t := by
      intro t' ht'
      obtain ⟨m, hm⟩ := Option.isSome_iff_exists.mp
        (AList.lookup_isSome.mpr (AList.mem_keys.mpr ht'))
      exact halone t t' m ht hm
    have hnodup : (List.replicate entry.holders.keys.length t).Nodup :=
      List.eq_replicate_of_mem hkeys ▸ entry.holders.keys_nodup
    exact le_antisymm (List.nodup_replicate.mp hnodup) (List.length_pos_of_mem hmem)
  · exact .inl fun t ht => hex ⟨t, ht⟩

/-- In every interleaving and in every step of it, no wake-up is lost or
duplicated: the first waiter of a queue cannot be granted, a channel is
closed exactly when its request becomes a lock and leaves the queue, and
the requests that become locks are the front of the queue. -/
theorem no_lost_wakeup (steps : List LockStep) (m : LockStep) :
    Woken (steps.foldl step new).lm ((steps.foldl step new).step m).lm :=
  (ok_run steps).woken (step_move _ m)

end LockSystem

/-! ### Releasing when nobody waits -/

namespace LockManager

variable {lm : LockManager}

/-- Nobody waits for a lock. -/
def Quiet (lm : LockManager) : Prop := ∀ table, (lm.entry table).waiters = []

theorem release_put {table : String} (h : (lm.entry table).waiters = []) (txnID : Nat) :
    Put lm (lm.release txnID table) table
      { holders := (lm.entry table).holders.erase txnID, waiters := [] } := by
  cases hlookup : lm.locks.lookup table with
  | none =>
    have hentry : lm.entry table = {} := by rw [entry, hlookup, Option.getD_none]
    have hrelease : lm.release txnID table = lm := by simp [release, hlookup]
    rw [hrelease]
    refine ⟨?_, fun _ _ => rfl⟩
    rw [hentry]
    rfl
  | some e =>
    have hentry : lm.entry table = e := by rw [entry, hlookup, Option.getD_some]
    rw [hentry] at h ⊢
    refine put_insert _ _ _ _ ?_
    simp [release, hlookup, h, LockEntry.grantWaiters]

theorem mem_heldTables {txnID order : Nat} {table : String} :
    table ∈ lm.heldTables txnID order ↔ ((lm.entry table).holders.lookup txnID).isSome := by
  simp only [heldTables, mem_permute, List.mem_map, List.mem_filter, Sigma.exists]
  constructor
  · rintro ⟨table', e, ⟨hmem, hheld⟩, rfl⟩
    have hlookup : lm.locks.lookup table' = some e := AList.mem_lookup_iff.mpr hmem
    rw [entry, hlookup]
    exact hheld
  · intro hheld
    cases hlookup : lm.locks.lookup table with
    | none =>
      rw [entry, hlookup] at hheld
      cases hheld
    | some e =>
      rw [entry, hlookup] at hheld
      exact ⟨table, e, ⟨AList.mem_lookup_iff.mp hlookup, hheld⟩, rfl⟩

/-- Releasing some tables one after the other. -/
theorem foldl_release (hq : lm.Quiet) (txnID : Nat) (tables : List String) :
    (tables.foldl (release · txnID) lm).Quiet ∧
      ∀ table t, ((tables.foldl (release · txnID) lm).entry table).holders.lookup t =
        if t = txnID ∧ table ∈ tables then none else (lm.entry table).holders.lookup t := by
  induction tables generalizing lm with
  | nil => exact ⟨hq, fun table t => by simp⟩
  | cons table₀ tables ih =>
    have hput := release_put (hq table₀) txnID
    have hq' : (lm.release txnID table₀).Quiet :=
      hput.forall_entry (P := fun e => e.waiters = []) hq rfl
    obtain ⟨hquiet, hlookup⟩ := ih hq'
    refine ⟨hquiet, fun table t => ?_⟩
    rw [List.foldl_cons, hlookup]
    by_cases htable : table = table₀
    · subst htable
      rw [hput.here]
      by_cases ht : t = txnID
      · subst ht
        simp
      · simp [ht, AList.lookup_erase_ne ht]
    · simp [hput.elsewhere table htable, htable]

theorem releaseAll_spec (hq : lm.Quiet) (txnID order : Nat) :
    (lm.releaseAll txnID order).Quiet ∧
      ∀ table t, ((lm.releaseAll txnID order).entry table).holders.lookup t =
        if t = txnID then none else (lm.entry table).holders.lookup t := by
  obtain ⟨hquiet, hlookup⟩ := foldl_release hq txnID (lm.heldTables txnID order)
  refine ⟨hquiet, fun table t => ?_⟩
  rw [releaseAll, hlookup]
  simp only [mem_heldTables]
  by_cases ht : t = txnID
  · subst ht
    cases hheld : (lm.entry table).holders.lookup t with
    | none => simp
    | some m => simp
  · simp [ht]

end LockManager

/-! ### Transactions that are over -/

theorem lookup_holdAll_of_absent (entry : LockEntry) {t : Nat} {ws : List Waiter}
    (h : ∀ w ∈ ws, w.txnID ≠ t) :
    (entry.holdAll ws).holders.lookup t = entry.holders.lookup t := by
  induction ws generalizing entry with
  | nil => rfl
  | cons w ws ih =>
    obtain ⟨hw, hws⟩ := List.forall_mem_cons.mp h
    rw [LockEntry.holdAll, List.foldl_cons, ← LockEntry.holdAll, ih _ hws, lookup_hold,
      if_neg hw.symm]

namespace LockManager

/-- The transaction waits in no queue. -/
def Absent (lm : LockManager) (t : Nat) : Prop :=
  ∀ table, ∀ w ∈ (lm.entry table).waiters, w.txnID ≠ t

/-- The transaction has got no lock and no place in a queue that it did not
have before. -/
structure Leaves (t : Nat) (lm lm' : LockManager) : Prop where
  absent : lm'.Absent t
  gone : ∀ table, (lm.entry table).holders.lookup t = none →
    (lm'.entry table).holders.lookup t = none

variable {lm : LockManager} {t : Nat}

theorem leaves_put {lm' : LockManager} {table : String} {entry : LockEntry}
    (hput : Put lm lm' table entry) (habsent : lm.Absent t)
    (hqueue : ∀ w ∈ entry.waiters, w.txnID ≠ t)
    (hgone : (lm.entry table).holders.lookup t = none → entry.holders.lookup t = none) :
    Leaves t lm lm' where
  absent := hput.forall_entry (P := fun e => ∀ w ∈ e.waiters, w.txnID ≠ t) habsent hqueue
  gone := by
    intro table' hnone
    by_cases htable : table' = table
    · rw [htable] at hnone ⊢
      rw [hput.here]
      exact hgone hnone
    · rw [hput.elsewhere table' htable]
      exact hnone

theorem Absent.acquire (habsent : lm.Absent t) {txnID : Nat} (hne : txnID ≠ t) (table : String)
    (mode : LockMode) : Leaves t lm (lm.acquire txnID table mode).2 := by
  by_cases hgrant : canGrant (lm.entry table) mode = true
  · have hput : Put lm (lm.acquire txnID table mode).2 table
        ((lm.entry table).hold txnID mode) := by
      refine put_insert _ _ _ _ ?_
      rw [entry] at hgrant ⊢
      simp [LockManager.acquire, hgrant]
    refine leaves_put hput habsent (habsent table) fun hnone => ?_
    rw [lookup_hold, if_neg hne.symm, hnone]
  · have hput : Put lm (lm.acquire txnID table mode).2 table { lm.entry table with
        waiters := (lm.entry table).waiters ++ [⟨txnID, mode, lm.nextChan⟩] } := by
      refine put_insert _ _ _ _ ?_
      rw [entry] at hgrant ⊢
      simp [LockManager.acquire, hgrant]
    refine leaves_put hput habsent ?_ id
    simp only [List.forall_mem_append, List.forall_mem_singleton]
    exact ⟨habsent table, hne⟩

/-- A `Release` gives a transaction that waits nowhere nothing, and takes
the lock away from the one that calls it. -/
theorem Absent.release (habsent : lm.Absent t) (txnID : Nat) (table : String) :
    Leaves t lm (lm.release txnID table) ∧
      (txnID = t → ((lm.release txnID table).entry table).holders.lookup t = none) := by
  rcases lm.release_cases txnID table with ⟨hnone, heq⟩ | ⟨granted, rest, hgrants, hput, -, -⟩
  · rw [heq]
    refine ⟨⟨habsent, fun _ h => h⟩, fun _ => ?_⟩
    rw [entry, hnone]
    rfl
  · have hsplit := habsent table
    rw [hgrants.split, List.forall_mem_append] at hsplit
    have hlookup := lookup_holdAll_of_absent
      { lm.entry table with holders := (lm.entry table).holders.erase txnID } hsplit.1
    refine ⟨leaves_put hput habsent hsplit.2 fun hnone => ?_, ?_⟩
    · refine hlookup.trans ?_
      by_cases ht : t = txnID
      · rw [ht, AList.lookup_erase]
      · rw [AList.lookup_erase_ne ht, hnone]
    · rintro rfl
      rw [hput.here]
      exact hlookup.trans (AList.lookup_erase _ _)

end LockManager

/-- The step is an `Acquire` of the transaction. -/
def LockStep.RequestedBy (t : Nat) : LockStep → Prop
  | .acquire txnID _ _ => txnID = t
  | _ => False

namespace LockSystem

open LockManager

/-- The `i`-th goroutine is inside `ReleaseAll` for the transaction: it
waits nowhere, and what it still holds is on the list of the goroutine. -/
structure Leaving (t i : Nat) (s : LockSystem) : Prop where
  absent : s.lm.Absent t
  listed : ∃ tables, s.releasing[i]? = some (t, tables) ∧
    ∀ table, (s.lm.entry table).holders.lookup t ≠ none → table ∈ tables

variable {s : LockSystem} {t i : Nat}

theorem leaving_releaseAll (habsent : s.lm.Absent t) (order : Nat) :
    Leaving t s.releasing.length (s.step (.releaseAll t order)) where
  absent := habsent
  listed := by
    refine ⟨s.lm.heldTables t order, by simp [step], fun table hheld => ?_⟩
    exact mem_heldTables.mpr (Option.isSome_iff_ne_none.mpr hheld)

/-- A change of the locks that gives the transaction nothing. -/
theorem Leaving.of_leaves (h : Leaving t i s) {s' : LockSystem} (hleaves : Leaves t s.lm s'.lm)
    (hreleasing : s'.releasing[i]? = s.releasing[i]?) : Leaving t i s' where
  absent := hleaves.absent
  listed := by
    obtain ⟨tables, hi, htables⟩ := h.listed
    refine ⟨tables, hreleasing.trans hi, fun table hheld => htables table fun hnone => ?_⟩
    exact hheld (hleaves.gone table hnone)

theorem Leaving.step (h : Leaving t i s) {m : LockStep} (hm : ¬ m.RequestedBy t) :
    Leaving t i (s.step m) := by
  cases m with
  | acquire txnID table mode =>
    exact h.of_leaves (h.absent.acquire hm table mode) rfl
  | release txnID table => exact h.of_leaves (h.absent.release txnID table).1 rfl
  | releaseAll txnID order =>
    obtain ⟨tables, hi, -⟩ := h.listed
    refine h.of_leaves ⟨h.absent, fun _ h => h⟩ ?_
    exact List.getElem?_append_left (List.getElem?_eq_some_iff.mp hi).1
  | releaseNext j =>
    rw [LockSystem.step]
    split
    · rename_i txnID table tables hj
      obtain ⟨hleaves, hown⟩ := h.absent.release txnID table
      obtain ⟨tables', hi, htables⟩ := h.listed
      by_cases hij : j = i
      · -- the goroutine itself goes on: the table it releases leaves its list
        subst hij
        obtain ⟨rfl, rfl⟩ : txnID = t ∧ table :: tables = tables' := by
          simpa using hj.symm.trans hi
        refine ⟨hleaves.absent, tables, ?_, fun table' hheld => ?_⟩
        · exact List.getElem?_set_self (List.getElem?_eq_some_iff.mp hi).1
        · have hmem := htables table' fun hnone => hheld (hleaves.gone table' hnone)
          rcases List.mem_cons.mp hmem with rfl | hmem
          · exact absurd (hown rfl) hheld
          · exact hmem
      · exact h.of_leaves hleaves (List.getElem?_set_ne hij)
    · exact h

/-- A transaction that waits for no lock when it calls `ReleaseAll` and asks
for none from then on: in every interleaving, once that call has returned
the transaction holds nothing, then and ever after. -/
theorem released_for_good (before after : List LockStep) (t order : Nat)
    (habsent : (before.foldl step new).lm.Absent t)
    (hafter : ∀ m ∈ after, ¬ m.RequestedBy t) :
    let s := before.foldl step new
    let s' := after.foldl step (s.step (.releaseAll t order))
    s'.releasing[s.releasing.length]? = some (t, []) →
      ∀ table, (s'.lm.entry table).holders.lookup t = none := by
  intro s s' hdone table
  have halong : Along step (fun _ m => ¬ m.RequestedBy t) after (s.step (.releaseAll t order)) :=
    .of_forall (fun m hm _ => hafter m hm) _
  have hleaving : Leaving t s.releasing.length s' :=
    halong.invariant (fun _ _ h hm => h.step hm) (leaving_releaseAll habsent order)
  obtain ⟨tables, hi, htables⟩ := hleaving.listed
  obtain rfl : tables = [] := by simpa using hi.symm.trans hdone
  by_contra hheld
  exact absurd (htables table hheld) List.not_mem_nil

/-- A reader and a writer share the lock manager with a transaction that is
over. -/
theorem released_for_good_beside_others :
    let s := [LockStep.acquire 1 "t" .lockShared, .acquire 2 "t" .lockShared].foldl step new
    let s' := [LockStep.releaseNext 0, .acquire 3 "t" .lockExclusive, .release 2 "t"].foldl step
      (s.step (.releaseAll 1 0))
    ∀ table, (s'.lm.entry table).holders.lookup 1 = none := by
  refine released_for_good [.acquire 1 "t" .lockShared, .acquire 2 "t" .lockShared]
    [.releaseNext 0, .acquire 3 "t" .lockExclusive, .release 2 "t"] 1 0 ?_ ?_ ?_
  · intro table
    by_cases htable : table = "t"
    · subst htable
      decide +kernel
    · have hkeys : ([LockStep.acquire 1 "t" .lockShared, .acquire 2 "t" .lockShared].foldl
          step new).lm.locks.keys = ["t"] := by decide +kernel
      have hnone : table ∉ ([LockStep.acquire 1 "t" .lockShared,
          .acquire 2 "t" .lockShared].foldl step new).lm.locks := by
        rw [AList.mem_keys, hkeys]
        simpa using htable
      rw [LockManager.entry, AList.lookup_eq_none.mpr hnone]
      exact fun _ => nofun
  · simp [LockStep.RequestedBy]
  · decide +kernel

/-- The second transaction waits for the table of the first. Its
`ReleaseAll` finds nothing to release and returns; when the first one is
done, the lock goes to the transaction that is over, and the third waits
for it. -/
theorem finished_transaction_is_granted :
    let s := [LockStep.acquire 1 "t" .lockExclusive, .acquire 2 "t" .lockExclusive].foldl step new
    let s₁ := s.step (.releaseAll 2 0)
    let s₂ := [LockStep.releaseAll 1 0, .releaseNext 1, .acquire 3 "t" .lockExclusive].foldl step s₁
    s₁.releasing[0]? = some (2, []) ∧ (s₁.lm.entry "t").holders.lookup 2 = none ∧
      (s₂.lm.entry "t").holders.lookup 2 = some .lockExclusive ∧
      (s₂.lm.entry "t").waiters.map (·.txnID) = [3] := by
  decide +kernel

end LockSystem

end MySQLight.Txn
