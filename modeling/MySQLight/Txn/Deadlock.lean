import MySQLight.Data.CycleSearch
import MySQLight.Txn.LockSafety

/-!
Deadlock detection (`detectDeadlock` in `txn/lock_manager.go`).

The wait-for graph has an edge from a waiter to every holder of the table
it waits for; that a waiter also waits for those before it in the queue is
not in the graph. It does not have to be: a queue with a waiter has a
holder. So when all who hold anything wait themselves, there is a way on
from every node, and a search that can always go on ends in a cycle.

The graph is built in loops over hash maps, in any order.
-/

namespace MySQLight.Txn

open MySQLight.Data MySQLight.Effect

/-- The orders in which `detectDeadlock` goes through the maps: the tables,
the holders of a table for each waiter in its queue, and the nodes from
which searches start. -/
structure MapOrders where
  tables : Nat
  holders : String → Nat → Nat
  roots : Nat

/-- `waitFor`. -/
abbrev WaitFor : Type := AList fun _ : Nat => List Nat

/-- `waitFor[txnID]`. -/
def WaitFor.neighbors (g : WaitFor) (txnID : Nat) : List Nat := (g.lookup txnID).getD []

/-- `waitFor[txnID] = append(waitFor[txnID], holderID)`. -/
def WaitFor.add (g : WaitFor) (e : Nat × Nat) : WaitFor := g.insert e.1 (g.neighbors e.1 ++ [e.2])

/-- All transactions in the graph. -/
def WaitFor.nodes (g : WaitFor) : List Nat := g.entries.flatMap fun e => e.1 :: e.2

namespace LockManager

/-- The waiters with the holders they wait for, in the order of the loops. -/
def waits (lm : LockManager) (orders : MapOrders) : List (Nat × Nat) :=
  (permute orders.tables lm.locks.entries).flatMap fun e =>
    e.2.waiters.zipIdx.flatMap fun w =>
      (permute (orders.holders e.1 w.2) e.2.holders.keys).map fun holderID => (w.1.txnID, holderID)

def waitFor (lm : LockManager) (orders : MapOrders) : WaitFor :=
  (lm.waits orders).foldl WaitFor.add ∅

/-- `detectDeadlock`. A path has no node twice, so the fuel is enough. -/
def detectDeadlock (lm : LockManager) (orders : MapOrders) : Option (List Nat) := do
  let waitFor := lm.waitFor orders
  let s ← dfsAll waitFor.neighbors waitFor.nodes.length (permute orders.roots waitFor.keys) .start
  return s.victims

end LockManager

/-! ### The graph -/

theorem neighbors_add (g : WaitFor) (e : Nat × Nat) (t : Nat) :
    (g.add e).neighbors t = g.neighbors t ++ if t = e.1 then [e.2] else [] := by
  by_cases ht : t = e.1
  · rw [if_pos ht, ht, WaitFor.neighbors, WaitFor.add, AList.lookup_insert, Option.getD_some]
  · rw [if_neg ht, List.append_nil, WaitFor.neighbors, WaitFor.add, AList.lookup_insert_ne ht,
      WaitFor.neighbors]

theorem neighbors_foldl (g : WaitFor) (es : List (Nat × Nat)) (t : Nat) :
    (es.foldl WaitFor.add g).neighbors t =
      g.neighbors t ++ (es.filter fun e => t = e.1).map Prod.snd := by
  induction es generalizing g with
  | nil => simp
  | cons e es ih =>
    rw [List.foldl_cons, ih, neighbors_add, List.append_assoc]
    by_cases ht : t = e.1 <;> simp [ht]

theorem mem_keys_of_neighbors {g : WaitFor} {t : Nat} (h : g.neighbors t ≠ []) : t ∈ g.keys := by
  rw [← AList.mem_keys, ← AList.lookup_isSome]
  rw [WaitFor.neighbors] at h
  cases hlookup : g.lookup t with
  | none => simp [hlookup] at h
  | some ns => rfl

theorem neighbors_of_mem_keys {es : List (Nat × Nat)} {t : Nat}
    (h : t ∈ (es.foldl WaitFor.add ∅).keys) : (es.foldl WaitFor.add ∅).neighbors t ≠ [] := by
  suffices hall : ∀ g : WaitFor, (∀ t ∈ g.keys, g.neighbors t ≠ []) →
      ∀ t ∈ (es.foldl WaitFor.add g).keys, (es.foldl WaitFor.add g).neighbors t ≠ [] from
    hall ∅ (by simp) t h
  clear h
  induction es with
  | nil => exact fun g hg => hg
  | cons e es ih =>
    intro g hg
    refine ih (g.add e) fun t' ht' => ?_
    rw [neighbors_add]
    by_cases heq : t' = e.1
    · simp [heq]
    · rw [if_neg heq, List.append_nil]
      refine hg t' ?_
      rw [← AList.mem_keys, WaitFor.add, AList.mem_insert] at ht'
      exact AList.mem_keys.mp (ht'.resolve_left heq)

namespace LockManager

variable {lm : LockManager} {orders : MapOrders} {t n : Nat}

theorem mem_waits (orders : MapOrders) : (t, n) ∈ lm.waits orders ↔
    ∃ table, (∃ w ∈ (lm.entry table).waiters, w.txnID = t) ∧
      ((lm.entry table).holders.lookup n).isSome := by
  simp only [waits, List.mem_flatMap, mem_permute, List.mem_map, Prod.mk.injEq, Sigma.exists,
    Prod.exists]
  constructor
  · rintro ⟨table, e, hmem, w, i, hw, holderID, hholder, rfl, rfl⟩
    have hentry : lm.entry table = e := by
      rw [entry, AList.mem_lookup_iff.mpr hmem, Option.getD_some]
    refine ⟨table, ⟨w, ?_, rfl⟩, ?_⟩
    · rw [hentry]
      exact List.fst_mem_of_mem_zipIdx hw
    · rw [hentry]
      exact AList.lookup_isSome.mpr (AList.mem_keys.mpr hholder)
  · rintro ⟨table, ⟨w, hw, rfl⟩, hheld⟩
    cases hlookup : lm.locks.lookup table with
    | none =>
      rw [entry, hlookup] at hw
      cases hw
    | some e =>
      have hentry : lm.entry table = e := by rw [entry, hlookup, Option.getD_some]
      rw [hentry] at hw hheld
      obtain ⟨i, hi, hget⟩ := List.getElem_of_mem hw
      refine ⟨table, e, AList.mem_lookup_iff.mp hlookup, w, i, ?_, n, ?_, rfl, rfl⟩
      · rw [List.mem_zipIdx_iff_getElem?]
        simp [hi, hget]
      · exact AList.mem_keys.mp (AList.lookup_isSome.mp hheld)

theorem neighbors_waitFor (lm : LockManager) (orders : MapOrders) (t : Nat) :
    (lm.waitFor orders).neighbors t =
      ((lm.waits orders).filter fun e => t = e.1).map Prod.snd := by
  rw [waitFor, neighbors_foldl]
  rfl

theorem mem_neighbors : n ∈ (lm.waitFor orders).neighbors t ↔
    ∃ table, (∃ w ∈ (lm.entry table).waiters, w.txnID = t) ∧
      ((lm.entry table).holders.lookup n).isSome := by
  rw [neighbors_waitFor, ← mem_waits orders]
  simp

/-- The transaction waits for some table. -/
def Waits (lm : LockManager) (t : Nat) : Prop :=
  ∃ table, ∃ w ∈ (lm.entry table).waiters, w.txnID = t

/-- The transaction holds some lock. -/
def HoldsSome (lm : LockManager) (t : Nat) : Prop :=
  ∃ table, ((lm.entry table).holders.lookup t).isSome

/-- A table that is held is in the map. -/
theorem mem_keys_of_held {table : String} (h : ((lm.entry table).holders.lookup t).isSome) :
    table ∈ lm.locks.keys := by
  rw [← AList.mem_keys, ← AList.lookup_isSome]
  by_contra hnone
  rw [entry, Option.not_isSome_iff_eq_none.mp hnone] at h
  cases h

/-- Whoever waits waits for somebody. -/
theorem Ok.neighbors_ne_nil (hok : lm.Ok) (hwaits : lm.Waits t) :
    (lm.waitFor orders).neighbors t ≠ [] := by
  obtain ⟨table, w, hw, ht⟩ := hwaits
  have hheld := (hok.woken (.stay rfl)).held table (List.ne_nil_of_mem hw)
  obtain ⟨n, hn⟩ := List.exists_mem_of_ne_nil _ hheld
  have hmem : n ∈ (lm.waitFor orders).neighbors t :=
    mem_neighbors.mpr ⟨table, ⟨w, hw, ht⟩, AList.lookup_isSome.mpr (AList.mem_keys.mpr hn)⟩
  exact List.ne_nil_of_mem hmem

theorem mem_nodes_of_keys {g : WaitFor} (ht : t ∈ g.keys) : t ∈ g.nodes := by
  obtain ⟨e, he, rfl⟩ := List.mem_map.mp ht
  exact List.mem_flatMap.mpr ⟨e, he, List.mem_cons_self⟩

theorem mem_nodes_of_neighbors {g : WaitFor} (hn : n ∈ g.neighbors t) : n ∈ g.nodes := by
  rw [WaitFor.neighbors] at hn
  cases hlookup : g.lookup t with
  | none =>
    rw [hlookup] at hn
    cases hn
  | some ns =>
    rw [hlookup, Option.getD_some] at hn
    exact List.mem_flatMap.mpr
      ⟨⟨t, ns⟩, AList.mem_lookup_iff.mp hlookup, List.mem_cons_of_mem _ hn⟩

/-- The search always ends. -/
theorem detectDeadlock_isSome (lm : LockManager) (orders : MapOrders) :
    (lm.detectDeadlock orders).isSome := by
  have hclosed : ∀ a ∈ (lm.waitFor orders).nodes.toFinset,
      ∀ b ∈ (lm.waitFor orders).neighbors a, b ∈ (lm.waitFor orders).nodes.toFinset :=
    fun _ _ b hb => List.mem_toFinset.mpr (mem_nodes_of_neighbors hb)
  have hroots : ∀ a ∈ permute orders.roots (lm.waitFor orders).keys,
      a ∈ (lm.waitFor orders).nodes.toFinset :=
    fun a ha => List.mem_toFinset.mpr (mem_nodes_of_keys (mem_permute.mp ha))
  obtain ⟨s, hrun, -⟩ := dfsAll_total hclosed hroots (s := .start)
    ((Finset.card_filter_le _ _).trans (List.toFinset_card_le _))
  simp [detectDeadlock, hrun]

end LockManager

namespace LockSystem

open LockManager

/-- Nothing moves any more: somebody waits, and all who hold a lock wait.
In every such state that an interleaving can lead to, whatever the orders
of the maps, the search names a victim. -/
theorem stuck_has_victim (steps : List LockStep) (orders : MapOrders) :
    let lm := (steps.foldl step new).lm
    (∃ t, lm.Waits t) → (∀ t, lm.HoldsSome t → lm.Waits t) →
      ∃ victims, lm.detectDeadlock orders = some victims ∧ victims ≠ [] := by
  intro lm hsome hstuck
  have hok : lm.Ok := ok_run steps
  have hkeys {t : Nat} (ht : lm.Waits t) : t ∈ (lm.waitFor orders).keys :=
    mem_keys_of_neighbors (hok.neighbors_ne_nil ht)
  have hclosed : ∀ a ∈ (lm.waitFor orders).keys.toFinset,
      ∀ b ∈ (lm.waitFor orders).neighbors a, b ∈ (lm.waitFor orders).keys.toFinset := by
    intro a _ b hb
    -- the other end of an edge holds the table, so it waits as well
    obtain ⟨table, -, hheld⟩ := mem_neighbors.mp hb
    exact List.mem_toFinset.mpr (hkeys (hstuck b ⟨table, hheld⟩))
  have hnext : ∀ a ∈ (lm.waitFor orders).keys.toFinset, (lm.waitFor orders).neighbors a ≠ [] :=
    fun a ha => neighbors_of_mem_keys (List.mem_toFinset.mp ha)
  have hne : permute orders.roots (lm.waitFor orders).keys ≠ [] := by
    obtain ⟨t, ht⟩ := hsome
    exact List.ne_nil_of_mem (mem_permute.mpr (hkeys ht))
  have hfuel : (lm.waitFor orders).keys.toFinset.card ≤ (lm.waitFor orders).nodes.length := by
    refine le_trans (Finset.card_le_card fun t ht => ?_) (List.toFinset_card_le _)
    exact List.mem_toFinset.mpr (mem_nodes_of_keys (List.mem_toFinset.mp ht))
  obtain ⟨s, hrun, hvictims⟩ := dfsAll_finds hclosed hnext hne
    (fun a ha => List.mem_toFinset.mpr (mem_permute.mp ha)) hfuel
  refine ⟨s.victims, ?_, hvictims⟩
  simp [detectDeadlock, hrun]

/-- Two transactions that wait for each other's tables. -/
def crossed : List LockStep :=
  [.acquire 1 "a" .lockExclusive, .acquire 2 "b" .lockExclusive, .acquire 1 "b" .lockShared,
    .acquire 2 "a" .lockShared]

theorem stuck_has_victim_at_crossed :
    ∃ victims, (crossed.foldl step new).lm.detectDeadlock ⟨0, fun _ _ => 0, 0⟩ = some victims ∧
      victims ≠ [] := by
  refine stuck_has_victim crossed ⟨0, fun _ _ => 0, 0⟩ ?_ ?_
  · exact ⟨1, "b", ⟨1, .lockShared, 0⟩, by decide +kernel, rfl⟩
  · rintro t ⟨table, hheld⟩
    have htable := mem_keys_of_held hheld
    have hmem : t ∈ ((crossed.foldl step new).lm.entry table).holders.keys :=
      AList.mem_keys.mp (AList.lookup_isSome.mp hheld)
    have htables : (crossed.foldl step new).lm.locks.keys = ["a", "b"] := by decide +kernel
    have ha : ((crossed.foldl step new).lm.entry "a").holders.keys = [1] := by decide +kernel
    have hb : ((crossed.foldl step new).lm.entry "b").holders.keys = [2] := by decide +kernel
    rw [htables] at htable
    simp only [List.mem_cons, List.not_mem_nil, or_false] at htable
    rcases htable with rfl | rfl
    · rw [ha, List.mem_singleton] at hmem
      exact ⟨"b", ⟨1, .lockShared, 0⟩, by decide +kernel, hmem.symm⟩
    · rw [hb, List.mem_singleton] at hmem
      exact ⟨"a", ⟨2, .lockShared, 1⟩, by decide +kernel, hmem.symm⟩

end LockSystem

end MySQLight.Txn
