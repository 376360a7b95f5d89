import MySQLight.Data.CycleEscape
import MySQLight.Txn.Deadlock

/-!
The victims of `detectDeadlock`.

The search keeps its marks on a path that led into a cycle. When it starts
again at a transaction that waits for one on such a path, it takes the edge
for one that closes a cycle. So whether the victims are deadlocked can depend
on the order of the maps, and it does not if no transaction waits behind a
deadlock without being part of one.

A search ends with the first cycle it finds, and the other edges of the
transactions on its path are never looked at. So whether the victims break
every deadlock depends on the orders as well, and it does not if a deadlocked
transaction waits for one only that waits behind a deadlock.
-/

namespace MySQLight.Txn

open MySQLight.Data Relation

namespace LockManager

/-- The transaction waits for a table that the other one holds. -/
def WaitsFor (lm : LockManager) (t n : Nat) : Prop :=
  ∃ table, (∃ w ∈ (lm.entry table).waiters, w.txnID = t) ∧
    ((lm.entry table).holders.lookup n).isSome

/-- The transaction waits for itself, through others. -/
def Deadlocked (lm : LockManager) (t : Nat) : Prop := TransGen lm.WaitsFor t t

/-- The transaction waits for a deadlocked one, through others, or is one. -/
def WaitsBehind (lm : LockManager) (t : Nat) : Prop :=
  ∃ n, ReflTransGen lm.WaitsFor t n ∧ lm.Deadlocked n

variable {lm : LockManager} {orders : MapOrders} {t n : Nat}

theorem edge_eq_waitsFor (lm : LockManager) (orders : MapOrders) :
    (fun t n => n ∈ (lm.waitFor orders).neighbors t) = lm.WaitsFor := by
  funext t n
  exact propext mem_neighbors

theorem onCycle_iff : OnCycle (lm.waitFor orders).neighbors t ↔ lm.Deadlocked t := by
  rw [OnCycle, edge_eq_waitsFor, Deadlocked]

theorem leadsToCycle_iff :
    LeadsToCycle (lm.waitFor orders).neighbors t ↔ lm.WaitsBehind t := by
  simp only [LeadsToCycle, Reaches, onCycle_iff, edge_eq_waitsFor, WaitsBehind]

theorem mem_keys_of_leads (h : LeadsToCycle (lm.waitFor orders).neighbors t) :
    t ∈ (lm.waitFor orders).keys := by
  obtain ⟨n, hn, -⟩ := h.exists_edge
  exact mem_keys_of_neighbors (List.ne_nil_of_mem hn)

theorem exists_roots {as : List Nat} (hne : t ≠ n) (ht : t ∈ as) (hn : n ∈ as) :
    ∃ k rest, permute k as = t :: n :: rest := by
  have hn' : n ∈ as.erase t := (List.mem_erase_of_ne hne.symm).mpr hn
  have hperm : (t :: n :: (as.erase t).erase n).Perm as :=
    ((List.perm_cons_erase hn').symm.cons t).trans (List.perm_cons_erase ht).symm
  obtain ⟨k, hk⟩ := exists_permute_eq hperm
  exact ⟨k, _, hk⟩

/-- Whatever the orders of the maps, all victims are deadlocked, if and only
if all that wait behind a deadlock are part of one. -/
theorem victims_deadlocked (lm : LockManager) :
    (∀ orders victims, lm.detectDeadlock orders = some victims →
      ∀ t ∈ victims, lm.Deadlocked t) ↔ ∀ t, lm.WaitsBehind t → lm.Deadlocked t := by
  constructor
  · intro h t hbehind
    by_contra hnot
    let orders (roots : Nat) : MapOrders := ⟨0, fun _ _ => 0, roots⟩
    have hlead : LeadsToCycle (lm.waitFor (orders 0)).neighbors t := leadsToCycle_iff.mpr hbehind
    obtain ⟨n, hn, hleadn, hne, hblames⟩ := dfsAll_blames hlead (mt onCycle_iff.mp hnot)
    obtain ⟨roots, rest, hroots⟩ :=
      exists_roots hne (mem_keys_of_leads hleadn) (mem_keys_of_leads hlead)
    obtain ⟨victims, hrun⟩ := Option.isSome_iff_exists.mp (lm.detectDeadlock_isSome (orders roots))
    obtain ⟨s, hs, hvictims⟩ := Option.bind_eq_some_iff.mp hrun
    cases hvictims
    -- the graph does not depend on the order of the roots
    change dfsAll _ _ (permute roots (lm.waitFor (orders 0)).keys) _ = _ at hs
    rw [hroots] at hs
    exact hnot (h (orders roots) s.victims hrun t (hblames _ rest s hs))
  · intro h orders victims hrun t ht
    obtain ⟨s, hs, hvictims⟩ := Option.bind_eq_some_iff.mp hrun
    cases hvictims
    obtain hnil | hlead := (dfsAll_victims settled_start hs).2 t ht
    · cases hnil
    · exact h t (leadsToCycle_iff.mp hlead)

/-- Whatever the orders of the maps, each victim waits behind a deadlock, and
whoever does so waits for a victim. -/
theorem victims_behind_every_deadlock (lm : LockManager) (orders : MapOrders) :
    ∃ victims, lm.detectDeadlock orders = some victims ∧ (∀ v ∈ victims, lm.WaitsBehind v) ∧
      ∀ t, lm.WaitsBehind t → ∃ v ∈ victims, ReflTransGen lm.WaitsFor t v := by
  obtain ⟨victims, hrun⟩ := Option.isSome_iff_exists.mp (lm.detectDeadlock_isSome orders)
  obtain ⟨s, hs, hvictims⟩ := Option.bind_eq_some_iff.mp hrun
  cases hvictims
  refine ⟨s.victims, hrun, fun v hv => ?_, fun t ht => ?_⟩
  · obtain hnil | hlead := (dfsAll_victims settled_start hs).2 v hv
    · cases hnil
    · exact leadsToCycle_iff.mp hlead
  · -- What `t` waits for on its way to a deadlock is closed, so the search hits it.
    let ahead (a : Nat) : Prop := ReflTransGen lm.WaitsFor t a ∧ lm.WaitsBehind a
    have hclosed : ∀ a, ahead a → ∀ b ∈ (lm.waitFor orders).neighbors a,
        LeadsToCycle (lm.waitFor orders).neighbors b → ahead b :=
      fun a ha b hb hlead => ⟨ha.1.tail (mem_neighbors.mp hb), leadsToCycle_iff.mp hlead⟩
    obtain ⟨hhits, -, hvisited⟩ :=
      dfsAll_hits hclosed (fun a ha => leadsToCycle_iff.mpr ha.2) settled_start hs
    obtain ⟨v, hv, hreach, -⟩ | hnone := hhits
    · exact ⟨v, hv, hreach⟩
    · have hkey : t ∈ (lm.waitFor orders).keys := mem_keys_of_leads (leadsToCycle_iff.mpr ht)
      cases hnone t ⟨.refl, ht⟩ (hvisited t (mem_permute.mpr hkey))

/-! ### Deadlocks that are left -/

/-- The transaction is in the queue of the table. -/
def WaitsIn (lm : LockManager) (t : Nat) (table : String) : Prop :=
  ∃ w ∈ (lm.entry table).waiters, w.txnID = t

theorem neighbors_eq_cons {table : String} (front rest : List ((_ : String) × LockEntry))
    (hfront : ∀ e ∈ front, ∀ w ∈ e.2.waiters, w.txnID ≠ t) (hwaits : lm.WaitsIn t table)
    (htables : permute orders.tables lm.locks.entries = front ++ ⟨table, lm.entry table⟩ :: rest)
    (hholders : ∀ i w, (lm.entry table).waiters[i]? = some w → w.txnID = t →
      ∃ others, permute (orders.holders table i) (lm.entry table).holders.keys = n :: others) :
    ∃ others, (lm.waitFor orders).neighbors t = n :: others := by
  -- the first place in the queue counts
  obtain ⟨w, hfind⟩ : ∃ w, (lm.entry table).waiters.find? (fun w => w.txnID = t) = some w := by
    obtain ⟨w, hw, ht⟩ := hwaits
    exact Option.isSome_iff_exists.mp (List.find?_isSome.mpr ⟨w, hw, by simpa using ht⟩)
  obtain ⟨ht, before, after, hqueue, hbefore⟩ := List.find?_eq_some_iff_append.mp hfind
  obtain ⟨others, hothers⟩ := hholders before.length w (by simp [hqueue]) (by simpa using ht)
  obtain rfl : w.txnID = t := by simpa using ht
  have hsplit : ∃ pre post, lm.waits orders = pre ++ (w.txnID, n) :: post ∧
      ∀ e ∈ pre, ¬ w.txnID = e.1 := by
    rw [waits, htables, List.flatMap_append, List.flatMap_cons]
    simp only [hqueue, List.zipIdx_append, List.zipIdx_cons, Nat.zero_add, List.flatMap_append,
      List.flatMap_cons, hothers, List.map_cons, List.append_assoc, List.cons_append]
    refine ⟨_ ++ _, _, (List.append_assoc ..).symm, fun e he heq => ?_⟩
    simp only [List.mem_append, List.mem_flatMap, List.mem_map] at he
    obtain ⟨e', he', x, hx, holder, -, rfl⟩ | ⟨x, hx, holder, -, rfl⟩ := he
    · exact hfront e' he' x.1 (List.fst_mem_of_mem_zipIdx hx) heq.symm
    · have hne := hbefore x.1 (List.fst_mem_of_mem_zipIdx hx)
      simp [heq] at hne
  obtain ⟨pre, post, hwaits, hpre⟩ := hsplit
  have hnone : pre.filter (fun e => w.txnID = e.1) = [] := by
    simpa using hpre
  rw [neighbors_waitFor, hwaits, List.filter_append, hnone]
  exact ⟨(post.filter fun e => w.txnID = e.1).map Prod.snd, by simp⟩

/-- The maps can be gone through in such orders that every transaction on a
path finds the one named for it first, if it waits for it in a table that no
later one waits in. -/
theorem exists_orders (path : List Nat) {table : Nat → String} {target : Nat → Nat}
    (hwaits : ∀ c ∈ path, lm.WaitsIn c (table c))
    (hheld : ∀ c ∈ path, ((lm.entry (table c)).holders.lookup (target c)).isSome)
    (hlater : path.Pairwise fun c c' => ¬ lm.WaitsIn c' (table c)) :
    ∃ tables holders, ∀ roots, ∀ c ∈ path, ∃ others,
      (lm.waitFor ⟨tables, holders, roots⟩).neighbors c = target c :: others := by
  have hentry {c : Nat} (hc : c ∈ path) :
      (⟨table c, lm.entry (table c)⟩ : (_ : String) × LockEntry) ∈ lm.locks.entries := by
    obtain ⟨e, he⟩ := Option.isSome_iff_exists.mp
      (AList.lookup_isSome.mpr (AList.mem_keys.mpr (mem_keys_of_held (hheld c hc))))
    rw [entry, he]
    exact AList.mem_lookup_iff.mp he
  have hnodup : (path.map fun c =>
      (⟨table c, lm.entry (table c)⟩ : (_ : String) × LockEntry)).Nodup := by
    refine List.pairwise_map.mpr (hlater.imp_of_mem fun {c c'} hc hc' hnot heq => hnot ?_)
    have htable : table c = table c' := congrArg Sigma.fst heq
    rw [htable]
    exact hwaits c' hc'
  have hsubset : (path.map fun c =>
      (⟨table c, lm.entry (table c)⟩ : (_ : String) × LockEntry)) ⊆ lm.locks.entries := by
    intro e he
    obtain ⟨c, hc, rfl⟩ := List.mem_map.mp he
    exact hentry hc
  obtain ⟨es, hes, hsub⟩ := List.subperm_of_subset hnodup hsubset
  obtain ⟨rest, hrest⟩ := hsub.exists_perm_append
  obtain ⟨tables, htables⟩ := exists_permute_eq ((hes.symm.append_right rest).trans hrest.symm)
  have hchoice : ∀ (t : String) (i : Nat), ∃ k, ∀ w, (lm.entry t).waiters[i]? = some w →
      target w.txnID ∈ (lm.entry t).holders.keys →
      ∃ others, permute k (lm.entry t).holders.keys = target w.txnID :: others := by
    intro t i
    by_cases hw : ∃ w, (lm.entry t).waiters[i]? = some w ∧
        target w.txnID ∈ (lm.entry t).holders.keys
    · obtain ⟨w, hw, hmem⟩ := hw
      obtain ⟨k, hk⟩ := exists_permute_eq (List.perm_cons_erase hmem).symm
      refine ⟨k, fun w' hw' _ => ?_⟩
      cases hw.symm.trans hw'
      exact ⟨_, hk⟩
    · exact ⟨0, fun w hw' hmem => absurd ⟨w, hw', hmem⟩ hw⟩
  choose holders hholders using hchoice
  refine ⟨tables, holders, fun roots c hc => ?_⟩
  obtain ⟨front, back, rfl⟩ := List.append_of_mem hc
  refine neighbors_eq_cons (front.map fun c => ⟨table c, lm.entry (table c)⟩)
    (back.map (fun c => ⟨table c, lm.entry (table c)⟩) ++ rest) ?_ (hwaits c hc) ?_ ?_
  · intro e he w hw hc'
    obtain ⟨c', hc'', rfl⟩ := List.mem_map.mp he
    exact (List.pairwise_append.mp hlater).2.2 c' hc'' c List.mem_cons_self ⟨w, hw, hc'⟩
  · rw [htables]
    simp
  · rintro i w hw rfl
    exact hholders _ i w hw (AList.mem_keys.mp (AList.lookup_isSome.mp (hheld _ hc)))

theorem exists_orders_of_escape {path : List Nat} {a m : Nat} (h : Escape lm.WaitsFor path a m)
    (hstraight : ∀ c c' d front rest, path = front ++ c' :: d :: rest → c ∈ path →
      lm.WaitsFor c d → c = c') :
    ∃ tables holders, ∀ roots, (path ++ [m]).IsChain fun c d => ∃ others,
      (lm.waitFor ⟨tables, holders, roots⟩).neighbors c = d :: others := by
  have hchoice : ∀ c, ∃ d table, c ∈ path → (∃ front rest, path ++ [m] = front ++ c :: d :: rest) ∧
      lm.WaitsIn c table ∧ ((lm.entry table).holders.lookup d).isSome := by
    intro c
    by_cases hc : c ∈ path
    · obtain ⟨front, back, hpath⟩ := List.append_of_mem hc
      obtain ⟨d, rest, hrest⟩ := List.exists_cons_of_ne_nil
        (List.append_ne_nil_of_right_ne_nil back (List.cons_ne_nil m []))
      have hsplit : path ++ [m] = front ++ c :: d :: rest := by
        rw [hpath, List.append_assoc, List.cons_append, hrest]
      obtain ⟨table, hwaits, hheld⟩ :=
        List.isChain_iff_forall_rel_of_append_cons_cons.mp h.exit hsplit
      exact ⟨d, table, fun _ => ⟨⟨front, rest, hsplit⟩, hwaits, hheld⟩⟩
    · exact ⟨0, "", fun h => absurd h hc⟩
  choose target table hchoice using hchoice
  have hnodup : (path ++ [m]).Nodup := (List.perm_append_singleton m path).nodup_iff.mpr h.nodup
  -- the node behind another one on the path is the one chosen for it
  have htarget {c d : Nat} (front rest : List Nat)
      (hsplit : path ++ [m] = front ++ c :: d :: rest) (hc : c ∈ path) : target c = d := by
    obtain ⟨front', rest', hsplit'⟩ := (hchoice c hc).1
    rw [hsplit] at hsplit' hnodup
    obtain ⟨-, htail, hdisjoint⟩ := List.nodup_append.mp hnodup
    have hfront : c ∉ front := fun hmem => hdisjoint c hmem c List.mem_cons_self rfl
    have hsame := (List.append_cons_inj_of_notMem hfront (List.nodup_cons.mp htail).1).mp hsplit'
    exact (List.cons.inj hsame.2.2).1.symm
  obtain ⟨tables, holders, hfirst⟩ := exists_orders path
    (fun c hc => (hchoice c hc).2.1) (fun c hc => (hchoice c hc).2.2) (by
      refine List.pairwise_iff_forall_sublist.mpr fun {c c'} hsub hwaits => ?_
      obtain ⟨front, back, hpath, hc, hc'⟩ := List.cons_sublist_iff.mp hsub
      obtain ⟨front, between, rfl⟩ := List.append_of_mem hc
      obtain ⟨d, rest, hrest⟩ := List.exists_cons_of_ne_nil
        (List.append_ne_nil_of_right_ne_nil between
          (List.ne_nil_of_mem (List.singleton_sublist.mp hc')))
      rw [List.append_assoc, List.cons_append, hrest] at hpath
      have hmem : c ∈ path := by simp [hpath]
      have hd : target c = d := by
        refine htarget front (rest ++ [m]) ?_ hmem
        simp [hpath]
      have hmem' : c' ∈ path := hsub.subset (by simp)
      obtain rfl := hstraight c' c d front rest hpath hmem'
        ⟨_, hwaits, hd ▸ (hchoice c hmem).2.2⟩
      simpa using (List.nodup_append.mp hnodup).1.sublist hsub)
  refine ⟨tables, holders, fun roots => ?_⟩
  rw [List.isChain_iff_forall_rel_of_append_cons_cons]
  intro c d front rest hsplit
  have hc : c ∈ path := by
    have hlast := congrArg List.dropLast hsplit
    rw [List.dropLast_concat] at hlast
    simp [hlast]
  rw [← htarget front rest hsplit hc]
  exact hfirst roots c hc

/-- Rolling back the victims leaves no deadlock, whatever the orders of the
maps, if and only if no deadlocked transaction waits for two others that
wait behind a deadlock. -/
theorem victims_break_deadlocks (lm : LockManager) :
    (∀ orders victims, lm.detectDeadlock orders = some victims →
      ∀ t, ¬ TransGen (fun t n => lm.WaitsFor t n ∧ t ∉ victims ∧ n ∉ victims) t t) ↔
      ∀ t n n', lm.Deadlocked t → lm.WaitsFor t n → lm.WaitsFor t n' → lm.WaitsBehind n →
        lm.WaitsBehind n' → n = n' := by
  constructor
  · intro h t n n' ht hn hn' hbehind hbehind'
    by_contra hne
    obtain ⟨_, _, _, hescape⟩ := exists_escape ht hn hn' hne hbehind hbehind'
    obtain ⟨path, a, m, hescape, hstraight⟩ := hescape.exists_straight
    obtain ⟨tables, holders, hfirst⟩ := exists_orders_of_escape hescape hstraight
    have ha : a ∈ path := List.mem_of_head? hescape.head
    have hkey : a ∈ (lm.waitFor ⟨tables, holders, 0⟩).keys :=
      mem_keys_of_leads (leadsToCycle_iff.mpr (hescape.leads_of_mem ha))
    obtain ⟨roots, hroots⟩ := exists_permute_eq (List.perm_cons_erase hkey).symm
    obtain ⟨victims, hrun⟩ := Option.isSome_iff_exists.mp
      (lm.detectDeadlock_isSome ⟨tables, holders, roots⟩)
    refine h ⟨tables, holders, roots⟩ victims hrun a (transGen_of_isChain hescape.head ?_)
    obtain ⟨s, hs, hvictims⟩ := Option.bind_eq_some_iff.mp hrun
    cases hvictims
    change dfsAll _ _ (permute roots (lm.waitFor ⟨tables, holders, 0⟩).keys) _ = _ at hs
    rw [hroots] at hs
    have hmissed : ∀ x ∈ path, x ∉ s.victims := by
      refine dfsAll_misses (hfirst roots) ?_ (leadsToCycle_iff.mpr hescape.leads) ?_ hs
      · exact (List.perm_append_singleton m path).nodup_iff.mpr hescape.nodup
      · rw [List.head?_append, hescape.head]
        rfl
    have hmem {c : Nat} (hc : c ∈ path ++ [a]) : c ∈ path := by
      obtain hc | hc := List.mem_append.mp hc
      · exact hc
      · exact List.mem_singleton.mp hc ▸ ha
    exact hescape.back.imp_of_mem_imp fun c d hc hd hcd =>
      ⟨hcd, hmissed c (hmem hc), hmissed d (hmem hd)⟩
  · intro h orders victims hrun t hcycle
    obtain ⟨s, hs, hvictims⟩ := Option.bind_eq_some_iff.mp hrun
    cases hvictims
    let left (t n : Nat) : Prop := lm.WaitsFor t n ∧ t ∉ s.victims ∧ n ∉ s.victims
    have hdeadlocked {t : Nat} (ht : TransGen left t t) : lm.Deadlocked t :=
      TransGen.mono (r := left) (fun _ _ h => h.1) t t ht
    have hclosed : ∀ a, TransGen left a a → ∀ b ∈ (lm.waitFor orders).neighbors a,
        LeadsToCycle (lm.waitFor orders).neighbors b → TransGen left b b := by
      intro a ha b hb hlead
      obtain ⟨c, hac, hca⟩ := TransGen.head'_iff.mp ha
      have hc : TransGen left c c := TransGen.tail' hca hac
      have hb : lm.WaitsFor a b := mem_neighbors.mp hb
      rw [h a b c (hdeadlocked ha) hb hac.1 (leadsToCycle_iff.mp hlead) ⟨c, .refl, hdeadlocked hc⟩]
      exact hc
    obtain ⟨hhits, -, hvisited⟩ := dfsAll_hits hclosed
      (fun a ha => (onCycle_iff.mpr (hdeadlocked ha)).leads) settled_start hs
    obtain ⟨v, hv, hcycle⟩ | hnone := hhits
    · obtain ⟨_, hleft, -⟩ := TransGen.head'_iff.mp hcycle
      exact hleft.2.1 hv
    · have hkey : t ∈ (lm.waitFor orders).keys :=
        mem_keys_of_leads (onCycle_iff.mpr (hdeadlocked hcycle)).leads
      cases hnone t hcycle (hvisited t (mem_permute.mpr hkey))

end LockManager

namespace LockSystem

/-- A third transaction waits behind a deadlock of two. -/
def behindCrossed : List LockStep := crossed ++ [.acquire 3 "a" .lockShared]

/-- It becomes a victim as well. -/
theorem victim_not_deadlocked :
    ∃ orders victims, (behindCrossed.foldl step new).lm.detectDeadlock orders = some victims ∧
      3 ∈ victims ∧ ¬ (behindCrossed.foldl step new).lm.Deadlocked 3 := by
  refine ⟨⟨0, fun _ _ => 0, 0⟩, [2, 3], by decide +kernel, by decide, fun hcycle => ?_⟩
  -- nobody waits for the third one, which holds nothing
  obtain ⟨t, -, table, -, hheld⟩ := TransGen.tail'_iff.mp hcycle
  have htable := LockManager.mem_keys_of_held hheld
  have htables : (behindCrossed.foldl step new).lm.locks.keys = ["a", "b"] := by decide +kernel
  have hnone : ∀ table ∈ ["a", "b"],
      ((behindCrossed.foldl step new).lm.entry table).holders.lookup 3 = none := by
    decide +kernel
  rw [hnone table (htables ▸ htable)] at hheld
  cases hheld

/-- The first three transactions wait for each other in a circle; the third
one waits for the fourth one as well, which waits for it. -/
def knotted : List LockStep :=
  [.acquire 3 "c" .lockExclusive, .acquire 2 "b" .lockExclusive, .acquire 1 "s" .lockShared,
    .acquire 4 "s" .lockShared, .acquire 1 "b" .lockShared, .acquire 2 "c" .lockShared,
    .acquire 4 "c" .lockShared, .acquire 3 "s" .lockExclusive]

/-- Only the fourth one becomes a victim; the circle of three is left. -/
theorem deadlock_left_by_victims :
    ∃ orders victims, (knotted.foldl step new).lm.detectDeadlock orders = some victims ∧
      ∃ t, TransGen (fun t n => (knotted.foldl step new).lm.WaitsFor t n ∧ t ∉ victims ∧
        n ∉ victims) t t := by
  have hwaits (t n : Nat) (table : String)
      (h : (∃ w ∈ ((knotted.foldl step new).lm.entry table).waiters, w.txnID = t) ∧
        (((knotted.foldl step new).lm.entry table).holders.lookup n).isSome)
      (hleft : t ∉ [4] ∧ n ∉ [4]) :
      (knotted.foldl step new).lm.WaitsFor t n ∧ t ∉ [4] ∧ n ∉ [4] := ⟨⟨table, h⟩, hleft⟩
  refine ⟨⟨0, fun _ _ => 0, 0⟩, [4], by decide +kernel, 1, ?_⟩
  refine .tail (b := 3) (.tail (b := 2) (.single ?_) ?_) ?_
  · exact hwaits 1 2 "b" (by decide +kernel) (by decide)
  · exact hwaits 2 3 "c" (by decide +kernel) (by decide)
  · exact hwaits 3 1 "s" (by decide +kernel) (by decide)

end LockSystem

end MySQLight.Txn
