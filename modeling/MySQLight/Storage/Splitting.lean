import MySQLight.Storage.PageStore

/-!
Where full nodes are cut.

The two split procedures cut a list of sizes near its middle. What the
tree needs from the cut is that both sides are non-empty and fit on a
page. For leaves the second part is trivial, since the entries were on one
page before; for internal nodes the new separator has been added already,
and it takes the bound on the length of a separator to see that neither
half overflows.
-/

namespace MySQLight.Storage.BTree

open MySQLight.Data MySQLight.Effect

/-! ### The cut -/

theorem midpointLoop_spec (within : Nat → Bool) (acc : Nat) (sizes : List Nat) :
    (midpointLoop within acc sizes = 0 ∨
        within (acc + (sizes.take (midpointLoop within acc sizes)).sum) = true) ∧
      midpointLoop within acc sizes ≤ sizes.length ∧
      (midpointLoop within acc sizes < sizes.length →
        within (acc + (sizes.take (midpointLoop within acc sizes + 1)).sum) = false) := by
  induction sizes generalizing acc with
  | nil => simp [midpointLoop]
  | cons size sizes ih =>
    rw [midpointLoop]
    by_cases hsize : within (acc + size) = true
    · obtain ⟨hin, hle, hout⟩ := ih (acc + size)
      rw [if_pos hsize, List.take_succ_cons, List.take_succ_cons, List.sum_cons, List.sum_cons,
        ← Nat.add_assoc, ← Nat.add_assoc]
      refine ⟨Or.inr ?_, Nat.succ_le_succ hle, fun h => hout (Nat.lt_of_succ_lt_succ h)⟩
      rcases hin with hzero | hin
      · rw [hzero]
        simpa using hsize
      · exact hin
    · rw [if_neg hsize]
      simpa using hsize

/-- Both halves of a leaf get an entry. -/
theorem leafMidpoint_bounds (sizes : List Nat) (h : 2 ≤ sizes.length) :
    1 ≤ leafMidpoint sizes ∧ leafMidpoint sizes < sizes.length := by
  obtain ⟨-, hle, -⟩ := midpointLoop_spec (· < sizes.sum / 2) 0 sizes
  simp only [leafMidpoint]
  split_ifs <;> omega

/-- Both halves of an internal node get a separator, and neither is larger
than half of everything or than a single separator. -/
theorem internalMidpoint_bounds {sizes : List Nat} {cap : Nat} (h : 3 ≤ sizes.length)
    (hcap : ∀ size ∈ sizes, size ≤ cap) :
    1 ≤ internalMidpoint sizes ∧ internalMidpoint sizes + 2 ≤ sizes.length ∧
      (sizes.take (internalMidpoint sizes)).sum ≤ max cap (sizes.sum / 2) ∧
      (sizes.drop (internalMidpoint sizes + 1)).sum ≤ max cap (sizes.sum / 2) := by
  obtain ⟨hin, hle, hout⟩ := midpointLoop_spec (· ≤ sizes.sum / 2) 0 sizes
  simp only [internalMidpoint]
  generalize midpointLoop (· ≤ sizes.sum / 2) 0 sizes = m at hin hle hout
  simp only [Nat.zero_add, decide_eq_true_eq, decide_eq_false_iff_not, Nat.not_le] at hin hout
  have hsum (k : Nat) : (sizes.take k).sum + (sizes.drop k).sum = sizes.sum :=
    List.sum_take_add_sum_drop sizes k
  have hmono {j k : Nat} (hjk : j ≤ k) : (sizes.take j).sum ≤ (sizes.take k).sum := by
    rw [← min_eq_left hjk, ← List.take_take]
    exact List.Sublist.sum_le_sum (List.take_sublist _ _) (by simp)
  have hfirst : (sizes.take 1).sum ≤ cap := by
    obtain ⟨size, sizes, rfl⟩ := List.exists_cons_of_length_pos (by omega : 0 < sizes.length)
    simpa using hcap size (by simp)
  have hlast : (sizes.drop (sizes.length - 1)).sum ≤ cap := by
    have hlt : sizes.length - 1 < sizes.length := by omega
    rw [List.drop_eq_getElem_cons hlt, List.drop_of_length_le (by omega)]
    simpa using hcap _ (List.getElem_mem hlt)
  rcases Nat.eq_zero_or_pos m with rfl | hm
  · -- the first separator alone is more than half of everything
    have hhalf := hout (by omega)
    rw [Nat.zero_add] at hhalf
    have h1 := hsum 1
    have h2 := hsum 2
    have h12 := hmono (show 1 ≤ 2 by omega)
    simp only [if_true, if_neg (show ¬sizes.length ≤ 1 + 1 by omega)]
    exact ⟨le_refl _, by omega, le_max_of_le_left hfirst, le_max_of_le_right (by simp; omega)⟩
  · simp only [if_neg (show ¬m = 0 by omega)]
    have hleft : (sizes.take m).sum ≤ sizes.sum / 2 := by omega
    by_cases hend : sizes.length ≤ m + 1
    · rw [if_pos hend, show sizes.length - 2 + 1 = sizes.length - 1 by omega]
      have hless := hmono (show sizes.length - 2 ≤ m by omega)
      exact ⟨by omega, by omega, le_max_of_le_right (by omega), le_max_of_le_left hlast⟩
    · rw [if_neg hend]
      have hhalf := hout (by omega)
      have hnext := hsum (m + 1)
      exact ⟨by omega, by omega, le_max_of_le_right hleft, le_max_of_le_right (by omega)⟩

/-! ### Leaves -/

variable {entries : List (Bytes × Bytes)} {keys : List Bytes}

/-- The halves of a leaf. -/
theorem splitEntries_spec (node : Node) {sibling pageID : Nat}
    (h : LeafPage node.data entries sibling) (hcount : 2 ≤ entries.length) (hid : pageID < 2 ^ 32) :
    ∃ es e es' left right, entries = es ++ e :: es' ∧ es ≠ [] ∧
      splitEntries node pageID =
        some ({ node with data := left }, e.1, ⟨pageID, .nodeLeaf, right⟩) ∧
      PackedLeaf left es pageID ∧ PackedLeaf right (e :: es') sibling := by
  have hsize := h.entriesSize_le
  have hsibling : sibling < 2 ^ 32 := by
    have hlt := beNat_lt (slice node.data.bytes 5 9)
    rw [PageData.length_slice (by rw [pageSize_eq]; omega)] at hlt
    exact h.sibling_eq ▸ hlt
  obtain ⟨hpos, hlt⟩ := leafMidpoint_bounds
    (entries.map fun e => e.1.length + e.2.length + 8) (by simpa using hcount)
  rw [List.length_map] at hlt
  have hentries := h.leafEntries_eq
  generalize hm : leafMidpoint (entries.map fun e => e.1.length + e.2.length + 8) = m at hpos hlt
  obtain ⟨es, e, es', rfl, rfl⟩ : ∃ es e es', entries = es ++ e :: es' ∧ m = es.length :=
    ⟨entries.take m, entries[m], entries.drop (m + 1), by
      rw [← List.drop_eq_getElem_cons hlt, List.take_append_drop],
      (List.length_take_of_le hlt.le).symm⟩
  rw [entriesSize_append] at hsize
  obtain ⟨left, hleft, hleft'⟩ := PackedLeaf.appendLeafEntries
    (n := { node with data := makeNewLeafHeader }) PackedLeaf.makeNewLeafHeader
    (show slotStart + entriesSize ([] ++ es) ≤ PageSize by simp; omega)
  obtain ⟨right, hright, hright'⟩ := PackedLeaf.appendLeafEntries
    (n := Node.setRightSibling ⟨pageID, .nodeLeaf, makeNewLeafHeader⟩ sibling)
    (PackedLeaf.makeNewLeafHeader.setRightSibling (n := ⟨pageID, .nodeLeaf, _⟩) hsibling)
    (show slotStart + entriesSize ([] ++ e :: es') ≤ PageSize by simp at hsize ⊢; omega)
  refine ⟨es, e, es', _, right, rfl, List.ne_nil_of_length_pos hpos, ?_,
    hleft'.setRightSibling (n := { node with data := left }) hid, hright'⟩
  simp only [List.length_nil] at hleft hright
  simp only [splitEntries, hentries, hm, h.rightSibling_eq, Option.bind_eq_bind, Option.bind_some,
    List.take_left, List.drop_left, hleft, hright]
  simp [Node.setRightSibling]

/-! ### Internal nodes -/

theorem entryCap_eq : entryCap = 1362 := rfl

theorem keysSize_le_of_length (h : ∀ key ∈ keys, key.length + 8 ≤ entryCap) :
    keysSize keys ≤ entryCap * keys.length := by
  induction keys with
  | nil => simp
  | cons key keys ih =>
    have hkey := h key (by simp)
    have hrest := ih fun k hk => h k (List.mem_cons_of_mem _ hk)
    rw [keysSize_cons, List.length_cons, Nat.mul_succ]
    omega

/-- The cut of `splitChildren`, with the new separator and child in
place. -/
def cutInternal (leftID rightID : Nat) (keys : List Bytes) (kids : List Nat) :
    Option (Node × Bytes × Node) := do
  let midpoint := internalMidpoint (keys.map fun key => key.length + 4 + 4)
  let left ← Node.buildInternal leftID (keys.take midpoint) (kids.take (midpoint + 1))
  let right ← Node.buildInternal rightID (keys.drop (midpoint + 1)) (kids.drop (midpoint + 1))
  let median ← keys[midpoint]?
  return (left, median, right)

/-- The cut leaves two pages that fit, if everything together is less than
two pages. -/
theorem cutInternal_spec {leftID rightID : Nat} {kids : List Nat}
    (hlen : kids.length = keys.length + 1) (hlt : ∀ id ∈ kids, id < 2 ^ 32)
    (hcap : ∀ k ∈ keys, k.length + 8 ≤ entryCap) (hcount : 3 ≤ keys.length)
    (htotal : keysSize keys ≤ 2 * (PageSize - slotStart)) :
    ∃ keys₁ median keys₂ kids₁ kids₂ left right, keys = keys₁ ++ median :: keys₂ ∧
      kids = kids₁ ++ kids₂ ∧ keys₁ ≠ [] ∧ keys₂ ≠ [] ∧
      cutInternal leftID rightID keys kids =
        some (⟨leftID, .nodeInternal, left⟩, median, ⟨rightID, .nodeInternal, right⟩) ∧
      InternalPage left keys₁ kids₁ ∧ InternalPage right keys₂ kids₂ := by
  have hps := pageSize_eq
  have hst := slotStart_eq
  have hec := entryCap_eq
  have hsizes : ∀ size ∈ keys.map (fun key => key.length + 4 + 4), size ≤ entryCap := by
    intro size hmem
    obtain ⟨key, hkey, rfl⟩ := List.mem_map.mp hmem
    exact hcap key hkey
  obtain ⟨hpos, hlast, hleft, hright⟩ := internalMidpoint_bounds (by rwa [List.length_map]) hsizes
  have hsum : (keys.map fun key => key.length + 4 + 4).sum = keysSize keys := rfl
  simp only [cutInternal]
  generalize internalMidpoint (keys.map fun key => key.length + 4 + 4) = m
    at hpos hlast hleft hright ⊢
  rw [List.length_map] at hlast
  rw [← List.map_take, hsum] at hleft
  rw [← List.map_drop, hsum] at hright
  have hfits : max entryCap (keysSize keys / 2) ≤ PageSize - slotStart := by
    refine max_le (by omega) (by omega)
  obtain ⟨left, hrun, hpage⟩ := InternalPage.buildInternal leftID
    (show (kids.take (m + 1)).length = (keys.take m).length + 1 by simp; omega)
    (fun id hid => hlt id (List.mem_of_mem_take hid))
    (by change keysSize (keys.take m) ≤ _ at hleft; omega)
  obtain ⟨right, hrun', hpage'⟩ := InternalPage.buildInternal rightID
    (show (kids.drop (m + 1)).length = (keys.drop (m + 1)).length + 1 by simp; omega)
    (fun id hid => hlt id (List.mem_of_mem_drop hid))
    (by change keysSize (keys.drop (m + 1)) ≤ _ at hright; omega)
  have hm : m < keys.length := by omega
  refine ⟨keys.take m, keys[m], keys.drop (m + 1), kids.take (m + 1), kids.drop (m + 1), left,
    right, ?_, (List.take_append_drop _ _).symm, ?_, ?_, ?_, hpage, hpage'⟩
  · rw [← List.drop_eq_getElem_cons hm, List.take_append_drop]
  · exact List.ne_nil_of_length_pos (by rw [List.length_take]; omega)
  · exact List.ne_nil_of_length_pos (by rw [List.length_drop]; omega)
  · rw [hrun, hrun', List.getElem?_eq_getElem hm]
    rfl

/-- The halves of an internal node that has no room for the separator
`newKey`. -/
theorem splitChildren_spec (node : Node) (pageID : Nat) {ks ks' : List Bytes}
    {kids kids' : List Nat} {newKey : Bytes} {newChild : Nat}
    (h : InternalPage node.data (ks ++ ks') (kids ++ kids')) (hkids : kids.length = ks.length + 1)
    (hlow : ∀ k ∈ ks, k ≤ newKey) (hhigh : ∀ k ∈ ks', newKey < k) (hchild : newChild < 2 ^ 32)
    (hcap : ∀ k ∈ ks ++ newKey :: ks', k.length + 8 ≤ entryCap)
    (hfull : PageSize < slotStart + keysSize (ks ++ newKey :: ks')) :
    ∃ keys₁ median keys₂ kids₁ kids₂ left right,
      ks ++ newKey :: ks' = keys₁ ++ median :: keys₂ ∧
      kids ++ newChild :: kids' = kids₁ ++ kids₂ ∧ keys₁ ≠ [] ∧ keys₂ ≠ [] ∧
      splitChildren node newKey newChild pageID =
        some (⟨node.pageID, .nodeInternal, left⟩, median, ⟨pageID, .nodeInternal, right⟩) ∧
      InternalPage left keys₁ kids₁ ∧ InternalPage right keys₂ kids₂ := by
  have hps := pageSize_eq
  have hst := slotStart_eq
  have hec := entryCap_eq
  have hsize := h.keysSize_le
  have hlength := h.kids_length
  have hnew := hcap newKey (by simp)
  have hmany : 3 ≤ (ks ++ newKey :: ks').length := by
    have hbound := keysSize_le_of_length hcap
    by_contra hfew
    have hless : entryCap * (ks ++ newKey :: ks').length ≤ entryCap * 3 :=
      Nat.mul_le_mul_left _ (by omega)
    omega
  have hcut : splitChildren node newKey newChild pageID =
      cutInternal node.pageID pageID (ks ++ newKey :: ks') (kids ++ newChild :: kids') := by
    have hguard : 2 ≤ (ks ++ newKey :: ks').length := by omega
    simp only [splitChildren, h.internalKeys_eq, h.children_eq, h.binarySearchKeys hlow hhigh,
      Option.bind_eq_bind, Option.bind_some, List.take_left, List.drop_left, ← hkids, guard,
      if_pos hguard]
    rfl
  rw [hcut]
  refine cutInternal_spec ?_ ?_ hcap hmany ?_
  · simp at hlength ⊢
    omega
  · intro id hid
    rcases List.mem_append.mp hid with hid | hid
    · exact h.kids_lt id (List.mem_append_left _ hid)
    · rcases List.mem_cons.mp hid with rfl | hid
      · exact hchild
      · exact h.kids_lt id (List.mem_append_right _ hid)
  · rw [keysSize_append] at hsize ⊢
    rw [keysSize_cons]
    omega

/-! ### The splits of an insertion -/

theorem entriesSize_le_of_entryCap (h : ∀ e ∈ entries, entrySize e.1 e.2 ≤ entryCap) :
    entriesSize entries ≤ entryCap * entries.length := by
  induction entries with
  | nil => simp
  | cons e entries ih =>
    have he := h e (by simp)
    have hrest := ih fun e he => h e (List.mem_cons_of_mem _ he)
    rw [entrySize] at he
    rw [entriesSize_cons, List.length_cons, Nat.mul_succ]
    omega

/-- A leaf that does not hold a further entry even when compacted has at
least two entries. -/
theorem two_le_length_of_full {needed : Nat} (hcap : ∀ e ∈ entries, entrySize e.1 e.2 ≤ entryCap)
    (hneeded : needed ≤ entryCap) (hfull : PageSize < needed + (slotStart + entriesSize entries)) :
    2 ≤ entries.length := by
  have hps := pageSize_eq
  have hst := slotStart_eq
  have hec := entryCap_eq
  have hbound := entriesSize_le_of_entryCap hcap
  by_contra hfew
  have hless : entryCap * entries.length ≤ entryCap * 1 := Nat.mul_le_mul_left _ (by omega)
  omega

/-- Sorted separators split at a key. -/
theorem exists_split_of_sorted (h : keys.Pairwise (· < ·)) (key : Bytes) :
    ∃ ks ks', keys = ks ++ ks' ∧ (∀ k ∈ ks, k ≤ key) ∧ ∀ k ∈ ks', key < k := by
  induction keys with
  | nil => exact ⟨[], [], rfl, by simp, by simp⟩
  | cons k keys ih =>
    obtain ⟨hk, hkeys⟩ := List.pairwise_cons.mp h
    rcases le_or_gt k key with hle | hlt
    · obtain ⟨ks, ks', rfl, hlow, hhigh⟩ := ih hkeys
      exact ⟨k :: ks, ks', rfl, by simpa [hle] using hlow, hhigh⟩
    · refine ⟨[], k :: keys, rfl, by simp, ?_⟩
      intro k' hk'
      rcases List.mem_cons.mp hk' with rfl | hk'
      · exact hlt
      · exact hlt.trans (hk k' hk')

section Pages

variable {st : PageStore} {tree : BTree} {path : List Nat} {node left right : Node} {id : Nat}
  {key median : Bytes} {child : Nat}

/-- The two halves on their pages, the new page being the right one. -/
def splitStore (st : PageStore) (id : Nat) (left right : Node) : PageStore :=
  (st.allocated.write id left.data).write st.next right.data

theorem page_splitStore (left right : Node) (hid : id ≠ st.next) :
    (splitStore st id left right).page id = left.data ∧
      (splitStore st id left right).page st.next = right.data ∧
      ∀ i, i ≠ id → i ≠ st.next → (splitStore st id left right).page i = st.page i := by
  refine ⟨?_, PageStore.page_write_self, fun i hi hnext => ?_⟩
  · rw [splitStore, PageStore.page_write_of_ne hid, PageStore.page_write_self]
  · rw [splitStore, PageStore.page_write_of_ne hnext, PageStore.page_write_of_ne hi,
      PageStore.page_allocated hnext]

/-- `splitLeaf` writes both halves and hands the separator up. -/
theorem run_splitLeaf (h : splitEntries node st.next = some (left, median, right)) :
    PageStore.run (splitLeaf node path) tree st =
      PageStore.run (do
        pushUp median st.next path
        return (median, st.next)) tree (splitStore st node.pageID left right) := by
  rw [splitLeaf, PageStore.run_allocatePage, PageStore.run_orPanic h]
  rfl

/-- `splitInternal` does the same. -/
theorem run_splitInternal (pushUp : Bytes → Nat → TreeM Unit)
    (h : splitChildren node key child st.next = some (left, median, right)) :
    PageStore.run (splitInternal node key child pushUp) tree st =
      PageStore.run (pushUp median st.next) tree (splitStore st node.pageID left right) := by
  rw [splitInternal, PageStore.run_allocatePage, PageStore.run_orPanic h]
  rfl

/-- `pushUp` splits a parent without room. -/
theorem run_pushUp {kids : List Nat} (hparent : LooseInternal (st.page id) keys kids)
    (hfull : (st.internal id).findFreeSpace < key.length + 4 + 4 +
      (5 + ((st.internal id).keyCount + 1) * 4 + (st.internal id).keyCount * 4))
    (h : splitChildren (st.internal id) key child st.next = some (left, median, right)) :
    PageStore.run (pushUp key child (id :: path)) tree st =
      PageStore.run (pushUp median st.next path) tree (splitStore st id left right) := by
  rw [pushUp, PageStore.run_fetchInternal hparent, if_pos hfull]
  have hunpin := PageStore.silent_unpinPage (σ := BTree) id true
  exact (PageStore.run_cleanup hunpin _).trans
    ((PageStore.run_onError hunpin _).trans (run_splitInternal _ h))

end Pages

/-- The splits lose nothing and fit: of every leaf that `makeRoom` splits
and of every internal node that `pushUp` splits. Both halves are on their
pages, no other page changes, and the separator goes up. -/
theorem split_lossless (st : PageStore) (tree : BTree) (path : List Nat)
    (hnext : st.next < 2 ^ 32) :
    (∀ (node : Node) (entries : List (Bytes × Bytes)) (sibling live : Nat) (key value : Bytes),
      LeafPage node.data entries sibling → node.pageID ≠ st.next →
      (∀ e ∈ entries, entrySize e.1 e.2 ≤ entryCap) → entrySize key value ≤ entryCap →
      leafTooFull node (entrySize key value) = true → node.leafLiveBytes = some live →
      PageSize < entrySize key value + live →
      ∃ es e es' st',
        PageStore.run (splitLeaf node path) tree st =
          PageStore.run (do
            pushUp e.1 st.next path
            return (e.1, st.next)) tree st' ∧
        entries = es ++ e :: es' ∧ es ≠ [] ∧
        LeafPage (st'.page node.pageID) es st.next ∧ slotStart + entriesSize es ≤ PageSize ∧
        LeafPage (st'.page st.next) (e :: es') sibling ∧
        slotStart + entriesSize (e :: es') ≤ PageSize ∧
        ∀ i, i ≠ node.pageID → i ≠ st.next → st'.page i = st.page i) ∧
    (∀ (id : Nat) (keys : List Bytes) (kids : List Nat) (newKey : Bytes) (newChild : Nat),
      InternalPage (st.page id) keys kids → id ≠ st.next → keys.Pairwise (· < ·) →
      (∀ k ∈ keys, k.length + 8 ≤ entryCap) → newKey.length + 8 ≤ entryCap →
      newChild < 2 ^ 32 →
      (st.internal id).findFreeSpace < newKey.length + 4 + 4 +
        (5 + ((st.internal id).keyCount + 1) * 4 + (st.internal id).keyCount * 4) →
      ∃ ks ks' kids₀ kids₀' keys₁ median keys₂ kids₁ kids₂ st',
        PageStore.run (pushUp newKey newChild (id :: path)) tree st =
          PageStore.run (pushUp median st.next path) tree st' ∧
        (keys = ks ++ ks' ∧ (∀ k ∈ ks, k ≤ newKey) ∧ (∀ k ∈ ks', newKey < k)) ∧
        (kids = kids₀ ++ kids₀' ∧ kids₀.length = ks.length + 1) ∧
        ks ++ newKey :: ks' = keys₁ ++ [median] ++ keys₂ ∧ keys₁ ≠ [] ∧ keys₂ ≠ [] ∧
        kids₀ ++ newChild :: kids₀' = kids₁ ++ kids₂ ∧
        InternalPage (st'.page id) keys₁ kids₁ ∧ slotStart + keysSize keys₁ ≤ PageSize ∧
        InternalPage (st'.page st.next) keys₂ kids₂ ∧ slotStart + keysSize keys₂ ≤ PageSize ∧
        ∀ i, i ≠ id → i ≠ st.next → st'.page i = st.page i) := by
  refine ⟨?_, ?_⟩
  · intro node entries sibling live key value h hid hcap hneeded _ hlive hfull
    obtain rfl := Option.some.inj (h.leafLiveBytes_eq.symm.trans hlive)
    obtain ⟨es, e, es', left, right, hsplit, hne, hrun, hleft, hright⟩ :=
      splitEntries_spec node h (two_le_length_of_full hcap hneeded hfull) hnext
    obtain ⟨hpage, hpage', hothers⟩ := page_splitStore { node with data := left }
      ⟨st.next, .nodeLeaf, right⟩ hid
    refine ⟨es, e, es', _, run_splitLeaf hrun, hsplit, hne, ?_, ?_, ?_, ?_, hothers⟩
    · rw [hpage]
      exact hleft.toLeafPage
    · exact hleft.entriesSize_le (n := ⟨0, .nodeLeaf, left⟩)
    · rw [hpage']
      exact hright.toLeafPage
    · exact hright.entriesSize_le (n := ⟨0, .nodeLeaf, right⟩)
  · intro id keys kids newKey newChild h hid hsorted hcap hnew hchild hfull
    obtain ⟨ks, ks', rfl, hlow, hhigh⟩ := exists_split_of_sorted hsorted newKey
    have hlength := h.kids_length
    have hfree : (st.internal id).findFreeSpace + _ = _ := h.packed
    have hcount := LooseInternal.keyCount_eq (n := st.internal id) h.toLooseInternal
    have hst := slotStart_eq
    rw [List.length_append] at hlength hcount
    simp only [keysSize_append, List.length_append] at hfree
    obtain ⟨kids₀, kids₀', rfl, hkids₀⟩ : ∃ kids₀ kids₀', kids = kids₀ ++ kids₀' ∧
        kids₀.length = ks.length + 1 :=
      ⟨kids.take (ks.length + 1), kids.drop (ks.length + 1), by simp,
        List.length_take_of_le (by omega)⟩
    obtain ⟨keys₁, median, keys₂, kids₁, kids₂, left, right, hkeys, hkids, hne, hne', hrun, hleft,
      hright⟩ := splitChildren_spec (st.internal id) st.next h hkids₀ hlow hhigh hchild
        (by
          intro k hk
          rcases List.mem_append.mp hk with hk | hk
          · exact hcap k (List.mem_append_left _ hk)
          · rcases List.mem_cons.mp hk with rfl | hk
            · exact hnew
            · exact hcap k (List.mem_append_right _ hk))
        (by
          rw [keysSize_append, keysSize_cons]
          omega)
    obtain ⟨hpage, hpage', hothers⟩ := page_splitStore ⟨id, .nodeInternal, left⟩
      ⟨st.next, .nodeInternal, right⟩ hid
    refine ⟨ks, ks', kids₀, kids₀', keys₁, median, keys₂, kids₁, kids₂, _,
      run_pushUp h.toLooseInternal hfull hrun, ⟨rfl, hlow, hhigh⟩, ⟨rfl, hkids₀⟩,
      by simpa using hkeys, hne, hne', hkids, ?_, ?_, ?_, ?_, hothers⟩
    · rw [hpage]
      exact hleft
    · exact hleft.keysSize_le (n := ⟨0, .nodeInternal, left⟩)
    · rw [hpage']
      exact hright
    · exact hright.keysSize_le (n := ⟨0, .nodeInternal, right⟩)

/-- A leaf with three long values on page 3, and a node with three long
separators on page 4. -/
theorem split_lossless_three :
    ∃ st : PageStore, st.next = 7 ∧
      (∃ es e es' st' sibling, PageStore.run (splitLeaf (st.leaf 3) []) ⟨3⟩ st =
          PageStore.run (do
            pushUp e.1 7 []
            return (e.1, 7)) ⟨3⟩ st' ∧
        [[1], [2], [3]].map (fun key => (key, List.replicate 1300 (0 : UInt8))) = es ++ e :: es' ∧
        es ≠ [] ∧ LeafPage (st'.page 3) es 7 ∧ LeafPage (st'.page 7) (e :: es') sibling) ∧
      ∃ keys₁ median keys₂ kids₁ kids₂ st',
        PageStore.run (pushUp (4 :: List.replicate 1300 0) 9 [4]) ⟨4⟩ st =
          PageStore.run (pushUp median 7 []) ⟨4⟩ st' ∧ keys₁ ≠ [] ∧ keys₂ ≠ [] ∧
        InternalPage (st'.page 4) keys₁ kids₁ ∧ InternalPage (st'.page 7) keys₂ kids₂ := by
  have hentries : entriesSize ([[1], [2], [3]].map fun key => (key, List.replicate 1300 0)) =
      3927 := by
    decide +kernel
  have hkeys : keysSize ([1, 2, 3].map fun x => x :: List.replicate 1300 0) = 3927 := by
    decide +kernel
  have hps := pageSize_eq
  have hst := slotStart_eq
  obtain ⟨leaf, -, hleaf⟩ := PackedLeaf.rebuildLeaf (n := ⟨3, .nodeLeaf, makeNewLeafHeader⟩)
    (show slotStart + entriesSize ([[1], [2], [3]].map fun key => (key, List.replicate 1300 0)) ≤
      PageSize by omega)
  obtain ⟨page, -, hpage⟩ := InternalPage.buildInternal 4
    (show [4, 5, 6, 8].length = ([1, 2, 3].map fun x => x :: List.replicate 1300 0).length + 1 by
      decide) (by decide) (by omega)
  have hfree : Node.findFreeSpace ⟨3, .nodeLeaf, leaf⟩ + _ = PageSize + 24 := hleaf.packed
  have hfree' : Node.findFreeSpace ⟨4, .nodeInternal, page⟩ + _ = PageSize + 24 := hpage.packed
  have hcount : Node.keyCount ⟨3, .nodeLeaf, leaf⟩ = 3 := hleaf.count_eq
  have hcount' : Node.keyCount ⟨4, .nodeInternal, page⟩ = 3 := hpage.count_eq
  refine ⟨⟨fun id => if id = 3 then leaf else page, [], 7⟩, rfl, ?_, ?_⟩
  · obtain ⟨es, e, es', st', hrun, hsplit, hne, hleft, -, hright, -⟩ := (split_lossless
      ⟨fun id => if id = 3 then leaf else page, [], 7⟩ ⟨3⟩ [] (show 7 < 2 ^ 32 by decide)).1
      ⟨3, .nodeLeaf, leaf⟩ _ _ _ [4] (List.replicate 1300 0) hleaf.toLeafPage
      (show 3 ≠ 7 by decide)
      (by decide +kernel) (by decide +kernel)
      (by
        simp only [leafTooFull, entrySize, hcount, List.length_replicate, List.length_singleton,
          decide_eq_true_eq]
        omega)
      (LeafPage.leafLiveBytes_eq (n := ⟨3, .nodeLeaf, leaf⟩) hleaf.toLeafPage) (by decide +kernel)
    exact ⟨es, e, es', st', _, hrun, hsplit, hne, hleft, hright⟩
  · obtain ⟨-, -, -, -, keys₁, median, keys₂, kids₁, kids₂, st', hrun, -, -, -, hne, hne', -, hleft,
      -, hright, -⟩ := (split_lossless ⟨fun id => if id = 3 then leaf else page, [], 7⟩ ⟨4⟩ []
      (show 7 < 2 ^ 32 by decide)).2 4 _ _ (4 :: List.replicate 1300 0) 9 hpage
      (show 4 ≠ 7 by decide) (by decide +kernel) (by decide +kernel) (by decide +kernel) (by decide)
      (by
        change Node.findFreeSpace ⟨4, .nodeInternal, page⟩ < _ +
          (5 + (Node.keyCount ⟨4, .nodeInternal, page⟩ + 1) * 4 +
            Node.keyCount ⟨4, .nodeInternal, page⟩ * 4)
        simp only [hcount', List.length_cons, List.length_replicate]
        omega)
    exact ⟨keys₁, median, keys₂, kids₁, kids₂, st', hrun, hne, hne', hleft, hright⟩

end MySQLight.Storage.BTree
