import MySQLight.Storage.Splitting

/-!
The repair of an underfull leaf.

`rebalanceLeaf` looks at the leaves on both sides and takes an entry from
one of them or merges with it. What it chooses depends on the bytes of up to
three pages. The choice comes with enough room in every case: an entry has
at most a third of a page, so an underfull leaf has room for one more, and a
sibling that is too large to merge with has more than one entry to give.
-/

namespace MySQLight.Storage.BTree

open MySQLight.Data MySQLight.Effect

/-! ### The choice -/

/-- The sibling on a side. -/
def pick {α : Type} (left right : α) : Side → α
  | .left => left
  | .right => right

/-- What an action presupposes of the sibling it turns to. -/
def Suits (x : Sibling) : Action → Prop
  | .borrow _ => canLend (some x) = true ∨ mergeFits (some x) = some false
  | .merge _ => mergeFits (some x) = some true

/-- The action turns to a sibling that is there and suits it. -/
theorem chooseAction_forcedLeaf {left right : Option Sibling} (hsome : left ≠ none ∨ right ≠ none)
    {fitsLeft fitsRight : Bool} (hleft : mergeFits left = some fitsLeft)
    (hright : mergeFits right = some fitsRight) :
    ∃ a x, chooseAction forcedLeaf left right = some a ∧ pick left right a.side = some x ∧
      Suits x a := by
  have hnone {s : Option Sibling} (h : mergeFits s = some true ∨ canLend s = true) :
      ∃ x, s = some x := by
    cases s with
    | none => simp [mergeFits, canLend] at h
    | some x => exact ⟨x, rfl⟩
  unfold chooseAction
  split_ifs with hany hlend
  · rw [Bool.and_eq_true] at hlend
    obtain ⟨x, rfl⟩ := hnone (.inr hlend.1)
    exact ⟨_, x, rfl, rfl, .inl hlend.1⟩
  · have hlend' : canLend left = true := by
      by_contra hnot
      simp_all
    obtain ⟨x, rfl⟩ := hnone (.inr hlend')
    exact ⟨_, x, rfl, rfl, .inl hlend'⟩
  · rw [hleft, hright]
    cases fitsLeft with
    | true =>
      obtain ⟨x, rfl⟩ := hnone (.inl hleft)
      exact ⟨_, x, rfl, rfl, hleft⟩
    | false =>
      cases fitsRight with
      | true =>
        obtain ⟨x, rfl⟩ := hnone (.inl hright)
        exact ⟨_, x, rfl, rfl, hright⟩
      | false =>
        refine ⟨.borrow (forcedLeaf left right), ?_⟩
        unfold forcedLeaf
        split_ifs with hforced
        · obtain ⟨x, rfl⟩ := Option.isSome_iff_exists.mp (Bool.and_eq_true_iff.mp hforced).1
          exact ⟨x, rfl, rfl, .inr hleft⟩
        · cases right with
          | some x => exact ⟨x, rfl, rfl, .inr hright⟩
          | none =>
            cases left with
            | none => simp at hsome
            | some x => simp at hforced

/-! ### Leaves next to each other -/

/-- A sibling with these entries; a sibling that is not there has none. -/
def Neighbour (sibling : Option Node) (entries : List (Bytes × Bytes)) : Prop :=
  sibling = none ∧ entries = [] ∨
    ∃ n next, sibling = some n ∧ entries ≠ [] ∧ LeafPage n.data entries next

/-- An underfull leaf with its siblings, in a tree with entries of any
length that the tree accepts. -/
structure Underfull (left : Option Node) (leaf : Node) (right : Option Node)
    (ls es rs : List (Bytes × Bytes)) (next : Nat) : Prop where
  left_page : Neighbour left ls
  leaf_page : LeafPage leaf.data es next
  right_page : Neighbour right rs
  sibling : left ≠ none ∨ right ≠ none
  sorted : ((ls ++ es ++ rs).map Prod.fst).Pairwise (· < ·)
  capped : ∀ e ∈ ls ++ es ++ rs, entrySize e.1 e.2 ≤ entryCap
  live : ∃ bytes, leaf.leafLiveBytes = some bytes ∧ bytes < PageSize / 2

/-- Two pages next to each other, both with entries, and a separator between
them. -/
structure Divided (p : PageData) (as : List (Bytes × Bytes)) (separator : Bytes) (q : PageData)
    (bs : List (Bytes × Bytes)) : Prop where
  left : ∃ next, LeafPage p as next
  right : ∃ next, LeafPage q bs next
  left_ne : as ≠ []
  right_ne : bs ≠ []
  left_le : slotStart + entriesSize as ≤ PageSize
  right_le : slotStart + entriesSize bs ≤ PageSize
  below : ∀ e ∈ as, e.1 < separator
  above : ∀ e ∈ bs, separator ≤ e.1

/-- What an action does: the pages after it, with the entries of the leaves
in their old order, and what it leaves to the parent. -/
inductive Outcome (st : PageStore) (left : Option Node) (leaf : Node) (right : Option Node)
    (ls es rs : List (Bytes × Bytes)) (next : Nat) (parent : Node) (childIndex : Nat)
    (path : List Nat) (rebalance : Node → TreeM Unit) : Action → PageStore → TreeM Unit → Prop
  | borrowLeft {n : Node} {ls' : List (Bytes × Bytes)} {e : Bytes × Bytes} {st' : PageStore}
      (sibling : left = some n) (entries : ls = ls' ++ [e])
      (divided : Divided (st'.page n.pageID) ls' e.1 (st'.page leaf.pageID) (e :: es))
      (others : ∀ id, id ≠ n.pageID → id ≠ leaf.pageID → st'.page id = st.page id) :
      Outcome st left leaf right ls es rs next parent childIndex path rebalance (.borrow .left) st'
        do
          let _ ← update parent (·.replaceInternalKey (childIndex - 1) e.1)
  | borrowRight {n : Node} {rs' : List (Bytes × Bytes)} {e : Bytes × Bytes} {separator : Bytes}
      {st' : PageStore} (sibling : right = some n) (entries : rs = e :: rs')
      (divided : Divided (st'.page leaf.pageID) (es ++ [e]) separator (st'.page n.pageID) rs')
      (others : ∀ id, id ≠ n.pageID → id ≠ leaf.pageID → st'.page id = st.page id) :
      Outcome st left leaf right ls es rs next parent childIndex path rebalance (.borrow .right) st'
        do
          let _ ← update parent (·.replaceInternalKey childIndex separator)
  | mergeLeft {n : Node} {st' : PageStore} (sibling : left = some n)
      (page : LeafPage (st'.page n.pageID) (ls ++ es) next)
      (fits : slotStart + entriesSize (ls ++ es) ≤ PageSize)
      (others : ∀ id, id ≠ n.pageID → st'.page id = st.page id) :
      Outcome st left leaf right ls es rs next parent childIndex path rebalance (.merge .left) st'
        do
          let parent ← update parent (·.deleteInternalEntry (childIndex - 1 : Nat) childIndex)
          freePage leaf.pageID
          afterMerge parent path (rebalance parent)
  | mergeRight {n : Node} {st' : PageStore} (sibling : right = some n)
      (page : LeafPage (st'.page leaf.pageID) (es ++ rs) n.rightSibling)
      (fits : slotStart + entriesSize (es ++ rs) ≤ PageSize)
      (others : ∀ id, id ≠ leaf.pageID → st'.page id = st.page id) :
      Outcome st left leaf right ls es rs next parent childIndex path rebalance (.merge .right) st'
        do
          let parent ← update parent (·.deleteInternalEntry childIndex (childIndex + 1))
          freePage n.pageID
          afterMerge parent path (rebalance parent)

variable {leaf n : Node} {es ns as bs : List (Bytes × Bytes)} {e : Bytes × Bytes}
  {next next' : Nat}

/-- What a sibling with the entries `ns` offers to a leaf with the entries
`es`. -/
def offer (es ns : List (Bytes × Bytes)) (e : Bytes × Bytes) : Sibling :=
  ⟨slotStart + entriesSize ns, entrySize e.1 e.2, some (slotStart + entriesSize (es ++ ns))⟩

theorem leafSibling_eq {i : Node → Nat} (hleaf : LeafPage leaf.data es next)
    (hn : LeafPage n.data ns next') (hget : ns[i n]? = some e) :
    leafSibling leaf (some n) i = some (some (offer es ns e)) := by
  have hst := slotStart_eq
  have hjoin : slotStart + entriesSize es + (slotStart + entriesSize ns) - slotStart =
      slotStart + entriesSize (es ++ ns) := by
    rw [entriesSize_append]
    omega
  rw [leafSibling, hn.leafKey_eq hget, hn.leafValue_eq hget, hn.leafLiveBytes_eq,
    hleaf.leafLiveBytes_eq, offer, ← hjoin]
  rfl

theorem lastSlot_eq (hn : LeafPage n.data (ns ++ [e]) next) : lastSlot n = ns.length := by
  have hlive := hn.entriesSize_le
  have hps := pageSize_eq
  have hword := word_eq
  have hlen : ns.length < word := by
    rw [entriesSize_eq, List.length_append, List.length_singleton] at hlive
    omega
  rw [lastSlot, hn.keyCount_eq, List.length_append, List.length_singleton,
    show ns.length + 1 + word - 1 = ns.length + word by omega, Nat.add_mod_right,
    Nat.mod_eq_of_lt hlen]

/-- A leaf that lends an entry keeps another. -/
theorem ne_nil_of_suits {side : Side} (h : Suits (offer es ns e) (.borrow side))
    (hns : entriesSize ns = entrySize e.1 e.2 + entriesSize as)
    (hcap : entrySize e.1 e.2 ≤ entryCap) (hsmall : slotStart + entriesSize es < PageSize / 2) :
    as ≠ [] := by
  have hps := pageSize_eq
  have hst := slotStart_eq
  have hec := entryCap_eq
  rintro rfl
  rw [entriesSize_nil] at hns
  simp only [Suits, canLend, mergeFits, offer, entriesSize_append, Option.any_some,
    Option.bind_eq_bind, Option.bind_some, Option.some.injEq, decide_eq_true_eq, pure,
    decide_eq_false_iff_not] at h
  omega

/-- An entry more in a leaf that has been compacted. -/
theorem insert_packed (hn : PackedLeaf n.data (as ++ bs) next)
    (hfit : slotStart + entriesSize (as ++ e :: bs) ≤ PageSize) :
    ∃ data, n.insertLeafEntry e.1 e.2 as.length = some { n with data := data } ∧
      LeafPage data (as ++ e :: bs) next := by
  have hfree := hn.findFreeSpace_eq
  have hroom : slotStart + 8 * (as ++ bs).length + (e.1.length + e.2.length + 8) ≤
      n.findFreeSpace := by
    simp only [entriesSize_append, entriesSize_cons] at hfit hfree
    omega
  obtain ⟨data, hrun, hpage, -⟩ := hn.toLeafPage.insertLeafEntry hroom
  exact ⟨data, hrun, hpage⟩

theorem orPanic_some {σ α : Type} (a : α) : (orPanic (some a) : Proc DataI σ Err α) = pure a := rfl

/-- Entries in their order are divided by the first key on the right. -/
theorem Divided.of_sorted {p q : PageData} (hp : LeafPage p as next)
    (hq : LeafPage q (e :: bs) next') (hne : as ≠ [])
    (hsorted : ((as ++ e :: bs).map Prod.fst).Pairwise (· < ·)) :
    Divided p as e.1 q (e :: bs) := by
  rw [List.map_append, List.pairwise_append] at hsorted
  obtain ⟨-, hright, hacross⟩ := hsorted
  refine ⟨⟨_, hp⟩, ⟨_, hq⟩, hne, List.cons_ne_nil _ _,
    LeafPage.entriesSize_le (n := ⟨0, .nodeLeaf, p⟩) hp,
    LeafPage.entriesSize_le (n := ⟨0, .nodeLeaf, q⟩) hq, ?_, ?_⟩
  · intro x hx
    exact hacross x.1 (List.mem_map_of_mem hx) e.1 (by simp)
  · intro x hx
    rcases List.mem_cons.mp hx with rfl | hx
    · exact le_refl _
    · exact ((List.pairwise_cons.mp hright).1 x.1 (List.mem_map_of_mem hx)).le

/-! ### The actions -/

/-- Two pages after one of them has been written twice. -/
theorem page_borrow (st : PageStore) {a b : Nat} (p q r : PageData) (h : b ≠ a) :
    (((st.write a p).write b q).write a r).page a = r ∧
      (((st.write a p).write b q).write a r).page b = q ∧
      ∀ id, id ≠ b → id ≠ a → (((st.write a p).write b q).write a r).page id = st.page id := by
  refine ⟨by simp, by simp [h], fun id hb ha => ?_⟩
  simp [ha, hb]

theorem page_merge (st : PageStore) (a : Nat) (p q : PageData) :
    ((st.write a p).write a q).page a = q ∧
      ∀ id, id ≠ a → ((st.write a p).write a q).page id = st.page id :=
  ⟨by simp, fun id h => by simp [h]⟩

namespace Underfull

variable {left right : Option Node} {ls rs : List (Bytes × Bytes)} {parent : Node}
  {childIndex : Nat} {path : List Nat} {rebalance : Node → TreeM Unit} {tree : BTree}
  {st : PageStore}

/-- What is left to do after an action on the leaves. -/
abbrev Leaves (st : PageStore) (tree : BTree) (left : Option Node) (leaf : Node)
    (right : Option Node) (ls es rs : List (Bytes × Bytes)) (next : Nat) (parent : Node)
    (childIndex : Nat) (path : List Nat) (rebalance : Node → TreeM Unit) (a : Action) : Prop :=
  ∃ st' rest, Outcome st left leaf right ls es rs next parent childIndex path rebalance a st' rest ∧
    PageStore.run (applyLeaf leaf parent childIndex left right path rebalance a) tree st =
      PageStore.run rest tree st'

theorem small (h : Underfull left leaf right ls es rs next) :
    slotStart + entriesSize es < PageSize / 2 := by
  obtain ⟨bytes, hlive, hlt⟩ := h.live
  rw [h.leaf_page.leafLiveBytes_eq] at hlive
  exact Option.some.inj hlive ▸ hlt

/-- There is room for an entry more. -/
theorem room (h : Underfull left leaf right ls es rs next) (he : e ∈ ls ++ es ++ rs) :
    slotStart + (entriesSize es + (e.1.length + e.2.length + 8)) ≤ PageSize := by
  have hps := pageSize_eq
  have hec := entryCap_eq
  have hsmall := h.small
  have hcap := h.capped e he
  rw [entrySize] at hcap
  omega

theorem borrowLeft (h : Underfull left leaf right ls es rs next) (hleft : left = some n)
    (hid : n.pageID ≠ leaf.pageID) (hn : LeafPage n.data ls next') (hls : ls = as ++ [e])
    (hsuits : Suits (offer es ls e) (.borrow .left)) :
    Leaves st tree left leaf right ls es rs next parent childIndex path rebalance
      (.borrow .left) := by
  subst hleft hls
  have hroom := h.room (e := e) (by simp)
  have hkeep : as ≠ [] := ne_nil_of_suits hsuits (by simp [entrySize]; omega)
    (h.capped e (by simp)) h.small
  have hget : (as ++ [e])[as.length]? = some e := by simp
  obtain ⟨packed, hcompact, hpacked⟩ := PackedLeaf.compactLeaf h.leaf_page
  obtain ⟨shorter, hdelete, hshorter⟩ := hn.deleteLeafEntry
  rw [List.append_nil] at hshorter
  obtain ⟨longer, hinsert, hlonger⟩ := insert_packed (n := { leaf with data := packed })
    (show PackedLeaf packed ([] ++ es) next from hpacked)
    (show slotStart + entriesSize ([] ++ e :: es) ≤ PageSize by simp; omega)
  have hsorted := h.sorted
  rw [List.map_append, List.pairwise_append] at hsorted
  have hdivided := Divided.of_sorted hshorter hlonger hkeep (by simpa using hsorted.1)
  obtain ⟨hleafPage, hnPage, hothers⟩ := page_borrow st packed shorter longer hid
  refine ⟨_, _, .borrowLeft rfl rfl (by rwa [hnPage, hleafPage]) hothers, ?_⟩
  rw [List.length_nil] at hinsert
  simp only [applyLeaf, deref, update, orPanic_some, pure_bind, bind_assoc, lastSlot_eq hn,
    hn.leafKey_eq hget, hn.leafValue_eq hget, hcompact, hdelete, hinsert]
  rfl

theorem borrowRight (h : Underfull left leaf right ls es rs next) (hright : right = some n)
    (hid : n.pageID ≠ leaf.pageID) (hn : LeafPage n.data rs next') (hrs : rs = e :: bs)
    (hsuits : Suits (offer es rs e) (.borrow .right)) :
    Leaves st tree left leaf right ls es rs next parent childIndex path rebalance
      (.borrow .right) := by
  subst hright hrs
  have hroom := h.room (e := e) (by simp)
  have hkeep : bs ≠ [] := ne_nil_of_suits hsuits (by simp [entrySize])
    (h.capped e (by simp)) h.small
  obtain ⟨e', bs, rfl⟩ := List.exists_cons_of_ne_nil hkeep
  obtain ⟨packed, hcompact, hpacked⟩ := PackedLeaf.compactLeaf h.leaf_page
  obtain ⟨shorter, hdelete, hshorter⟩ :=
    LeafPage.deleteLeafEntry (n := n) (show LeafPage n.data ([] ++ e :: e' :: bs) next' from hn)
  obtain ⟨longer, hinsert, hlonger⟩ := insert_packed (n := { leaf with data := packed })
    (show PackedLeaf packed (es ++ []) next by simpa using hpacked)
    (show slotStart + entriesSize (es ++ e :: []) ≤ PageSize by simp; omega)
  have hseparator := LeafPage.leafKey_eq (n := { n with data := shorter }) (i := 0) hshorter rfl
  have hcount := LeafPage.keyCount_eq (n := { leaf with data := packed }) hpacked.toLeafPage
  have hsorted := h.sorted
  rw [List.append_assoc, List.map_append, List.pairwise_append] at hsorted
  have hdivided := Divided.of_sorted hlonger hshorter (by simp) (by simpa using hsorted.2.1)
  obtain ⟨hleafPage, hnPage, hothers⟩ := page_borrow st packed shorter longer hid
  refine ⟨_, _, .borrowRight rfl rfl (show Divided _ _ e'.1 _ _ by rwa [hnPage, hleafPage])
    hothers, ?_⟩
  rw [List.length_nil] at hdelete
  simp only [applyLeaf, deref, update, orPanic_some, pure_bind, bind_assoc,
    hn.leafKey_eq (i := 0) rfl, hn.leafValue_eq (i := 0) rfl, hcompact, hdelete, hcount, hinsert,
    hseparator]
  rfl

theorem mergeLeft (h : Underfull left leaf right ls es rs next) (hleft : left = some n)
    (hn : LeafPage n.data ls next') (hfit : slotStart + entriesSize (ls ++ es) ≤ PageSize) :
    Leaves st tree left leaf right ls es rs next parent childIndex path rebalance
      (.merge .left) := by
  subst hleft
  obtain ⟨rebuilt, hrebuild, hrebuilt⟩ := PackedLeaf.rebuildLeaf (n := n) hfit
  have hmerged := hrebuilt.toLeafPage.setRightSibling (n := { n with data := rebuilt })
    h.leaf_page.sibling_lt
  obtain ⟨hpage, hothers⟩ := page_merge st n.pageID rebuilt
    (Node.setRightSibling { n with data := rebuilt } next).data
  refine ⟨_, _, .mergeLeft rfl (by rwa [hpage]) hfit hothers, ?_⟩
  simp only [applyLeaf, deref, update, orPanic_some, pure_bind, bind_assoc, hn.leafEntries_eq,
    h.leaf_page.leafEntries_eq, hrebuild, h.leaf_page.rightSibling_eq]
  rfl

theorem mergeRight (h : Underfull left leaf right ls es rs next) (hright : right = some n)
    (hn : LeafPage n.data rs next') (hfit : slotStart + entriesSize (es ++ rs) ≤ PageSize) :
    Leaves st tree left leaf right ls es rs next parent childIndex path rebalance
      (.merge .right) := by
  subst hright
  obtain ⟨rebuilt, hrebuild, hrebuilt⟩ := PackedLeaf.rebuildLeaf (n := leaf) hfit
  have hmerged := hrebuilt.toLeafPage.setRightSibling (n := { leaf with data := rebuilt })
    (show n.rightSibling < 2 ^ 32 from hn.rightSibling_eq ▸ hn.sibling_lt)
  obtain ⟨hpage, hothers⟩ := page_merge st leaf.pageID rebuilt
    (Node.setRightSibling { leaf with data := rebuilt } n.rightSibling).data
  refine ⟨_, _, .mergeRight rfl (by rwa [hpage]) hfit hothers, ?_⟩
  simp only [applyLeaf, deref, update, orPanic_some, pure_bind, bind_assoc, hn.leafEntries_eq,
    h.leaf_page.leafEntries_eq, hrebuild]
  rfl

end Underfull

/-! ### The result -/

/-- What the choice sees of a sibling, where the entry it would lend is at
the place `i`. -/
theorem exists_offer {sibling : Option Node} {i : Node → Nat} (hleaf : LeafPage leaf.data es next)
    (hsibling : Neighbour sibling ns)
    (hlend : ∀ n next', LeafPage n.data ns next' → ns ≠ [] → ∃ e, ns[i n]? = some e) :
    ∃ o, leafSibling leaf sibling i = some o ∧ (sibling ≠ none → o ≠ none) ∧
      (∃ fits, mergeFits o = some fits) ∧ ∀ x, o = some x → ∃ n next' e, sibling = some n ∧
        LeafPage n.data ns next' ∧ ns[i n]? = some e ∧ x = offer es ns e := by
  rcases hsibling with ⟨rfl, rfl⟩ | ⟨n, next', rfl, hne, hn⟩
  · exact ⟨none, rfl, fun h => absurd rfl h, ⟨false, rfl⟩, nofun⟩
  · obtain ⟨e, he⟩ := hlend n next' hn hne
    refine ⟨some (offer es ns e), leafSibling_eq hleaf hn he, fun _ => nofun, ⟨_, rfl⟩, ?_⟩
    rintro _ ⟨⟩
    exact ⟨n, next', e, rfl, hn, he, rfl⟩

theorem join_le_of_suits {side : Side} (h : Suits (offer es ns e) (.merge side)) :
    slotStart + entriesSize (es ++ ns) ≤ PageSize := by
  have hfits : some (decide (slotStart + entriesSize (es ++ ns) ≤ PageSize)) = some true := h
  simpa using hfits

/-- The leaf that a key leads to, and the separators and children on both
sides of it. -/
structure Routed (st : PageStore) (parentID : Nat) (key : Bytes) (leaf : Node)
    (ks ks' : List Bytes) (before after : List Nat) : Prop where
  page : LooseInternal (st.page parentID) (ks ++ ks') (before ++ leaf.pageID :: after)
  length_before : before.length = ks.length
  low : ∀ k ∈ ks, k ≤ key
  high : ∀ k ∈ ks', key < k
  nodup : (before ++ leaf.pageID :: after).Nodup

section Run

variable {st : PageStore} {tree : BTree} {parentID : Nat} {key : Bytes} {path : List Nat}
  {ks ks' : List Bytes} {before after : List Nat} {ls rs : List (Bytes × Bytes)}

theorem run_fetchSibling {sibling : Option Nat} {present : Bool} {parent : Node} {i : Nat}
    (hpresent : present = sibling.isSome)
    (hchild : ∀ id, sibling = some id → parent.childPageID i = some id)
    (hpage : Neighbour (sibling.map st.leaf) ns) :
    PageStore.run (fetchSibling present parent i) tree st =
      ((.ok (sibling.map st.leaf), tree), st) := by
  subst hpresent
  cases sibling with
  | none => rfl
  | some id =>
    obtain ⟨hnone, -⟩ | ⟨_, _, ⟨⟩, -, hn⟩ := hpage
    · cases hnone
    · refine (PageStore.run_orPanic (hchild id rfl)).trans ?_
      rw [PageStore.run_fetchLeaf hn]
      rfl

theorem silent_unpinSibling (sibling : Option Node) (dirty : Bool) :
    PageStore.Silent (unpinSibling sibling dirty) := by
  cases sibling <;> exact fun _ _ => rfl

theorem Neighbour.lastEntry {sibling : Option Node} (h : Neighbour sibling ns) :
    sibling.elim (some ()) lastEntry = some () := by
  obtain ⟨rfl, -⟩ | ⟨n, next, rfl, hne, hn⟩ := h
  · rfl
  · obtain ⟨as, e, rfl⟩ := (List.eq_nil_or_concat' _).resolve_left hne
    have hget : (as ++ [e])[lastSlot n]? = some e := by
      rw [lastSlot_eq hn, List.getElem?_concat_length]
    rw [Option.elim_some, BTree.lastEntry, hn.leafKey_eq hget, hn.leafValue_eq hget]
    rfl

/-- `rebalanceLeaf` fetches the children next to the leaf, chooses and acts. -/
theorem Routed.run_rebalanceLeaf (h : Routed st parentID key leaf ks ks' before after)
    (hls : Neighbour (before.getLast?.map st.leaf) ls)
    (hrs : Neighbour (after.head?.map st.leaf) rs) {l r : Option Sibling} {action : Action}
    (hl : leafSibling leaf (before.getLast?.map st.leaf) lastSlot = some l)
    (hr : leafSibling leaf (after.head?.map st.leaf) (fun _ => 0) = some r)
    (hchoose : chooseAction forcedLeaf l r = some action) :
    PageStore.run (rebalanceLeaf leaf key (parentID :: path)) tree st =
      PageStore.run (applyLeaf leaf (st.internal parentID) ks.length (before.getLast?.map st.leaf)
        (after.head?.map st.leaf) path (rebalanceInternal key path) action) tree st := by
  have hcount : (st.internal parentID).keyCount = (ks ++ ks').length := h.page.count_eq
  have hkids := h.page.kids_length
  have hbefore := h.length_before
  have hchild {i id : Nat} (hid : (before ++ leaf.pageID :: after)[i]? = some id) :
      (st.internal parentID).childPageID i = some id :=
    LooseInternal.childPageID_eq (n := st.internal parentID) h.page hid
  have hleft : PageStore.run (fetchSibling (0 < ks.length) (st.internal parentID) (ks.length - 1))
      tree st = ((.ok (before.getLast?.map st.leaf), tree), st) := by
    refine run_fetchSibling ?_ (fun id hid => hchild ?_) hls
    · rw [Bool.eq_iff_iff]
      simp [← hbefore, List.length_pos_iff]
    · obtain ⟨front, rfl⟩ := List.getLast?_eq_some_iff.mp hid
      simp [← hbefore]
  have hright : PageStore.run (fetchSibling (ks.length < (st.internal parentID).keyCount)
      (st.internal parentID) (ks.length + 1)) tree st =
        ((.ok (after.head?.map st.leaf), tree), st) := by
    refine run_fetchSibling ?_ (fun id hid => hchild ?_) hrs
    · simp only [List.length_append, List.length_cons] at hkids
      rw [Bool.eq_iff_iff, hcount]
      simp [← List.length_pos_iff]
      omega
    · obtain ⟨rest, rfl⟩ := List.head?_eq_some_iff.mp hid
      simp [← hbefore]
  rw [rebalanceLeaf, withSiblings, PageStore.run_fetchInternal h.page,
    PageStore.run_defer (PageStore.silent_unpinPage _ _),
    PageStore.run_orPanic (LooseInternal.binarySearchKeys (n := st.internal parentID) h.page h.low
      h.high)]
  refine (PageStore.run_bind hleft).trans ((PageStore.run_orPanic hls.lastEntry).trans
    ((PageStore.run_bind ((PageStore.run_onError (silent_unpinSibling _ _) _).trans
      hright)).trans ?_))
  rw [bind_assoc, PageStore.run_orPanic hl, bind_assoc, PageStore.run_orPanic hr, bind_assoc,
    PageStore.run_orPanic hchoose, bind_assoc, PageStore.run_attempt]
  rcases PageStore.run (applyLeaf leaf (st.internal parentID) ks.length _ _ path
    (rebalanceInternal key path) action) tree st with ⟨⟨result, tree'⟩, st'⟩
  exact (PageStore.run_bind (silent_unpinSibling _ _ _ _)).trans
    (PageStore.run_bind (silent_unpinSibling _ _ _ _))

end Run

/-- The action that `rebalanceLeaf` chooses for an underfull leaf keeps the
entries in their order on pages that they fit on, and divides them by the
separator that it hands to the parent. -/
theorem rebalanceLeaf_outcome {st : PageStore} {parentID : Nat} {key : Bytes} {leaf : Node}
    {ks ks' : List Bytes} {before after : List Nat} {ls es rs : List (Bytes × Bytes)} {next : Nat}
    (hrouted : Routed st parentID key leaf ks ks' before after)
    (h : Underfull (before.getLast?.map st.leaf) leaf (after.head?.map st.leaf) ls es rs next)
    (tree : BTree) (path : List Nat) :
    ∃ action st' rest,
      Outcome st (before.getLast?.map st.leaf) leaf (after.head?.map st.leaf) ls es rs next
        (st.internal parentID) ks.length path (rebalanceInternal key path) action st' rest ∧
      PageStore.run (rebalanceLeaf leaf key (parentID :: path)) tree st =
        PageStore.run rest tree st' := by
  obtain ⟨leftSibling, hl, hlsome, ⟨_, hlfits⟩, hlofs⟩ := exists_offer (i := lastSlot) h.leaf_page
    h.left_page (by
      intro n next' hn hne
      obtain ⟨as, e, rfl⟩ := (List.eq_nil_or_concat' _).resolve_left hne
      exact ⟨e, by rw [lastSlot_eq hn, List.getElem?_concat_length]⟩)
  obtain ⟨rightSibling, hr, hrsome, ⟨_, hrfits⟩, hrofs⟩ := exists_offer (i := fun _ => 0)
    h.leaf_page h.right_page (by
      intro n next' hn hne
      obtain ⟨e, rs, rfl⟩ := List.exists_cons_of_ne_nil hne
      exact ⟨e, rfl⟩)
  obtain ⟨action, x, hchoose, hpick, hsuits⟩ :=
    chooseAction_forcedLeaf (h.sibling.imp hlsome hrsome) hlfits hrfits
  obtain ⟨hbefore, hafter⟩ :
      (∀ id ∈ before, id ≠ leaf.pageID) ∧ ∀ id ∈ after, id ≠ leaf.pageID := by
    have hnodup := List.nodup_append.mp hrouted.nodup
    exact ⟨fun id hid => hnodup.2.2 id hid _ List.mem_cons_self,
      fun id hid heq => (List.nodup_cons.mp hnodup.2.1).1 (heq ▸ hid)⟩
  suffices hleaves : Underfull.Leaves st tree (before.getLast?.map st.leaf) leaf
      (after.head?.map st.leaf) ls es rs next (st.internal parentID) ks.length path
      (rebalanceInternal key path) action by
    obtain ⟨st', rest, houtcome, hrun⟩ := hleaves
    exact ⟨action, st', rest, houtcome, (hrouted.run_rebalanceLeaf h.left_page h.right_page hl hr
      hchoose).trans hrun⟩
  rcases action with (_ | _) | (_ | _)
  · obtain ⟨n, next', e, hn, hpage, he, rfl⟩ := hlofs x hpick
    obtain rfl | ⟨as, b, rfl⟩ := List.eq_nil_or_concat' ls
    · cases he
    · obtain ⟨id, hid, rfl⟩ := Option.map_eq_some_iff.mp hn
      rw [lastSlot_eq hpage, List.getElem?_concat_length] at he
      exact h.borrowLeft hn (hbefore id (List.mem_of_getLast? hid)) hpage
        (by rw [Option.some.inj he]) hsuits
  · obtain ⟨n, next', e, hn, hpage, he, rfl⟩ := hrofs x hpick
    obtain ⟨bs, rfl⟩ : ∃ bs, rs = e :: bs := by
      cases rs with
      | nil => cases he
      | cons b bs => exact ⟨bs, by rw [Option.some.inj he]⟩
    obtain ⟨id, hid, rfl⟩ := Option.map_eq_some_iff.mp hn
    exact h.borrowRight hn (hafter id (List.mem_of_mem_head? hid)) hpage rfl hsuits
  · obtain ⟨n, next', e, hn, hpage, he, rfl⟩ := hlofs x hpick
    have hjoin := join_le_of_suits hsuits
    exact h.mergeLeft hn hpage (by rw [entriesSize_append] at hjoin ⊢; omega)
  · obtain ⟨n, next', e, hn, hpage, he, rfl⟩ := hrofs x hpick
    exact h.mergeRight hn hpage (join_le_of_suits hsuits)

/-- A leaf with a short entry, and to its right one with three long
entries: the leaves are too large for a page, and one entry moves. -/
theorem rebalanceLeaf_outcome_borrow :
    ∃ (st st' : PageStore) (separator : Bytes),
      PageStore.run (rebalanceLeaf (st.leaf 3) [1] [2]) ⟨2⟩ st =
        PageStore.run (do
          let _ ← update (st.internal 2) (·.replaceInternalKey 0 separator)) ⟨2⟩ st' ∧
      Divided (st'.page 3) [([1], List.replicate 300 0), ([2], List.replicate 1300 0)] separator
        (st'.page 4) [([3], List.replicate 1300 0), ([4], List.replicate 1300 0)] := by
  have hleafSize : entriesSize [([1], List.replicate 300 0)] = 309 := by decide +kernel
  have hrightSize : entriesSize [([2], List.replicate 1300 0), ([3], List.replicate 1300 0),
      ([4], List.replicate 1300 0)] = 3927 := by decide +kernel
  have hps := pageSize_eq
  have hst := slotStart_eq
  obtain ⟨p, -, hp⟩ := PackedLeaf.rebuildLeaf (n := ⟨3, .nodeLeaf, makeNewLeafHeader⟩)
    (show slotStart + entriesSize [([1], List.replicate 300 0)] ≤ PageSize by omega)
  obtain ⟨q, -, hq⟩ := PackedLeaf.rebuildLeaf (n := ⟨4, .nodeLeaf, makeNewLeafHeader⟩)
    (show slotStart + entriesSize [([2], List.replicate 1300 0), ([3], List.replicate 1300 0),
      ([4], List.replicate 1300 0)] ≤ PageSize by omega)
  obtain ⟨parent, -, hparent⟩ := InternalPage.buildInternal 2
    (show [3, 4].length = [[2]].length + 1 from rfl) (by decide)
    (show slotStart + keysSize [[2]] ≤ PageSize by decide)
  obtain ⟨st, rfl, rfl, rfl⟩ : ∃ st : PageStore, st.page 2 = parent ∧ st.page 3 = p ∧
      st.page 4 = q :=
    ⟨⟨fun id => if id = 2 then parent else if id = 3 then p else q, [], 5⟩, rfl, rfl, rfl⟩
  have hleaf := LeafPage.leafLiveBytes_eq (n := st.leaf 3) hp.toLeafPage
  have hrouted : Routed st 2 [1] (st.leaf 3) [] [[2]] [] [4] :=
    ⟨hparent.toLooseInternal, rfl, by simp, by decide, by simp⟩
  obtain ⟨action, st', rest, houtcome, hrun⟩ := rebalanceLeaf_outcome hrouted
    ⟨.inl ⟨rfl, rfl⟩, hp.toLeafPage, .inr ⟨_, _, rfl, List.cons_ne_nil _ _, hq.toLeafPage⟩,
      .inr (by simp),
      by decide +kernel, by decide +kernel, _, hleaf, by omega⟩ ⟨2⟩ []
  cases houtcome with
  | borrowLeft sibling => cases sibling
  | mergeLeft sibling => cases sibling
  | mergeRight sibling page fits =>
    rw [entriesSize_append] at fits
    omega
  | borrowRight sibling entries divided =>
    cases sibling
    cases entries
    exact ⟨st, st', _, hrun, divided⟩

end MySQLight.Storage.BTree
