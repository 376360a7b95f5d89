import MySQLight.Effect.Runs
import MySQLight.Storage.OrderedTree
import MySQLight.Storage.PageStore

/-!
Trees of one page.

A tree whose root is a leaf is the ordered map that the layers above take
it for: `Get`, `Insert`, `Delete` and a scan have the outcomes of the map,
and an insertion that fits on the page keeps the root where it is. The
layers above open a tree at the page that the catalog has as its root. When
the root splits, the new root is another page, and the one they open is
only the left half of the leaves.
-/

namespace MySQLight.Storage

open MySQLight.Data MySQLight.Effect OrderedMap

/-- The root of the tree is a leaf that has not been split, with the entries
of the map. -/
def Unsplit (st : PageStore) (root : Nat) (t : OrderedTree) : Prop :=
  LeafPage (st.page root) t.entries 0

/-- The entries fit on a page. -/
def OrderedTree.FitsPage (t : OrderedTree) : Prop := slotStart + entriesSize t.entries ≤ PageSize

instance (t : OrderedTree) : Decidable t.FitsPage := inferInstanceAs (Decidable (_ ≤ _))

namespace BTree

open PageStore

/-! ### Search -/

section Search

variable {α : Type} {st : PageStore} {root : Nat} {t : OrderedTree} {n : Node} {key : Bytes}
  {es rest : List (Bytes × Bytes)} {next : Nat} {tree : BTree}

theorem binarySearchKeys_leaf (h : LeafPage n.data (es ++ rest) next) (hlow : ∀ e ∈ es, e.1 < key)
    (hhigh : ∀ e ∈ rest, key ≤ e.1) : binarySearchKeys n key true = some es.length := by
  refine bisect_eq ?_ (Nat.zero_le _) (by rw [h.keyCount_eq]; simp) (by omega)
  intro i _ hi
  rw [h.keyCount_eq] at hi
  have hget : (es ++ rest)[i]? = some (es ++ rest)[i] := List.getElem?_eq_getElem hi
  simp only [h.leafKey_eq hget, Option.bind_eq_bind, Option.bind_some, if_true]
  congr 1
  rw [Bool.eq_iff_iff, beq_iff_eq, compareBytes_eq_lt, decide_eq_true_eq]
  by_cases hlt : i < es.length
  · rw [List.getElem_append_left hlt]
    exact ⟨fun _ => hlt, fun _ => hlow _ (List.getElem_mem _)⟩
  · rw [List.getElem_append_right (by omega)]
    exact ⟨fun hk => absurd hk (hhigh _ (List.getElem_mem _)).not_gt, fun h => absurd h hlt⟩

theorem run_keyAt (h : LeafPage n.data (es ++ rest) next) (f : Bool → TreeM α) :
    run (keyAt n es.length key >>= f) tree st = run (f (rest.head?.any (·.1 == key))) tree st := by
  have hcount := h.keyCount_eq
  cases rest with
  | nil =>
    rw [keyAt, if_neg (by simp [hcount])]
    rfl
  | cons e rest =>
    have hkey := h.leafKey_eq (i := es.length) (e := e) (by simp)
    rw [keyAt, if_pos (by simp [hcount]), hkey]
    rfl

theorem absent_of_around (h : Around es key rest) : rest.head?.any (·.1 == key) = false := by
  cases rest with
  | nil => rfl
  | cons e rest => simpa using (h.2 e (by simp)).ne'

/-- What the search in the only leaf finds out about a key, and the steps
with which all operations begin. -/
theorem exists_place (h : Unsplit st root t) (key : Bytes) :
    ∃ es es', Around es key es' ∧ binarySearchKeys (st.leaf root) key true = some es.length ∧
      (∀ tree (f : Node → Nat → Bool → TreeM α),
        run (fetchNode root >>= fun n => orPanic (binarySearchKeys n key true) >>= fun i =>
          keyAt n i key >>= f n i) tree st =
            run (f (st.leaf root) es.length (t.lookup key).isSome) tree st) ∧
      ((∃ v, t.lookup key = some v ∧ t.entries = es ++ (key, v) :: es') ∨
        t.lookup key = none ∧ t.entries = es ++ es') := by
  obtain ⟨es, es', haround, hcut⟩ := t.map.cut key
  refine ⟨es, es', haround, ?_⟩
  rcases hcut with ⟨v, hlookup, hentries⟩ | ⟨hlookup, hentries⟩
  all_goals
    have hpage : LeafPage (st.leaf root).data t.map.entries 0 := h
    rw [hentries] at hpage
    rw [show t.lookup key = _ from hlookup]
  · have hsearch := binarySearchKeys_leaf hpage haround.1 (List.forall_mem_cons.mpr
      ⟨le_refl _, fun e he => (haround.2 e he).le⟩)
    refine ⟨hsearch, fun tree f => ?_, .inl ⟨v, rfl, hentries⟩⟩
    rw [run_fetchLeaf h, run_orPanic hsearch, run_keyAt hpage, List.head?_cons, Option.any_some,
      beq_self_eq_true]
    rfl
  · have hsearch := binarySearchKeys_leaf hpage haround.1 fun e he => (haround.2 e he).le
    refine ⟨hsearch, fun tree f => ?_, .inr ⟨rfl, hentries⟩⟩
    rw [run_fetchLeaf h, run_orPanic hsearch, run_keyAt hpage, absent_of_around haround]
    rfl

theorem run_findLeaf (h : Unsplit st root t) (f : Nat × List Nat → TreeM α) :
    run (findLeaf key >>= f) ⟨root⟩ st = run (f (root, [])) ⟨root⟩ st := by
  refine run_bind ?_
  change run (findLeafRecursive key (pageNumbers - 1 + 1) root []) ⟨root⟩ st = _
  rw [findLeafRecursive, run_fetchLeaf h]
  rfl

/-- `Get`. -/
theorem run_get (h : Unsplit st root t) :
    run (get key) ⟨root⟩ st = (((t.lookup key).elim (.error .notFound) .ok, ⟨root⟩), st) := by
  obtain ⟨es, es', -, -, hplace, hcases⟩ := exists_place h key
  rw [get, run_findLeaf h, hplace]
  rcases hcases with ⟨v, hlookup, hentries⟩ | ⟨hlookup, -⟩
  · have hvalue : (st.leaf root).leafValue es.length = some v :=
      LeafPage.leafValue_eq (n := st.leaf root) (e := (key, v)) h (by rw [hentries]; simp)
    rw [hlookup, Option.isSome_some, if_pos rfl, run_orPanic hvalue]
    rfl
  · rw [hlookup]
    rfl

end Search

/-! ### Changes -/

section Changes

variable {α : Type} {st : PageStore} {root : Nat} {t : OrderedTree} {n : Node}
  {key value : Bytes} {entries : List (Bytes × Bytes)} {next : Nat}

/-- Where the entries and one more fit on a page, there is no split. -/
theorem run_makeRoom (h : LeafPage n.data entries next) (key value : Bytes)
    (hfit : slotStart + (entriesSize entries + entrySize key value) ≤ PageSize) (path : List Nat)
    (tree : BTree) (st : PageStore) :
    ∃ n' st', n'.pageID = n.pageID ∧ LeafPage n'.data entries next ∧
      leafTooFull n' (entrySize key value) = false ∧
      (∀ id, id ≠ n.pageID → st'.page id = st.page id) ∧
      ∀ f : Node → TreeM α,
        run (makeRoom n path key value >>= f) tree st = run (f n') tree st' := by
  by_cases hfull : leafTooFull n (entrySize key value) = true
  · obtain ⟨data, hrun, hpacked⟩ := PackedLeaf.compactLeaf h
    have hfree := PackedLeaf.findFreeSpace_eq (n := { n with data := data }) hpacked
    have hcount := LeafPage.keyCount_eq (n := { n with data := data }) hpacked.toLeafPage
    refine ⟨{ n with data := data }, st.write n.pageID data, rfl, hpacked.toLeafPage, ?_,
      fun id hid => page_write_of_ne hid, fun f => ?_⟩
    · rw [leafTooFull, hcount, decide_eq_false_iff_not]
      omega
    · rw [makeRoom, if_pos hfull, bind_assoc, run_orPanic h.leafLiveBytes_eq, if_pos (by omega),
        run_update hrun]
  · refine ⟨n, st, rfl, h, by simpa using hfull, fun _ _ => rfl, fun f => ?_⟩
    rw [makeRoom, if_neg hfull]
    rfl

theorem run_insert_of_lookup (h : Unsplit st root t) (hcap : entrySize key value ≤ entryCap)
    {v : Bytes} (hlookup : t.lookup key = some v) :
    run (insert key value) ⟨root⟩ st = ((.error .duplicateKey, ⟨root⟩), st) := by
  obtain ⟨es, es', -, -, hplace, -⟩ := exists_place h key
  rw [insert, if_neg (Nat.not_lt.mpr hcap)]
  refine (run_findLeaf h _).trans ((hplace _ _).trans ?_)
  rw [hlookup]
  rfl

theorem run_insert_of_fits (h : Unsplit st root t) (hcap : entrySize key value ≤ entryCap)
    (hlookup : t.lookup key = none) (hfits : (t.bind key value hcap).FitsPage) :
    ∃ st', run (insert key value) ⟨root⟩ st = ((.ok (), ⟨root⟩), st') ∧
      Unsplit st' root (t.bind key value hcap) ∧ ∀ id, id ≠ root → st'.page id = st.page id := by
  obtain ⟨es, es', haround, -, hplace, hcases⟩ := exists_place h key
  have hentries : t.entries = es ++ es' := by simpa [hlookup] using hcases
  have hnew : (t.bind key value hcap).entries = es ++ (key, value) :: es' :=
    entries_insert_of_cut haround hentries
  have hroom : slotStart + (entriesSize t.entries + entrySize key value) ≤ PageSize := by
    rw [OrderedTree.FitsPage, hnew, entriesSize_append, entriesSize_cons] at hfits
    rw [hentries, entriesSize_append]
    change _ + (_ + (entrySize key value + _)) ≤ _ at hfits
    omega
  obtain ⟨n, st₁, hid, hpage, hfree, hothers, hmakeRoom⟩ := run_makeRoom (α := Unit)
    (n := st.leaf root) h key value hroom [] ⟨root⟩ st
  have hsearch' := binarySearchKeys_leaf (hentries ▸ hpage) haround.1
    fun e he => (haround.2 e he).le
  obtain ⟨data, hinsert, hdata, -⟩ := LeafPage.insertLeafEntry (n := n) (hentries ▸ hpage)
    (show slotStart + 8 * (es ++ es').length + (key.length + value.length + 8) ≤
        n.findFreeSpace by
      rw [leafTooFull, decide_eq_false_iff_not, hpage.keyCount_eq, hentries, entrySize] at hfree
      omega)
  refine ⟨st₁.write root data, ?_, ?_, fun id hne => ?_⟩
  · rw [insert, if_neg (Nat.not_lt.mpr hcap)]
    refine (run_findLeaf h _).trans ((hplace _ _).trans ?_)
    rw [hlookup]
    refine (hmakeRoom _).trans ((run_orPanic hsearch').trans
      ((run_keyAt (hentries ▸ hpage) _).trans ?_))
    rw [absent_of_around haround, if_neg (by simp), hfree, if_neg (by simp)]
    refine (run_update hinsert _).trans ?_
    rw [hid]
    rfl
  · rw [Unsplit, page_write_self, hnew]
    exact hdata
  · rw [page_write_of_ne hne, hothers id hne]

/-- `Insert`. -/
theorem run_insert (h : Unsplit st root t)
    (hfits : ∀ t', t.insert key value = .ok t' → t'.FitsPage) :
    ∃ st', run (insert key value) ⟨root⟩ st =
        (((t.insert key value).map fun _ => (), ⟨root⟩), st') ∧
      Unsplit st' root ((t.insert key value).toOption.getD t) ∧
      ∀ id, id ≠ root → st'.page id = st.page id := by
  rw [OrderedTree.insert] at hfits ⊢
  by_cases hcap : entrySize key value ≤ entryCap
  · rw [dif_pos hcap] at hfits ⊢
    cases hlookup : t.lookup key with
    | some v =>
      exact ⟨st, run_insert_of_lookup h hcap hlookup, h, fun _ _ => rfl⟩
    | none =>
      rw [hlookup] at hfits
      exact run_insert_of_fits h hcap hlookup (hfits _ rfl)
  · rw [dif_neg hcap]
    refine ⟨st, ?_, h, fun _ _ => rfl⟩
    rw [insert, if_pos (Nat.lt_of_not_le hcap)]
    rfl

/-- `Delete`. -/
theorem run_delete (h : Unsplit st root t) :
    ∃ st', run (delete key) ⟨root⟩ st = (((t.delete key).map fun _ => (), ⟨root⟩), st') ∧
      Unsplit st' root ((t.delete key).toOption.getD t) ∧
      ∀ id, id ≠ root → st'.page id = st.page id := by
  obtain ⟨es, es', haround, -, hplace, hcases⟩ := exists_place h key
  rw [OrderedTree.delete]
  rcases hcases with ⟨v, hlookup, hentries⟩ | ⟨hlookup, -⟩
  · have hpage : LeafPage (st.leaf root).data (es ++ (key, v) :: es') 0 := hentries ▸ h
    have hnew : (t.unbind key).entries = es ++ es' := entries_erase_of_cut haround hentries
    obtain ⟨data, hdelete, hdata⟩ := hpage.deleteLeafEntry
    refine ⟨st.write root data, ?_, ?_, fun id hne => page_write_of_ne hne⟩
    · refine (run_findLeaf h _).trans ((hplace _ _).trans ?_)
      rw [hlookup]
      exact (run_update hdelete _).trans rfl
    · rw [hlookup]
      change LeafPage ((st.write root data).page root) (t.unbind key).entries 0
      rw [page_write_self, hnew]
      exact hdata
  · refine ⟨st, ?_, ?_, fun _ _ => rfl⟩
    · refine (run_findLeaf h _).trans ((hplace _ _).trans ?_)
      rw [hlookup]
      rfl
    · rw [hlookup]
      exact h

end Changes

end BTree

/-- A call that changes a tree. -/
inductive TreeOp
  | insert (key value : Bytes)
  | delete (key : Bytes)

namespace TreeOp

/-- The call on the pages. -/
def onPages : TreeOp → TreeM Unit
  | insert key value => BTree.insert key value
  | delete key => BTree.delete key

/-- The call on the map. -/
def onMap (t : OrderedTree) : TreeOp → Except Err OrderedTree
  | insert key value => t.insert key value
  | delete key => t.delete key

/-- The map after a call. -/
def next (t : OrderedTree) (op : TreeOp) : OrderedTree := (op.onMap t).toOption.getD t

/-- The outcomes of some calls, and the map after them. -/
def runMap : List TreeOp → OrderedTree → List (Except Err Unit) × OrderedTree
  | [], t => ([], t)
  | op :: ops, t =>
    let rest := runMap ops (op.next t)
    ((op.onMap t).map (fun _ => ()) :: rest.1, rest.2)

/-- The outcomes of some calls, each of which opens the tree at the page
`root`, and the pages after them. -/
def runPages (root : Nat) : List TreeOp → PageStore → List (Except Err Unit) × PageStore
  | [], st => ([], st)
  | op :: ops, st =>
    let r := PageStore.run op.onPages ⟨root⟩ st
    let rest := runPages root ops r.2
    (r.1.1 :: rest.1, rest.2)

variable {st : PageStore} {root : Nat} {t : OrderedTree}

theorem run_onPages (h : Unsplit st root t) (op : TreeOp) (hfits : (op.next t).FitsPage) :
    ∃ st', PageStore.run op.onPages ⟨root⟩ st = (((op.onMap t).map fun _ => (), ⟨root⟩), st') ∧
      Unsplit st' root (op.next t) ∧ ∀ id, id ≠ root → st'.page id = st.page id := by
  cases op with
  | insert key value =>
    refine BTree.run_insert h fun t' ht' => ?_
    rwa [next, onMap, ht'] at hfits
  | delete key => exact BTree.run_delete h

/-- The pages refine the map as long as the entries fit on the page of the
root: the same outcomes, and no page but the root changes. -/
theorem runPages_refines (h : Unsplit st root t) (ops : List TreeOp)
    (hfits : Effect.Along next (fun t op => (op.next t).FitsPage) ops t) :
    (runPages root ops st).1 = (runMap ops t).1 ∧
      Unsplit (runPages root ops st).2 root (runMap ops t).2 ∧
      ∀ id, id ≠ root → (runPages root ops st).2.page id = st.page id := by
  induction ops generalizing st t with
  | nil => exact ⟨rfl, h, fun _ _ => rfl⟩
  | cons op ops ih =>
    obtain ⟨st', hrun, hunsplit, hothers⟩ := run_onPages h op hfits.1
    obtain ⟨houtcomes, hend, hrest⟩ := ih hunsplit hfits.2
    rw [runPages, runMap, hrun]
    exact ⟨congrArg _ houtcomes, hend, fun id hid => (hrest id hid).trans (hothers id hid)⟩

end TreeOp

/-! ### Scans -/

/-- What a caller reads who asks for the next entry until there is none. -/
def LeafIterator.all : Nat → LeafIterator.IterM (List (Bytes × Bytes))
  | 0 => throw .panic
  | fuel + 1 => do
      match ← next with
      | none => return []
      | some e => return e :: (← all fuel)

/-- The entries of a scan that opens the tree at the page `root`. A tree has
fewer entries than a file has bytes. -/
def PageStore.scan (st : PageStore) (root : Nat) (start stop : Option Bytes) :
    Except Err (List (Bytes × Bytes)) :=
  match PageStore.run (BTree.scan start stop) ⟨root⟩ st with
  | ((.error e, _), _) => .error e
  | ((.ok it, _), st') => (PageStore.run (LeafIterator.all (pageNumbers * PageSize)) it st').1.1

section Scan

open PageStore

variable {st : PageStore} {root : Nat} {t : OrderedTree} {it : LeafIterator}
  {es rest : List (Bytes × Bytes)}

/-- The entry is in front of the end of a scan. -/
def before (stop : Option Bytes) (e : Bytes × Bytes) : Bool :=
  stop.all (compareBytes e.1 · = .lt)

theorem run_close {α : Type} (hopen : it.closed = false) (f : Unit → LeafIterator.IterM α) :
    run (LeafIterator.close >>= f) it st = run (f ()) { it with closed := true } st := by
  have hclose : run LeafIterator.close it st = ((.ok (), { it with closed := true }), st) := by
    change run (if it.closed then _ else _) it st = _
    rw [hopen]
    rfl
  exact run_bind hclose

/-- `Next`, in front of the entries `rest` of the only leaf. -/
theorem run_next (h : LeafPage it.node.data (es ++ rest) 0) (hslot : it.slot = es.length)
    (hopen : it.closed = false) (st : PageStore) :
    ∃ it', run LeafIterator.next it st =
        ((.ok (rest.head?.filter (before it.end)), it'), st) ∧
      ∀ e, rest.head?.filter (before it.end) = some e → it' = { it with slot := it.slot + 1 } := by
  have hcount := h.keyCount_eq
  have hskip : run (LeafIterator.skipExhausted (pageNumbers - 1 + 1)) it st =
      ((.ok !rest.isEmpty, it), st) := by
    rw [LeafIterator.skipExhausted]
    change run (if it.slot < it.node.keyCount then _ else _) it st = _
    cases rest with
    | nil =>
      rw [if_neg (by simp [hcount, hslot]), h.rightSibling_eq]
      rfl
    | cons e rest =>
      rw [if_pos (by simp [hcount, hslot])]
      rfl
  change ∃ it', run (if it.closed then _ else _) it st = _ ∧ _
  rw [if_neg (by simp [hopen])]
  cases rest with
  | nil => exact ⟨_, (run_bind hskip).trans (run_close hopen _), by simp⟩
  | cons e rest =>
    have hget : (es ++ e :: rest)[it.slot]? = some e := by simp [hslot]
    have hbefore : before it.end e = !it.end.any fun stop => compareBytes e.1 stop != .lt := by
      cases it.end <;> rw [Bool.eq_iff_iff] <;> simp [before]
    rw [List.head?_cons, Option.filter_some, hbefore]
    cases hend : it.end.any fun stop => compareBytes e.1 stop != .lt with
    | true =>
      refine ⟨{ it with closed := true }, (run_bind hskip).trans
        ((run_orPanic (h.leafKey_eq hget)).trans
          ((run_orPanic (h.leafValue_eq hget)).trans ?_)), by simp⟩
      rw [hend]
      exact run_close hopen _
    | false =>
      refine ⟨_, (run_bind hskip).trans ((run_orPanic (h.leafKey_eq hget)).trans
        ((run_orPanic (h.leafValue_eq hget)).trans ?_)), fun _ _ => rfl⟩
      rw [hend]
      rfl

theorem run_all (h : LeafPage it.node.data (es ++ rest) 0) (hslot : it.slot = es.length)
    (hopen : it.closed = false) {fuel : Nat} (hfuel : rest.length < fuel) (st : PageStore) :
    (run (LeafIterator.all fuel) it st).1.1 = .ok (rest.takeWhile (before it.end)) := by
  induction rest generalizing es it fuel with
  | nil =>
    obtain ⟨fuel, rfl⟩ := Nat.exists_eq_add_one_of_ne_zero (Nat.ne_zero_of_lt hfuel)
    obtain ⟨it', hnext, -⟩ := run_next h hslot hopen st
    rw [LeafIterator.all, run_bind hnext]
    rfl
  | cons e rest ih =>
    obtain ⟨fuel, rfl⟩ := Nat.exists_eq_add_one_of_ne_zero (Nat.ne_zero_of_lt hfuel)
    obtain ⟨it', hnext, hmoved⟩ := run_next h hslot hopen st
    rw [LeafIterator.all, run_bind hnext, List.takeWhile_cons, List.head?_cons,
      Option.filter_some]
    rw [List.head?_cons, Option.filter_some] at hmoved
    cases hbefore : before it.end e with
    | false => rfl
    | true =>
      obtain rfl := hmoved e (by rw [hbefore]; rfl)
      have hrest : LeafPage it.node.data ((es ++ [e]) ++ rest) 0 := by simpa using h
      have hall := @ih { it with slot := it.slot + 1 } (es ++ [e]) hrest (by simp [hslot])
        hopen fuel (Nat.lt_of_succ_lt_succ hfuel)
      rcases hrun : run (LeafIterator.all fuel) { it with slot := it.slot + 1 } st
        with ⟨⟨r, it'⟩, st'⟩
      rw [hrun] at hall
      obtain rfl : r = _ := hall
      change (run (LeafIterator.all fuel >>= fun rest => pure (e :: rest)) _ st).1.1 = _
      rw [run_bind hrun]
      rfl

/-- The entries in front of the end come first. -/
theorem takeWhile_before (h : rest.Pairwise fun a b => a.1 < b.1) (stop : Option Bytes) :
    rest.takeWhile (before stop) = rest.filter (before stop) := by
  induction rest with
  | nil => rfl
  | cons e rest ih =>
    obtain ⟨he, hrest⟩ := List.pairwise_cons.mp h
    rw [List.takeWhile_cons, List.filter_cons, ih hrest]
    split_ifs with hbefore
    · rfl
    · refine (List.filter_eq_nil_iff.mpr fun a ha => ?_).symm
      cases stop with
      | none => exact absurd rfl hbefore
      | some stop =>
        simp only [before, Option.all_some, decide_eq_true_eq, compareBytes_eq_lt] at hbefore ⊢
        exact fun hlt => hbefore ((he a ha).trans hlt)

/-- `Scan`: the entries of the map from `start` on, in front of `stop`. -/
theorem scan_eq (h : Unsplit st root t) (start stop : Option Bytes) :
    st.scan root start stop = .ok (t.entries.filter fun e =>
      start.all (compareBytes e.1 · ≠ .lt) && before stop e) := by
  have hsorted : t.entries.Pairwise fun a b => a.1 < b.1 := t.map.sorted
  have hfuel : t.entries.length < pageNumbers * PageSize := by
    have hsize := LeafPage.entriesSize_le (n := st.leaf root) h
    have hps := pageSize_eq
    rw [entriesSize_eq] at hsize
    rw [pageNumbers]
    omega
  have hscan (es rest : List (Bytes × Bytes)) (hentries : t.entries = es ++ rest)
      (hrun : run (BTree.scan start stop) ⟨root⟩ st =
        ((.ok ⟨root, es.length, stop, st.leaf root, false⟩, ⟨root⟩), st)) :
      st.scan root start stop = .ok (rest.filter (before stop)) := by
    rw [hentries] at hsorted hfuel
    rw [PageStore.scan, hrun, ← takeWhile_before (List.pairwise_append.mp hsorted).2.1]
    have hpage : LeafPage (st.leaf root).data (es ++ rest) 0 := hentries ▸ h
    exact run_all hpage rfl rfl (by rw [List.length_append] at hfuel; omega) st
  cases start with
  | none =>
    rw [hscan [] t.entries rfl ((BTree.run_findLeaf h _).trans (run_fetchLeaf h _))]
    rfl
  | some key =>
    obtain ⟨es, es', haround, hsearch, -, hcases⟩ :=
      BTree.exists_place (α := Unit) h key
    obtain ⟨rest, hentries, hrest⟩ : ∃ rest, t.entries = es ++ rest ∧ ∀ e ∈ rest, key ≤ e.1 := by
      rcases hcases with ⟨v, -, hentries⟩ | ⟨-, hentries⟩
      · exact ⟨_, hentries, List.forall_mem_cons.mpr
          ⟨le_refl _, fun e he => (haround.2 e he).le⟩⟩
      · exact ⟨_, hentries, fun e he => (haround.2 e he).le⟩
    rw [hscan es rest hentries ((BTree.run_findLeaf h _).trans ((run_fetchLeaf h _).trans
      (run_orPanic hsearch))), hentries, List.filter_append]
    have hbelow : es.filter (fun e => (some key).all (compareBytes e.1 · ≠ .lt) &&
        before stop e) = [] :=
      List.filter_eq_nil_iff.mpr fun e he => by simp [compareBytes_eq_lt.mpr (haround.1 e he)]
    rw [hbelow, List.nil_append]
    refine congrArg _ (List.filter_congr fun e he => ?_)
    have hstart : compareBytes e.1 key ≠ .lt := by
      rw [ne_eq, compareBytes_eq_lt]
      exact (hrest e he).not_gt
    simp [hstart]

/-- A scan from the beginning to the end. -/
theorem scan_all (h : Unsplit st root t) : st.scan root none none = .ok t.entries := by
  rw [scan_eq h]
  exact congrArg _ (List.filter_eq_self.mpr fun _ _ => rfl)

end Scan

end MySQLight.Storage
