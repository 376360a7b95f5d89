import MySQLight.Storage.LeafLayout

/-!
What an internal page stores.

`LooseInternal p keys kids` says that the page `p` is an internal node with
the given separators and children. The code never leaves dead bytes in an
internal node: separators are only ever added in place or with the whole
page rebuilt, so the free-space pointer is determined by the separators,
and `InternalPage` says so. As for leaves, every function on internal nodes
has one lemma here.
-/

namespace MySQLight.Storage

open MySQLight.Data

/-- The bytes some separators take in an internal node, each with its slot
and the child to its right. -/
def keysSize (keys : List Bytes) : Nat := (keys.map fun key => key.length + 8).sum

@[simp] theorem keysSize_nil : keysSize [] = 0 := rfl

@[simp] theorem keysSize_cons (key : Bytes) (keys : List Bytes) :
    keysSize (key :: keys) = key.length + 8 + keysSize keys := by simp [keysSize]

@[simp] theorem keysSize_append (keys keys' : List Bytes) :
    keysSize (keys ++ keys') = keysSize keys + keysSize keys' := by simp [keysSize]

theorem keysSize_eq (keys : List Bytes) :
    keysSize keys = (keys.map List.length).sum + 8 * keys.length := by
  induction keys with
  | nil => rfl
  | cons key keys ih =>
    rw [keysSize_cons, ih, List.map_cons, List.sum_cons, List.length_cons]
    omega

theorem keysSize_bytes (xs : List Extent) :
    keysSize (xs.map Extent.bytes) = weight xs + 8 * xs.length := by
  rw [keysSize_eq, List.map_map, List.length_map]
  rfl

/-- The page is an internal node with these separators and children. -/
structure LooseInternal (p : PageData) (keys : List Bytes) (kids : List Nat) : Prop where
  type_eq : p.bytes.head? = some NodeType.nodeInternal.code
  count_eq : beNat (slice p.bytes 1 3) = keys.length
  kids_length : kids.length = keys.length + 1
  kids_lt : ∀ id ∈ kids, id < 2 ^ 32
  kids_eq : slice p.bytes 5 (5 + 4 * kids.length) = kids.flatMap (be 4)
  slotted : ∃ xs, xs.map Extent.bytes = keys ∧
    Slotted p.bytes (5 + (keys.length + 1) * 4) (beNat (slice p.bytes 3 5)) xs

/-- An internal node without dead bytes. -/
structure InternalPage (p : PageData) (keys : List Bytes) (kids : List Nat) : Prop
    extends LooseInternal p keys kids where
  packed : beNat (slice p.bytes 3 5) + keysSize keys = PageSize + 8 * keys.length

namespace LooseInternal

variable {n : Node} {keys : List Bytes} {kids : List Nat}

theorem keyCount_eq (h : LooseInternal n.data keys kids) : n.keyCount = keys.length := h.count_eq

theorem total (h : LooseInternal n.data keys kids) :
    n.findFreeSpace + keysSize keys ≤ PageSize + 8 * keys.length := by
  obtain ⟨xs, rfl, hslotted⟩ := h.slotted
  have htotal := hslotted.total
  rw [n.data.length_bytes] at htotal
  rw [Node.findFreeSpace, keysSize_bytes, List.length_map]
  omega

theorem room (h : LooseInternal n.data keys kids) :
    5 + (keys.length + 1) * 4 + keys.length * 4 ≤ n.findFreeSpace := by
  obtain ⟨xs, rfl, hslotted⟩ := h.slotted
  have hroom := hslotted.room
  rw [Node.findFreeSpace]
  rw [List.length_map] at hroom ⊢
  omega

theorem keysSize_le (h : LooseInternal n.data keys kids) :
    slotStart + keysSize keys ≤ PageSize := by
  have hroom := h.room
  have hfree := h.total
  have hst := slotStart_eq
  omega

theorem slotsBase_eq (h : LooseInternal n.data keys kids) :
    n.slotsBase = 5 + (keys.length + 1) * 4 := by
  have hroom := h.room
  have hfree := h.total
  have hkeys := keysSize_eq keys
  have hps := pageSize_eq
  have hword := word_eq
  rw [Node.slotsBase, h.keyCount_eq, Nat.mod_eq_of_lt (by omega)]

variable {key : Bytes}

theorem internalKey_eq (h : LooseInternal n.data keys kids) {i : Nat} (hkey : keys[i]? = some key) :
    n.internalKey i = some key := by
  have hbase := h.slotsBase_eq
  obtain ⟨xs, rfl, hslotted⟩ := h.slotted
  obtain ⟨x, hx, rfl⟩ := Option.map_eq_some_iff.mp (List.getElem?_map ▸ hkey)
  obtain ⟨hi, hxi⟩ := List.getElem?_eq_some_iff.mp hx
  have hsplit : xs = xs.take i ++ x :: xs.drop (i + 1) := by
    rw [← hxi, ← List.drop_eq_getElem_cons hi, List.take_append_drop]
  have hroom := hslotted.slots_le
  rw [n.data.length_bytes] at hroom
  have hps := pageSize_eq
  have hword := word_eq
  rw [hsplit] at hslotted
  have hpointee := Node.pointee_eq hslotted
  rw [List.length_take_of_le hi.le, ← hsplit, ← hbase] at hpointee
  have hindex : (((n.slotsBase : Int) + (i : Int) * 4) % (word : Int)).toNat =
      n.slotsBase + 4 * i := by
    rw [hword]
    omega
  rw [Node.internalKey, hindex]
  exact hpointee

theorem childPageID_eq (h : LooseInternal n.data keys kids) {i id : Nat}
    (hid : kids[i]? = some id) : n.childPageID i = some id := by
  obtain ⟨hi, hidi⟩ := List.getElem?_eq_some_iff.mp hid
  have hsplit : kids = kids.take i ++ id :: kids.drop (i + 1) := by
    rw [← hidi, ← List.drop_eq_getElem_cons hi, List.take_append_drop]
  have hroom := h.room
  have hfree := h.total
  have hkeys := keysSize_eq keys
  have hlen := h.kids_length
  have harray := h.kids_eq
  have hle : 5 + 4 * kids.length ≤ n.data.bytes.length := by
    rw [n.data.length_bytes]
    omega
  have hps := pageSize_eq
  rw [hsplit] at harray hle
  have hfield := slice_field (length_be 4) harray hle
  rw [List.length_take_of_le hi.le] at hfield
  rw [Node.childPageID, PageData.uint32, if_pos (by omega), show 5 + i * 4 = 5 + 4 * i by omega,
    hfield, beNat_be_of_lt]
  exact h.kids_lt id (List.mem_of_getElem? hid)

theorem internalKeys_eq (h : LooseInternal n.data keys kids) : n.internalKeys = some keys := by
  rw [Node.internalKeys, h.keyCount_eq]
  exact mapM_range_eq_some fun i key hkey => h.internalKey_eq hkey

theorem children_eq (h : LooseInternal n.data keys kids) : n.children = some kids := by
  rw [Node.children, h.keyCount_eq, ← h.kids_length]
  exact mapM_range_eq_some fun i id hid => h.childPageID_eq hid

/-- `binarySearchKeys` in an internal node whose separators split at
`key`. -/
theorem binarySearchKeys {ks ks' : List Bytes} (h : LooseInternal n.data (ks ++ ks') kids)
    (hlow : ∀ k ∈ ks, k ≤ key) (hhigh : ∀ k ∈ ks', key < k) :
    binarySearchKeys n key false = some ks.length := by
  refine bisect_eq ?_ (Nat.zero_le _) (by rw [h.keyCount_eq]; simp) (by omega)
  intro i _ hi
  rw [h.keyCount_eq] at hi
  have hget : (ks ++ ks')[i]? = some (ks ++ ks')[i] := List.getElem?_eq_getElem hi
  simp only [h.internalKey_eq hget, Option.bind_eq_bind, Option.bind_some, Bool.false_eq_true,
    if_false]
  congr 1
  rw [Bool.eq_iff_iff, bne_iff_ne, ne_eq, compareBytes_eq_gt, not_lt, decide_eq_true_eq]
  by_cases hlt : i < ks.length
  · rw [List.getElem_append_left hlt]
    exact ⟨fun _ => hlt, fun _ => hlow _ (List.getElem_mem _)⟩
  · rw [List.getElem_append_right (by omega)]
    exact ⟨fun hk => absurd hk (hhigh _ (List.getElem_mem _)).not_ge, fun h => absurd h hlt⟩

/-! ### Insertion -/

/-- The writes of `insertInternalEntry`, in order: the slots that stay
behind the new one, the slots in front of it, the children that stay
behind the new one, the new child, the new slot, the key, the free-space
pointer and the key count. -/
def written (p : PageData) (later earlier kids child slot key ptr count : Bytes) (i c f : Nat) :
    PageData :=
  (((((((p.patch (5 + (c + 1) * 4 + 4 + (i + 1) * 4) later).patch (5 + (c + 1) * 4 + 4)
    earlier).patch (5 + (i + 2) * 4) kids).patch (5 + (i + 1) * 4) child).patch
    (5 + (c + 1) * 4 + 4 + i * 4) slot).patch (f - key.length) key).patch 3 ptr).patch 1 count

/-- What is written fits: `c` is the old number of keys, `f` the old
free-space pointer and `i` the place of the new key. -/
structure Fits (later earlier kids child slot key ptr count : Bytes) (i c f : Nat) : Prop where
  index : i ≤ c
  room : 5 + (c + 1) * 4 + c * 4 + (key.length + 8) ≤ f
  free : f ≤ PageSize
  later : later.length = (c - i) * 4
  earlier : earlier.length = i * 4
  kids : kids.length = (c - i) * 4
  child : child.length = 4
  slot : slot.length = 4
  ptr : ptr.length = 2
  count : count.length = 2

/-- What the page `q` stores after these writes to `p`. -/
structure Written (p q : PageData) (later earlier kids child slot key ptr count : Bytes)
    (i c f : Nat) : Prop where
  keep : ∀ a b, f ≤ a → slice q.bytes a b = slice p.bytes a b
  count : slice q.bytes 1 3 = count
  free : slice q.bytes 3 5 = ptr
  key : slice q.bytes (f - key.length) f = key
  kids : slice q.bytes 5 (5 + (c + 2) * 4) = slice p.bytes 5 (5 + (i + 1) * 4) ++ child ++ kids
  slots : slice q.bytes (5 + (c + 2) * 4) (5 + (c + 2) * 4 + (c + 1) * 4) =
    earlier ++ slot ++ later

theorem Fits.written {later earlier kids child slot key ptr count : Bytes} {i c f : Nat}
    (h : Fits later earlier kids child slot key ptr count i c f) (p : PageData) :
    Written p (written p later earlier kids child slot key ptr count i c f) later earlier kids
      child slot key ptr count i c f := by
  have hps := pageSize_eq
  obtain ⟨hi, hroom, hf, hlater, hearlier, hkids, hchild, hslot, hptr, hcount⟩ := h
  constructor
  -- The children and the slots are three runs each.
  case kids =>
    rw [← slice_append_slice (b := 5 + (i + 2) * 4) (by omega) (by omega),
      ← slice_append_slice (b := 5 + (i + 1) * 4) (by omega) (by omega)]
    simp (disch := omega) only [LooseInternal.written, PageData.slice_patch_of_ge,
      PageData.slice_patch_of_le, PageData.slice_patch_self]
  case slots =>
    rw [show 5 + (c + 2) * 4 = 5 + (c + 1) * 4 + 4 by omega,
      ← slice_append_slice (b := 5 + (c + 1) * 4 + 4 + (i + 1) * 4) (by omega) (by omega),
      ← slice_append_slice (b := 5 + (c + 1) * 4 + 4 + i * 4) (by omega) (by omega)]
    simp (disch := omega) only [LooseInternal.written, PageData.slice_patch_of_ge,
      PageData.slice_patch_of_le, PageData.slice_patch_self]
  all_goals
    intros
    simp (disch := omega) only [LooseInternal.written, PageData.slice_patch_of_ge,
      PageData.slice_patch_self]

/-- The page `insertInternalEntry` leaves when nothing wraps around. -/
def insertedInternal (p : PageData) (key : Bytes) (i child c f : Nat) : PageData :=
  written p (slice p.bytes (5 + (c + 1) * 4 + i * 4) (5 + (c + 1) * 4 + c * 4))
    (slice p.bytes (5 + (c + 1) * 4) (5 + (c + 1) * 4 + i * 4))
    (slice p.bytes (5 + (i + 1) * 4) (5 + (c + 1) * 4)) (be 4 child)
    (Extent.slot ⟨f - key.length, key⟩) key (be 2 (f - key.length)) (be 2 (c + 1)) i c f

/-- What `insertInternalEntry` writes. -/
theorem fits (p : PageData) (child : Nat) {i c f : Nat} (hi : i ≤ c)
    (hfit : 5 + (c + 1) * 4 + c * 4 + (key.length + 8) ≤ f) (hf : f ≤ PageSize) :
    Fits (slice p.bytes (5 + (c + 1) * 4 + i * 4) (5 + (c + 1) * 4 + c * 4))
      (slice p.bytes (5 + (c + 1) * 4) (5 + (c + 1) * 4 + i * 4))
      (slice p.bytes (5 + (i + 1) * 4) (5 + (c + 1) * 4)) (be 4 child)
      (Extent.slot ⟨f - key.length, key⟩) key (be 2 (f - key.length)) (be 2 (c + 1)) i c f where
  index := hi
  room := hfit
  free := hf
  later := by
    rw [PageData.length_slice (by omega)]
    omega
  earlier := by
    rw [PageData.length_slice (by omega)]
    omega
  kids := by
    rw [PageData.length_slice (by omega)]
    omega
  child := length_be _ _
  slot := Extent.length_slot _
  ptr := length_be _ _
  count := length_be _ _

/-- The sixteen-bit arithmetic of `insertInternalEntry` does not wrap when
the separator fits. -/
theorem insertInternalEntry_eq {i child : Nat} (hi : i ≤ n.keyCount)
    (hfit : 5 + (n.keyCount + 1) * 4 + n.keyCount * 4 + (key.length + 8) ≤ n.findFreeSpace)
    (hfree : n.findFreeSpace ≤ PageSize) :
    n.insertInternalEntry key i child = some { n with
      data := insertedInternal n.data key i child n.keyCount n.findFreeSpace } := by
  obtain ⟨id, type, p⟩ := n
  generalize hf : Node.findFreeSpace ⟨id, type, p⟩ = f at hfit hfree ⊢
  generalize hc : Node.keyCount ⟨id, type, p⟩ = c at hi hfit ⊢
  have hps := pageSize_eq
  have hword := word_eq
  have hkey : (f + word - key.length % word) % word = f - key.length :=
    sub_word (by omega) (by omega)
  have hbase : Node.slotsBase ⟨id, type, p⟩ = 5 + (c + 1) * 4 := by
    rw [Node.slotsBase, hc, Nat.mod_eq_of_lt (by omega)]
  have hearlier : (slice p.bytes (5 + (c + 1) * 4) (5 + (c + 1) * 4 + i * 4)).length =
      5 + (c + 1) * 4 + 4 + i * 4 - (5 + (c + 1) * 4 + 4) := by
    rw [PageData.length_slice (by omega)]
    omega
  simp only [Node.insertInternalEntry, hf, hkey, hbase, hc]
  simp (disch := omega) only [Nat.mod_eq_of_lt, PageData.range_eq_some, Option.bind_eq_bind,
    Option.bind_some, Node.withData_copyTo, Node.withData_copyRange, Node.newFreeSpace,
    Node.keyCount_patch, PageData.slice_patch_of_le, hc, Node.incrementKeyCount]
  rfl

/-- The strings of the page after the insertion. -/
theorem slotted_insertedInternal {p : PageData} {child f : Nat} {xs ys : List Extent}
    (h : Slotted p.bytes (5 + ((xs ++ ys).length + 1) * 4) f (xs ++ ys))
    (hfit : 5 + ((xs ++ ys).length + 1) * 4 + (xs ++ ys).length * 4 + (key.length + 8) ≤ f) :
    Slotted (insertedInternal p key xs.length child (xs ++ ys).length f).bytes
      (5 + ((xs ++ ys).length + 2) * 4) (f - key.length) (xs ++ ⟨f - key.length, key⟩ :: ys) := by
  have hf : f ≤ PageSize := p.length_bytes ▸ h.free_le
  have hpage := (fits p child (show xs.length ≤ (xs ++ ys).length by simp) hfit hf).written p
  obtain ⟨hlow, hhigh⟩ := h.slots_split
  rw [Nat.mul_comm 4 xs.length] at hlow hhigh
  rw [Nat.mul_comm 4 (xs ++ ys).length] at hhigh
  have hcells : 4 * (xs ++ [(⟨f - key.length, key⟩ : Extent)] ++ ys).length =
      ((xs ++ ys).length + 1) * 4 := by
    simp
    omega
  have hstop : f - key.length + key.length = f := by omega
  rw [List.append_cons]
  refine h.insert ?_ ?_ ?_ ?_ ?_ (List.pairwise_singleton _ _) ?_
  · rw [PageData.length_bytes, PageData.length_bytes]
  · rw [hcells, insertedInternal, hpage.slots, hlow, hhigh]
    simp
  · omega
  · exact hpage.keep
  · intro y hy
    rw [List.mem_singleton.mp hy]
    simp only [Extent.stop, hstop]
    exact ⟨le_refl _, le_refl _, hpage.key⟩
  · simp only [weight_cons, weight_nil]
    omega

/-- `insertInternalEntry` on a node with room for the separator. -/
theorem insertInternalEntry {ks ks' : List Bytes} {kid : Nat} {kids' : List Nat}
    (h : LooseInternal n.data (ks ++ ks') (kids ++ kids')) (hkids : kids.length = ks.length + 1)
    (hkid : kid < 2 ^ 32)
    (hspace : 5 + (n.keyCount + 1) * 4 + n.keyCount * 4 + (key.length + 8) ≤ n.findFreeSpace) :
    ∃ data, n.insertInternalEntry key ks.length kid = some { n with data := data } ∧
      LooseInternal data (ks ++ key :: ks') (kids ++ kid :: kids') ∧
      beNat (slice data.bytes 3 5) + key.length = n.findFreeSpace := by
  have hps := pageSize_eq
  have htotal := h.total
  have hkeys := keysSize_eq (ks ++ ks')
  have hcount : n.keyCount = ks.length + ks'.length := by rw [h.keyCount_eq, List.length_append]
  have hlength := h.kids_length
  simp only [List.length_append] at htotal hkeys hlength
  have hf : n.findFreeSpace ≤ PageSize := by omega
  have hi : ks.length ≤ n.keyCount := by omega
  have hpage := (fits n.data kid hi hspace hf).written n.data
  have hptr : beNat (slice (insertedInternal n.data key ks.length kid n.keyCount
      n.findFreeSpace).bytes 3 5) = n.findFreeSpace - key.length := by
    rw [insertedInternal, hpage.free, beNat_be_of_lt (by omega)]
  refine ⟨_, insertInternalEntry_eq hi hspace hf, ?_, by omega⟩
  constructor
  case type_eq =>
    simp (disch := omega) only [insertedInternal, written, PageData.head?_patch]
    exact h.type_eq
  case count_eq =>
    rw [insertedInternal, hpage.count, beNat_be_of_lt (by omega)]
    simp
    omega
  case kids_length =>
    simp
    omega
  case kids_lt =>
    intro id hid
    rcases List.mem_append.mp hid with hid | hid
    · exact h.kids_lt id (List.mem_append_left _ hid)
    · rcases List.mem_cons.mp hid with rfl | hid
      · exact hkid
      · exact h.kids_lt id (List.mem_append_right _ hid)
  case kids_eq =>
    have hle : 5 + 4 * (kids ++ kids').length ≤ n.data.bytes.length := by
      rw [n.data.length_bytes, List.length_append]
      omega
    obtain ⟨hlow, hhigh⟩ := slice_fields_append (length_be 4) h.kids_eq hle
    rw [show 5 + 4 * (kids ++ kid :: kids').length = 5 + (n.keyCount + 2) * 4 by simp; omega,
      insertedInternal, hpage.kids,
      show 5 + (ks.length + 1) * 4 = 5 + 4 * kids.length by omega,
      show 5 + (n.keyCount + 1) * 4 = 5 + 4 * (kids ++ kids').length by simp; omega, hlow, hhigh]
    simp
  case slotted =>
    obtain ⟨xs', hxs', hslotted⟩ := h.slotted
    obtain ⟨xs, ys, rfl, rfl, rfl⟩ := List.map_eq_append_iff.mp hxs'
    refine ⟨xs ++ ⟨n.findFreeSpace - key.length, key⟩ :: ys, by simp, ?_⟩
    rw [hptr]
    rw [List.length_map, List.length_map, ← List.length_append] at hcount
    rw [← List.map_append, List.length_map] at hslotted
    rw [hcount] at hspace ⊢
    rw [List.length_map, show (List.map Extent.bytes xs ++ key :: List.map Extent.bytes ys).length +
      1 = (xs ++ ys).length + 2 by simp; omega]
    exact slotted_insertedInternal hslotted hspace

end LooseInternal

namespace InternalPage

variable {n : Node} {keys : List Bytes} {kids : List Nat}

variable {kid : Nat} {kids' : List Nat}

/-- `insertInternalEntry` on a node without dead bytes, if the separators
fit on a page. -/
theorem insertInternalEntry {ks ks' : List Bytes}
    (h : InternalPage n.data (ks ++ ks') (kids ++ kids')) (hkids : kids.length = ks.length + 1)
    {key : Bytes} (hkid : kid < 2 ^ 32)
    (hfit : slotStart + keysSize (ks ++ key :: ks') ≤ PageSize) :
    ∃ data, n.insertInternalEntry key ks.length kid = some { n with data := data } ∧
      InternalPage data (ks ++ key :: ks') (kids ++ kid :: kids') := by
  have hst := slotStart_eq
  have hfree : n.findFreeSpace + _ = _ := h.packed
  have hcount := h.keyCount_eq
  simp only [keysSize_append, keysSize_cons, List.length_append] at hfit hfree hcount
  obtain ⟨data, hrun, hdata, hptr⟩ :=
    h.toLooseInternal.insertInternalEntry hkids hkid (show _ + (key.length + 8) ≤ _ by omega)
  refine ⟨data, hrun, hdata, ?_⟩
  simp only [keysSize_append, keysSize_cons, List.length_append, List.length_cons]
  omega

/-! ### Whole pages -/

/-- A node with a single child and no separator. -/
theorem makeNewInternalHeader (hkid : kid < 2 ^ 32) :
    InternalPage (makeNewInternalHeader.patch 5 (be 4 kid)) [] [kid] := by
  have hps := pageSize_eq
  have hlow {a b : Nat} (hb : b ≤ 5) :
      slice (Storage.makeNewInternalHeader.patch 5 (be 4 kid)).bytes a b =
        slice Storage.makeNewInternalHeader.bytes a b :=
    PageData.slice_patch_of_le hb (by omega)
  have hfree : beNat (slice (Storage.makeNewInternalHeader.patch 5 (be 4 kid)).bytes 3 5) =
      PageSize := by
    rw [hlow (by omega), Storage.makeNewInternalHeader, newHeader,
      PageData.slice_patch_be_self (by omega) (by omega), beNat_be_of_lt (by omega)]
  refine ⟨⟨?type_eq, ?count_eq, ?kids_length, ?kids_lt, ?kids_eq, ?slotted⟩, ?packed⟩
  case type_eq =>
    rw [PageData.head?_patch (by omega), Storage.makeNewInternalHeader, newHeader,
      PageData.head?_patch (by omega), PageData.head?_patch (by omega), PageData.head?_patch_zero]
  case count_eq =>
    rw [hlow (by omega), Storage.makeNewInternalHeader, newHeader,
      PageData.slice_patch_of_le (by omega) (by omega),
      PageData.slice_patch_be_self (by omega) (by omega)]
    rfl
  case kids_length => rfl
  case kids_lt => simpa using hkid
  case kids_eq =>
    rw [List.length_singleton, PageData.slice_patch_be_self (by omega) (by omega)]
    simp
  case slotted =>
    refine ⟨[], rfl, ?_⟩
    rw [hfree]
    refine Slotted.nil ?_ ?_ ?_
    · rw [PageData.length_bytes]
      omega
    · rw [List.length_nil]
      omega
    · rw [PageData.length_bytes]
  case packed =>
    rw [hfree]
    rfl

/-- The loop that fills an internal node. -/
theorem appendInternalEntries {ks ks' : List Bytes} (h : InternalPage n.data ks kids)
    (hlen : ks'.length = kids'.length) (hlt : ∀ id ∈ kids', id < 2 ^ 32)
    (hfit : slotStart + keysSize (ks ++ ks') ≤ PageSize) :
    ∃ data, n.appendInternalEntries ks.length ks' kids' = some { n with data := data } ∧
      InternalPage data (ks ++ ks') (kids ++ kids') := by
  induction ks' generalizing n ks kids kids' with
  | nil =>
    obtain rfl := List.eq_nil_of_length_eq_zero hlen.symm
    exact ⟨n.data, rfl, by simpa using h⟩
  | cons key ks' ih =>
    obtain ⟨kid, kids', rfl⟩ := List.exists_cons_of_length_eq_add_one hlen.symm
    have hend : InternalPage n.data (ks ++ []) (kids ++ []) := by simpa using h
    obtain ⟨data, hrun, hdata⟩ := hend.insertInternalEntry h.kids_length
      (hlt kid (by simp)) (show slotStart + keysSize (ks ++ key :: []) ≤ PageSize by
        simp at hfit ⊢; omega)
    obtain ⟨data', hrun', hdata'⟩ := ih (n := { n with data := data }) hdata
      (by simpa using hlen) (fun id hid => hlt id (List.mem_cons_of_mem _ hid))
      (by simp at hfit ⊢; omega)
    refine ⟨data', ?_, by simpa using hdata'⟩
    rw [List.length_append, List.length_singleton] at hrun'
    rw [Node.appendInternalEntries, hrun]
    exact hrun'

/-- A page for separators that fit. -/
theorem buildInternal (id : Nat) (hlen : kids.length = keys.length + 1)
    (hlt : ∀ kid ∈ kids, kid < 2 ^ 32) (hfit : slotStart + keysSize keys ≤ PageSize) :
    ∃ data, Node.buildInternal id keys kids = some ⟨id, .nodeInternal, data⟩ ∧
      InternalPage data keys kids := by
  obtain ⟨kid, kids, rfl⟩ := List.exists_cons_of_length_eq_add_one hlen
  obtain ⟨data, hrun, hdata⟩ := appendInternalEntries
    (n := ⟨id, .nodeInternal, Storage.makeNewInternalHeader.patch 5 (be 4 kid)⟩)
    (makeNewInternalHeader (hlt kid (by simp)))
    (show keys.length = kids.length by simpa using hlen.symm)
    (fun kid hkid => hlt kid (List.mem_cons_of_mem _ hkid)) hfit
  exact ⟨data, hrun, hdata⟩

theorem rebuildInternal (hlen : kids.length = keys.length + 1) (hlt : ∀ kid ∈ kids, kid < 2 ^ 32)
    (hfit : slotStart + keysSize keys ≤ PageSize) :
    ∃ data, n.rebuildInternal keys kids = some { n with data := data } ∧
      InternalPage data keys kids := by
  obtain ⟨data, hrun, hdata⟩ := buildInternal n.pageID hlen hlt hfit
  refine ⟨data, ?_, hdata⟩
  rw [Node.rebuildInternal, hrun]
  rfl

/-- `deleteInternalEntry`. -/
theorem deleteInternalEntry {ks ks' : List Bytes} {key : Bytes}
    (h : LooseInternal n.data (ks ++ key :: ks') (kids ++ kid :: kids')) :
    ∃ data, n.deleteInternalEntry ks.length kids.length = some { n with data := data } ∧
      InternalPage data (ks ++ ks') (kids ++ kids') := by
  have hlen := h.kids_length
  have hsize := h.keysSize_le
  obtain ⟨data, hrun, hdata⟩ := rebuildInternal (n := n)
    (show (kids ++ kids').length = (ks ++ ks').length + 1 by simp at hlen ⊢; omega)
    (fun id hid => h.kids_lt id (by simp at hid ⊢; tauto))
    (by simp at hsize ⊢; omega)
  refine ⟨data, ?_, hdata⟩
  have hkeys := mapM_filter_range_eq_some (f := fun i : Nat => n.internalKey i)
    fun i k hk => h.internalKey_eq hk
  have hkids := mapM_filter_range_eq_some fun i k hk => h.childPageID_eq hk
  rw [← h.keyCount_eq] at hkeys
  rw [h.kids_length, ← h.keyCount_eq] at hkids
  simp only [Node.deleteInternalEntry, ne_eq, Nat.cast_inj]
  rw [hkeys, hkids]
  exact hrun

/-- `replaceInternalKey` with a separator that fits. -/
theorem replaceInternalKey {ks ks' : List Bytes} {key newKey : Bytes}
    (h : LooseInternal n.data (ks ++ key :: ks') kids)
    (hfit : slotStart + keysSize (ks ++ newKey :: ks') ≤ PageSize) :
    ∃ data, n.replaceInternalKey ks.length newKey = some { n with data := data } ∧
      InternalPage data (ks ++ newKey :: ks') kids := by
  obtain ⟨data, hrun, hdata⟩ := rebuildInternal (n := n)
    (show kids.length = (ks ++ newKey :: ks').length + 1 by simpa using h.kids_length)
    h.kids_lt hfit
  refine ⟨data, ?_, hdata⟩
  have hkeys : (List.range n.keyCount).mapM (fun j : Nat =>
      if j = ks.length then some newKey else n.internalKey j) = some (ks ++ newKey :: ks') := by
    have hcount : n.keyCount = (ks ++ newKey :: ks').length := by
      rw [h.keyCount_eq]
      simp
    rw [hcount]
    refine mapM_range_eq_some ?_
    intro j k hk
    by_cases hj : j = ks.length
    · subst hj
      simpa using hk
    · rw [if_neg hj]
      refine h.internalKey_eq ?_
      rw [← hk]
      rcases Nat.lt_or_gt_of_ne hj with hj | hj
      · rw [List.getElem?_append_left hj, List.getElem?_append_left hj]
      · obtain ⟨m, hm⟩ : ∃ m, j - ks.length = m + 1 := ⟨j - ks.length - 1, by omega⟩
        rw [List.getElem?_append_right (by omega), List.getElem?_append_right (by omega), hm,
          List.getElem?_cons_succ, List.getElem?_cons_succ]
  rw [Node.replaceInternalKey, hkeys, h.children_eq]
  exact hrun

end InternalPage

/-- The bytes of an internal node implement its two lists: they read back
as the lists, and every operation on the page is the operation on the
lists. -/
theorem internal_implements_lists {n : Node} {keys : List Bytes} {kids : List Nat}
    (h : LooseInternal n.data keys kids) :
    (n.internalKeys = some keys ∧ n.children = some kids) ∧
      (∀ i key kid, i ≤ keys.length → kid < 2 ^ 32 →
        5 + 4 * (keys.length + 1) + 4 * keys.length + (key.length + 8) ≤ n.findFreeSpace →
        ∃ n', n.insertInternalEntry key i kid = some n' ∧
          LooseInternal n'.data (keys.take i ++ key :: keys.drop i)
            (kids.take (i + 1) ++ kid :: kids.drop (i + 1))) ∧
      (∀ i j : Nat, i < keys.length → j < kids.length →
        ∃ n', n.deleteInternalEntry i j = some n' ∧
          LooseInternal n'.data (keys.eraseIdx i) (kids.eraseIdx j)) ∧
      (∀ i key, i < keys.length → slotStart + keysSize (keys.set i key) ≤ PageSize →
        ∃ n', n.replaceInternalKey i key = some n' ∧
          LooseInternal n'.data (keys.set i key) kids) ∧
      (∀ keys' kids', kids'.length = keys'.length + 1 → (∀ kid ∈ kids', kid < 2 ^ 32) →
        slotStart + keysSize keys' ≤ PageSize →
        ∃ n', n.rebuildInternal keys' kids' = some n' ∧ LooseInternal n'.data keys' kids') := by
  have hlength := h.kids_length
  refine ⟨⟨h.internalKeys_eq, h.children_eq⟩, ?_, ?_, ?_, ?_⟩
  · intro i key kid hi hkid hfit
    rw [← h.keyCount_eq] at hfit
    have hsplit : LooseInternal n.data (keys.take i ++ keys.drop i)
        (kids.take (i + 1) ++ kids.drop (i + 1)) := by
      simpa using h
    obtain ⟨data, hrun, hdata, -⟩ := hsplit.insertInternalEntry (by simp; omega) hkid
      (show _ + (key.length + 8) ≤ _ by omega)
    rw [List.length_take_of_le hi] at hrun
    exact ⟨_, hrun, hdata⟩
  · intro i j hi hj
    have hsplit : LooseInternal n.data (keys.take i ++ keys[i] :: keys.drop (i + 1))
        (kids.take j ++ kids[j] :: kids.drop (j + 1)) := by
      simpa using h
    obtain ⟨data, hrun, hdata⟩ := InternalPage.deleteInternalEntry hsplit
    rw [List.length_take_of_le hi.le, List.length_take_of_le hj.le] at hrun
    rw [List.eraseIdx_eq_take_drop_succ, List.eraseIdx_eq_take_drop_succ]
    exact ⟨_, hrun, hdata.toLooseInternal⟩
  · intro i key hi hfit
    rw [List.set_eq_take_cons_drop key hi] at hfit ⊢
    have hsplit : LooseInternal n.data (keys.take i ++ keys[i] :: keys.drop (i + 1)) kids := by
      simpa using h
    obtain ⟨data, hrun, hdata⟩ := InternalPage.replaceInternalKey hsplit hfit
    rw [List.length_take_of_le hi.le] at hrun
    exact ⟨_, hrun, hdata.toLooseInternal⟩
  · intro keys' kids' hlen hlt hfit
    obtain ⟨data, hrun, hdata⟩ := InternalPage.rebuildInternal (n := n) hlen hlt hfit
    exact ⟨_, hrun, hdata.toLooseInternal⟩

/-- A page with three separators: another one goes in between, one is taken
out with its child, and one is replaced by a longer one. -/
theorem internal_implements_lists_three :
    ∃ n inserted deleted replaced,
      Node.rebuildInternal ⟨3, .nodeInternal, makeNewInternalHeader⟩ [[10], [20, 20], [30]]
        [4, 5, 6, 7] = some n ∧
      (n.insertInternalEntry [25] 2 9 = some inserted ∧
        LooseInternal inserted.data [[10], [20, 20], [25], [30]] [4, 5, 6, 9, 7]) ∧
      (n.deleteInternalEntry 1 2 = some deleted ∧
        LooseInternal deleted.data [[10], [30]] [4, 5, 7]) ∧
      n.replaceInternalKey 0 [15, 15, 15] = some replaced ∧
        LooseInternal replaced.data [[15, 15, 15], [20, 20], [30]] [4, 5, 6, 7] := by
  obtain ⟨data, hrun, hdata⟩ : ∃ data, Node.rebuildInternal
      ⟨3, .nodeInternal, makeNewInternalHeader⟩ [[10], [20, 20], [30]] [4, 5, 6, 7] =
        some ⟨3, .nodeInternal, data⟩ ∧ InternalPage data [[10], [20, 20], [30]] [4, 5, 6, 7] :=
    InternalPage.rebuildInternal rfl (by decide) (by decide)
  let n : Node := ⟨3, .nodeInternal, data⟩
  have hfree : n.findFreeSpace + 28 = PageSize + 24 := hdata.packed
  obtain ⟨-, hinsert, hdelete, hreplace, -⟩ :=
    internal_implements_lists (n := n) hdata.toLooseInternal
  obtain ⟨inserted, hinserted⟩ := hinsert 2 [25] 9 (by decide) (by decide) (by
    rw [PageSize] at hfree
    simp
    omega)
  obtain ⟨deleted, hdeleted⟩ := hdelete 1 2 (by decide) (by decide)
  obtain ⟨replaced, hreplaced⟩ := hreplace 0 [15, 15, 15] (by decide) (by decide)
  exact ⟨n, inserted, deleted, replaced, hrun, hinserted, hdeleted, hreplaced⟩

end MySQLight.Storage
