import MySQLight.Data.Slotted
import MySQLight.Effect.Runs
import MySQLight.Storage.Node
import Mathlib.Data.List.Induction

/-!
What a leaf page stores.

`LeafPage p entries sibling` says that the page `p` is a leaf with the
given entries and right sibling: a slotted buffer in which every entry
has two strings. Every function on leaves has one lemma here, which says
what it returns and which entries the page stores afterwards; nothing
above this module looks at the bytes of a leaf.
-/

namespace MySQLight.Storage

open MySQLight.Data

/-! ### Parts of a page -/

namespace PageData

variable {p : PageData} {off a b : Nat} {src : Bytes}

theorem range_eq_some (hab : a ≤ b) (hb : b ≤ PageSize) : p.range a b = some (slice p.bytes a b) :=
  if_pos ⟨hab, hb⟩

theorem copyTo_eq_some (h : off ≤ PageSize) : p.copyTo off src = some (p.patch off src) := if_pos h

theorem copyRange_eq_some (hab : a ≤ b) (hb : b ≤ PageSize) (hlen : src.length = b - a) :
    p.copyRange a b src = some (p.patch a src) := by
  rw [copyRange, if_pos ⟨hab, hb⟩, List.take_of_length_le hlen.le]

theorem head?_patch (hoff : 1 ≤ off) : (p.patch off src).bytes.head? = p.bytes.head? := by
  obtain ⟨bs, hbs⟩ := p
  cases bs with
  | nil => cases hbs
  | cons x bs =>
    obtain ⟨k, rfl⟩ := Nat.exists_eq_add_of_le' hoff
    simp [patch, copyAt]

theorem head?_patch_zero (x : UInt8) : (p.patch 0 [x]).bytes.head? = some x := by
  obtain ⟨bs, hbs⟩ := p
  cases bs with
  | nil => cases hbs
  | cons y bs => simp [patch, copyAt]

theorem slice_zero : slice zero.bytes a b = List.replicate (min (b - a) (PageSize - a)) 0 := by
  simp [zero, slice, List.drop_replicate, List.take_replicate]

theorem length_bytes (p : PageData) : p.bytes.length = PageSize := p.length_eq

theorem length_slice (hb : b ≤ PageSize) : (slice p.bytes a b).length = b - a :=
  length_slice_of_le (p.length_eq ▸ hb)

end PageData

theorem pageSize_eq : PageSize = 4096 := rfl

theorem word_eq : word = 65536 := rfl

theorem slotStart_eq : slotStart = 9 := rfl

/-- Subtraction of sixteen-bit numbers that does not wrap. -/
theorem sub_word {a b : Nat} (hab : b ≤ a) (ha : a < word) :
    (a + word - b % word) % word = a - b := by
  have hb : b % word = b := Nat.mod_eq_of_lt (hab.trans_lt ha)
  have hsum : a + word - b % word = a - b + word := by omega
  rw [hsum, Nat.add_mod_right, Nat.mod_eq_of_lt (by omega)]

namespace Node

variable {n : Node} {src : Bytes}

theorem withData_copyTo {off : Nat} (h : off ≤ PageSize) :
    n.withData (·.copyTo off src) = some { n with data := n.data.patch off src } := by
  rw [withData, PageData.copyTo_eq_some h, Option.map_some]

theorem withData_copyRange {a b : Nat} (hab : a ≤ b) (hb : b ≤ PageSize)
    (hlen : src.length = b - a) :
    n.withData (·.copyRange a b src) = some { n with data := n.data.patch a src } := by
  rw [withData, PageData.copyRange_eq_some hab hb hlen, Option.map_some]

/-- Writes behind the key count leave it alone. -/
theorem keyCount_patch {id off : Nat} {type : NodeType} {p : PageData} (hoff : 3 ≤ off)
    (h : off ≤ PageSize) : keyCount ⟨id, type, p.patch off src⟩ = keyCount ⟨id, type, p⟩ := by
  rw [keyCount, PageData.slice_patch_of_le hoff h, keyCount]

/-- The bytes a slot points to. -/
theorem pointee_eq {base free : Nat} {xs ys : List Extent} {x : Extent}
    (h : Slotted n.data.bytes base free (xs ++ x :: ys)) :
    n.pointee (base + 4 * xs.length) = some x.bytes := by
  have hps := pageSize_eq
  have hword := word_eq
  have hlen := n.data.length_bytes
  have hroom := h.room
  have hle := h.free_le
  rw [List.length_append, List.length_cons] at hroom
  obtain ⟨hoff, hcount⟩ := h.read_slot
  obtain ⟨-, hstop, hbytes⟩ := h.stored x (by simp)
  have hstop' : x.stop = x.off + x.bytes.length := rfl
  rw [pointee, PageData.uint16, if_pos (by omega), hoff]
  simp only [Option.bind_eq_bind, Option.bind_some]
  rw [PageData.uint16, if_pos (by omega), Nat.add_assoc _ 2 2, hcount]
  simp only [Option.bind_some]
  rw [Nat.mod_eq_of_lt (by omega), ← hstop',
    PageData.range_eq_some (by omega) (by omega), hbytes]

end Node

/-! ### Leaves -/

/-- The strings of some entries: a key and a value each. -/
def extents (ps : List (Extent × Extent)) : List Extent := ps.flatMap fun q => [q.1, q.2]

/-- The entries themselves. -/
def contents (ps : List (Extent × Extent)) : List (Bytes × Bytes) :=
  ps.map fun q => (q.1.bytes, q.2.bytes)

@[simp] theorem extents_append (ps qs : List (Extent × Extent)) :
    extents (ps ++ qs) = extents ps ++ extents qs := by simp [extents]

@[simp] theorem extents_cons (q : Extent × Extent) (ps : List (Extent × Extent)) :
    extents (q :: ps) = q.1 :: q.2 :: extents ps := by simp [extents]

@[simp] theorem extents_nil : extents [] = [] := rfl

@[simp] theorem length_extents (ps : List (Extent × Extent)) :
    (extents ps).length = 2 * ps.length := by
  induction ps with
  | nil => rfl
  | cons q ps ih =>
    rw [extents_cons, List.length_cons, List.length_cons, ih, List.length_cons]
    omega

/-- The bytes some entries take in a leaf, their slots included. -/
def entriesSize (entries : List (Bytes × Bytes)) : Nat :=
  (entries.map fun e => e.1.length + e.2.length + 8).sum

@[simp] theorem entriesSize_nil : entriesSize [] = 0 := rfl

@[simp] theorem entriesSize_cons (e : Bytes × Bytes) (es : List (Bytes × Bytes)) :
    entriesSize (e :: es) = e.1.length + e.2.length + 8 + entriesSize es := by simp [entriesSize]

@[simp] theorem entriesSize_append (es es' : List (Bytes × Bytes)) :
    entriesSize (es ++ es') = entriesSize es + entriesSize es' := by simp [entriesSize]

theorem entriesSize_eq (es : List (Bytes × Bytes)) :
    entriesSize es = (es.map fun e => e.1.length + e.2.length).sum + 8 * es.length := by
  induction es with
  | nil => rfl
  | cons e es ih =>
    rw [entriesSize_cons, ih, List.map_cons, List.sum_cons, List.length_cons]
    omega

theorem entriesSize_contents (ps : List (Extent × Extent)) :
    entriesSize (contents ps) = weight (extents ps) + 8 * ps.length := by
  induction ps with
  | nil => rfl
  | cons q ps ih =>
    rw [contents, List.map_cons, entriesSize_cons, ← contents, ih, extents_cons, weight_cons,
      weight_cons, List.length_cons]
    dsimp only
    omega

/-- The page is a leaf with these entries and this right sibling. -/
structure LeafPage (p : PageData) (entries : List (Bytes × Bytes)) (sibling : Nat) : Prop where
  type_eq : p.bytes.head? = some NodeType.nodeLeaf.code
  count_eq : beNat (slice p.bytes 1 3) = entries.length
  sibling_eq : beNat (slice p.bytes 5 9) = sibling
  slotted : ∃ ps, contents ps = entries ∧
    Slotted p.bytes slotStart (beNat (slice p.bytes 3 5)) (extents ps)

/-- Collecting the elements of a list by index. -/
theorem mapM_range_eq_some {α : Type} {f : Nat → Option α} {l : List α}
    (h : ∀ i a, l[i]? = some a → f i = some a) : (List.range l.length).mapM f = some l := by
  induction l using List.reverseRecOn with
  | nil => rfl
  | append_singleton l a ih =>
    have hinit : (List.range l.length).mapM f = some l := by
      refine ih ?_
      intro i b hb
      obtain ⟨hi, -⟩ := List.getElem?_eq_some_iff.mp hb
      exact h i b (by rw [List.getElem?_append_left hi, hb])
    have hlast : f l.length = some a := h _ _ List.getElem?_concat_length
    rw [List.length_append, List.length_singleton, List.range_succ, List.mapM_append, hinit]
    simp [hlast]

/-- Collecting all elements but one. -/
theorem mapM_filter_range_eq_some {α : Type} {f : Nat → Option α} {as bs : List α} {a : α}
    (h : ∀ i b, (as ++ a :: bs)[i]? = some b → f i = some b) :
    ((List.range (as ++ a :: bs).length).filter (· ≠ as.length)).mapM f = some (as ++ bs) := by
  have hrange : (List.range (as ++ a :: bs).length).filter (· ≠ as.length) =
      List.range as.length ++ (List.range bs.length).map (as.length + 1 + ·) := by
    have hlen : (as ++ a :: bs).length = as.length + 1 + bs.length := by
      simp
      omega
    have hlow : (List.range as.length).filter (· ≠ as.length) = List.range as.length := by
      refine List.filter_eq_self.mpr ?_
      intro i hi
      have hlt := List.mem_range.mp hi
      exact decide_eq_true (by omega)
    have hhigh : ((List.range bs.length).map (as.length + 1 + ·)).filter (· ≠ as.length) =
        (List.range bs.length).map (as.length + 1 + ·) := by
      refine List.filter_eq_self.mpr ?_
      intro i hi
      obtain ⟨j, -, rfl⟩ := List.mem_map.mp hi
      exact decide_eq_true (by omega)
    rw [hlen, List.range_add, List.range_succ, List.filter_append, List.filter_append, hlow, hhigh]
    simp
  have hfront : (List.range as.length).mapM f = some as := by
    refine mapM_range_eq_some ?_
    intro i b hb
    obtain ⟨hi, -⟩ := List.getElem?_eq_some_iff.mp hb
    exact h i b (by rw [List.getElem?_append_left hi, hb])
  have hback : ((List.range bs.length).map (as.length + 1 + ·)).mapM f = some bs := by
    rw [List.mapM_map]
    refine mapM_range_eq_some ?_
    intro i b hb
    refine h _ b ?_
    show (as ++ a :: bs)[as.length + 1 + i]? = some b
    rw [List.getElem?_append_right (by omega),
      show as.length + 1 + i - as.length = i + 1 by omega, List.getElem?_cons_succ, hb]
  rw [hrange, List.mapM_append, hfront, hback]
  rfl

namespace LeafPage

variable {n : Node} {entries : List (Bytes × Bytes)} {sibling : Nat}

theorem keyCount_eq (h : LeafPage n.data entries sibling) : n.keyCount = entries.length :=
  h.count_eq

/-- A right sibling is a page number. -/
theorem sibling_lt {p : PageData} (h : LeafPage p entries sibling) : sibling < 2 ^ 32 := by
  have hlt := beNat_lt (slice p.bytes 5 9)
  rw [PageData.length_slice (by rw [pageSize_eq]; omega), h.sibling_eq] at hlt
  exact hlt

theorem rightSibling_eq (h : LeafPage n.data entries sibling) : n.rightSibling = sibling :=
  h.sibling_eq

variable {i : Nat} {e : Bytes × Bytes}

/-- The strings of an entry and those of the entries around it. -/
theorem slotted_at (h : LeafPage n.data entries sibling) (he : entries[i]? = some e) :
    ∃ ps q qs, ps.length = i ∧ contents ps = entries.take i ∧
      contents qs = entries.drop (i + 1) ∧ (q.1.bytes, q.2.bytes) = e ∧
      Slotted n.data.bytes slotStart n.findFreeSpace (extents (ps ++ q :: qs)) := by
  obtain ⟨ps, hps, hslotted⟩ := h.slotted
  rw [← hps, contents, List.getElem?_map, Option.map_eq_some_iff] at he
  obtain ⟨q, hq, rfl⟩ := he
  obtain ⟨hi, hqi⟩ := List.getElem?_eq_some_iff.mp hq
  refine ⟨ps.take i, q, ps.drop (i + 1), List.length_take_of_le hi.le, ?_, ?_, rfl, ?_⟩
  · rw [← hps, contents, contents, List.map_take]
  · rw [← hps, contents, contents, List.map_drop]
  · rw [← hqi, ← List.drop_eq_getElem_cons hi, List.take_append_drop]
    exact hslotted

theorem leafKey_eq (h : LeafPage n.data entries sibling) (he : entries[i]? = some e) :
    n.leafKey i = some e.1 := by
  obtain ⟨ps, q, qs, rfl, -, -, rfl, hslotted⟩ := h.slotted_at he
  rw [extents_append, extents_cons] at hslotted
  have hpointee := Node.pointee_eq hslotted
  rw [length_extents] at hpointee
  rw [Node.leafKey, ← hpointee]
  congr 1
  omega

theorem leafValue_eq (h : LeafPage n.data entries sibling) (he : entries[i]? = some e) :
    n.leafValue i = some e.2 := by
  obtain ⟨ps, q, qs, rfl, -, -, rfl, hslotted⟩ := h.slotted_at he
  have happend : extents (ps ++ q :: qs) = (extents ps ++ [q.1]) ++ q.2 :: extents qs := by simp
  rw [happend] at hslotted
  have hpointee := Node.pointee_eq hslotted
  rw [List.length_append, length_extents, List.length_singleton] at hpointee
  rw [Node.leafValue, ← hpointee]
  congr 1
  omega

theorem leafEntries_eq (h : LeafPage n.data entries sibling) : n.leafEntries = some entries := by
  rw [Node.leafEntries, h.keyCount_eq]
  refine mapM_range_eq_some ?_
  intro i e he
  simp [h.leafKey_eq he, h.leafValue_eq he]

theorem room (h : LeafPage n.data entries sibling) :
    slotStart + 8 * entries.length ≤ n.findFreeSpace := by
  obtain ⟨ps, rfl, hslotted⟩ := h.slotted
  have hroom := hslotted.room
  rw [length_extents] at hroom
  rw [contents, List.length_map, Node.findFreeSpace]
  omega

/-- The entries and everything in front of the free-space pointer fit on
the page. -/
theorem total (h : LeafPage n.data entries sibling) :
    entriesSize entries + n.findFreeSpace ≤ PageSize + 8 * entries.length := by
  obtain ⟨ps, rfl, hslotted⟩ := h.slotted
  have htotal := hslotted.total
  rw [n.data.length_bytes] at htotal
  rw [entriesSize_contents, contents, List.length_map, Node.findFreeSpace]
  omega

theorem entriesSize_le (h : LeafPage n.data entries sibling) :
    slotStart + entriesSize entries ≤ PageSize := by
  have htotal := h.total
  have hroom := h.room
  omega

theorem leafLiveBytes_eq (h : LeafPage n.data entries sibling) :
    n.leafLiveBytes = some (slotStart + entriesSize entries) := by
  simp [Node.leafLiveBytes, h.leafEntries_eq, h.keyCount_eq, entriesSize_eq]
  omega

/-- The slot of an entry. -/
def entrySlot (keyOff valueOff : Nat) (key value : Bytes) : Bytes :=
  be 2 keyOff ++ be 2 key.length ++ be 2 valueOff ++ be 2 value.length

@[simp] theorem length_entrySlot (keyOff valueOff : Nat) (key value : Bytes) :
    (entrySlot keyOff valueOff key value).length = 8 := by simp [entrySlot]

/-- The page `insertLeafEntry` leaves when nothing wraps around: `f` is the
old free-space pointer, `c` the old number of keys. -/
def insertedLeaf (p : PageData) (key value : Bytes) (i c f : Nat) : PageData :=
  (((((p.patch (f - value.length) value).patch (f - value.length - key.length) key).patch 3
    (be 2 (f - value.length - key.length))).patch (slotStart + i * 8 + 8)
    (slice p.bytes (slotStart + i * 8) (slotStart + c * 8))).patch (slotStart + i * 8)
    (entrySlot (f - value.length - key.length) (f - value.length) key value)).patch 1
    (be 2 (c + 1))

/-- What the page `q` stores after an insertion into `p`. -/
structure Inserted (p q : PageData) (key value : Bytes) (i c f : Nat) : Prop where
  keep : ∀ a b, f ≤ a → slice q.bytes a b = slice p.bytes a b
  low : ∀ a b, 5 ≤ a → b ≤ slotStart + i * 8 → slice q.bytes a b = slice p.bytes a b
  count : slice q.bytes 1 3 = be 2 (c + 1)
  free : slice q.bytes 3 5 = be 2 (f - value.length - key.length)
  slot : slice q.bytes (slotStart + i * 8) (slotStart + i * 8 + 8) =
    entrySlot (f - value.length - key.length) (f - value.length) key value
  high : slice q.bytes (slotStart + i * 8 + 8) (slotStart + (c + 1) * 8) =
    slice p.bytes (slotStart + i * 8) (slotStart + c * 8)
  key_eq : slice q.bytes (f - value.length - key.length) (f - value.length) = key
  value_eq : slice q.bytes (f - value.length) f = value

section Insert

variable {p : PageData} {key value : Bytes} {i c f : Nat} (hi : i ≤ c)
  (hfit : slotStart + 8 * c + (key.length + value.length + 8) ≤ f) (hf : f ≤ PageSize)

include hi hfit hf

theorem inserted_insertedLeaf : Inserted p (insertedLeaf p key value i c f) key value i c f := by
  have hps := pageSize_eq
  have hst := slotStart_eq
  have hcount : (be 2 (c + 1)).length = 2 := length_be ..
  have hfree : (be 2 (f - value.length - key.length)).length = 2 := length_be ..
  have hslot := length_entrySlot (f - value.length - key.length) (f - value.length) key value
  have hmoved : (slice p.bytes (slotStart + i * 8) (slotStart + c * 8)).length = c * 8 - i * 8 := by
    rw [PageData.length_slice (by omega)]
    omega
  -- Every part is the last thing written there, or was there before.
  constructor
  all_goals
    intros
    simp (disch := omega) only [insertedLeaf, PageData.slice_patch_of_ge,
      PageData.slice_patch_of_le, PageData.slice_patch_self]

/-- All slots of the page after the insertion. -/
theorem slice_insertedLeaf_slots :
    slice (insertedLeaf p key value i c f).bytes slotStart (slotStart + (c + 1) * 8) =
      slice p.bytes slotStart (slotStart + i * 8) ++
        entrySlot (f - value.length - key.length) (f - value.length) key value ++
        slice p.bytes (slotStart + i * 8) (slotStart + c * 8) := by
  have hst := slotStart_eq
  have hpage := inserted_insertedLeaf (p := p) hi hfit hf
  rw [← slice_append_slice (b := slotStart + i * 8) (by omega) (by omega),
    ← slice_append_slice (a := slotStart + i * 8) (b := slotStart + i * 8 + 8) (by omega)
      (by omega), hpage.low _ _ (by omega) (le_refl _), hpage.slot, hpage.high, List.append_assoc]

end Insert

/-- Where the strings of a new entry go. -/
def placed (f : Nat) (key value : Bytes) : Extent × Extent :=
  (⟨f - value.length - key.length, key⟩, ⟨f - value.length, value⟩)

/-- The strings of the page after the insertion. -/
theorem slotted_insertedLeaf {p : PageData} {key value : Bytes} {f : Nat}
    {ps qs : List (Extent × Extent)} (h : Slotted p.bytes slotStart f (extents (ps ++ qs)))
    (hfit : slotStart + 8 * (ps ++ qs).length + (key.length + value.length + 8) ≤ f) :
    Slotted (insertedLeaf p key value ps.length (ps ++ qs).length f).bytes slotStart
      (f - value.length - key.length) (extents (ps ++ placed f key value :: qs)) := by
  have hi : ps.length ≤ (ps ++ qs).length := by simp
  have hf : f ≤ PageSize := p.length_bytes ▸ h.free_le
  have happend : extents (ps ++ placed f key value :: qs) =
      extents ps ++ [(placed f key value).1, (placed f key value).2] ++ extents qs := by simp
  have hcells : 4 * (extents ps ++ [(placed f key value).1, (placed f key value).2] ++
      extents qs).length = ((ps ++ qs).length + 1) * 8 := by
    simp
    omega
  rw [extents_append] at h
  obtain ⟨hlow, hhigh⟩ := h.slots_split
  rw [← extents_append, length_extents, length_extents,
    show 4 * (2 * ps.length) = ps.length * 8 by omega,
    show 4 * (2 * (ps ++ qs).length) = (ps ++ qs).length * 8 by omega] at hhigh
  rw [length_extents, show 4 * (2 * ps.length) = ps.length * 8 by omega] at hlow
  have hstop : f - value.length - key.length + key.length = f - value.length := by omega
  have hstop' : f - value.length + value.length = f := by omega
  have hpage := inserted_insertedLeaf (p := p) hi hfit hf
  rw [happend]
  refine h.insert ?_ ?_ ?_ ?_ ?_ ?_ ?_
  · rw [PageData.length_bytes, PageData.length_bytes]
  · rw [hcells, slice_insertedLeaf_slots hi hfit hf, hlow, hhigh]
    simp [entrySlot, Extent.slot, placed]
  · omega
  · exact hpage.keep
  · intro y hy
    rcases List.mem_pair.mp hy with rfl | rfl
    · simp only [placed, Extent.stop, hstop]
      exact ⟨le_refl _, Nat.sub_le _ _, hpage.key_eq⟩
    · simp only [placed, Extent.stop, hstop']
      exact ⟨Nat.sub_le _ _, le_refl _, hpage.value_eq⟩
  · refine List.pairwise_pair.mpr (Or.inl ?_)
    simp only [placed, Extent.stop, hstop]
    exact le_refl _
  · simp only [weight_cons, weight_nil, placed]
    omega

/-- The sixteen-bit arithmetic of `insertLeafEntry` does not wrap when the
entry fits. -/
theorem insertLeafEntry_eq {key value : Bytes} (hi : i ≤ n.keyCount)
    (hfit : slotStart + 8 * n.keyCount + (key.length + value.length + 8) ≤ n.findFreeSpace)
    (hfree : n.findFreeSpace ≤ PageSize) :
    n.insertLeafEntry key value i =
      some { n with data := insertedLeaf n.data key value i n.keyCount n.findFreeSpace } := by
  obtain ⟨id, type, p⟩ := n
  generalize hf : Node.findFreeSpace ⟨id, type, p⟩ = f at hfit hfree ⊢
  have hps := pageSize_eq
  have hst := slotStart_eq
  have hword := word_eq
  have hvalue : (f + word - value.length % word) % word = f - value.length :=
    sub_word (by omega) (by omega)
  have hkey : (f - value.length + word - key.length % word) % word =
      f - value.length - key.length := sub_word (by omega) (by omega)
  have hmoved {c : Nat} (hc : slotStart + 8 * c + (key.length + value.length + 8) ≤ f) :
      slice (((p.patch (f - value.length) value).patch (f - value.length - key.length) key).patch 3
        (be 2 (f - value.length - key.length))).bytes (slotStart + i * 8) (slotStart + c * 8) =
        slice p.bytes (slotStart + i * 8) (slotStart + c * 8) := by
    rw [PageData.slice_patch_be_of_ge (by omega) (by omega),
      PageData.slice_patch_of_le (by omega) (by omega),
      PageData.slice_patch_of_le (by omega) (by omega)]
  simp only [Node.insertLeafEntry, hf, hvalue, hkey]
  simp (disch := omega) only [Node.withData_copyTo, Option.bind_eq_bind, Option.bind_some,
    Node.newFreeSpace, Node.keyCount_patch, PageData.range_eq_some, hmoved,
    Node.incrementKeyCount]
  rfl

/-- The strings of two parts of the entries. -/
theorem slotted_append {es es' : List (Bytes × Bytes)} (h : LeafPage n.data (es ++ es') sibling) :
    ∃ ps qs, contents ps = es ∧ contents qs = es' ∧
      Slotted n.data.bytes slotStart n.findFreeSpace (extents (ps ++ qs)) := by
  obtain ⟨ps, hps, hslotted⟩ := h.slotted
  obtain ⟨qs, rs, rfl, hqs, hrs⟩ := List.map_eq_append_iff.mp hps
  exact ⟨qs, rs, hqs, hrs, hslotted⟩

/-- `insertLeafEntry` on a leaf with room for the entry. -/
theorem insertLeafEntry {es es' : List (Bytes × Bytes)} (h : LeafPage n.data (es ++ es') sibling)
    {key value : Bytes}
    (hfit : slotStart + 8 * (es ++ es').length + (key.length + value.length + 8) ≤
      n.findFreeSpace) :
    ∃ data, n.insertLeafEntry key value es.length = some { n with data := data } ∧
      LeafPage data (es ++ (key, value) :: es') sibling ∧
      beNat (slice data.bytes 3 5) + value.length + key.length = n.findFreeSpace := by
  have hps := pageSize_eq
  have hst := slotStart_eq
  obtain ⟨ps, qs, rfl, rfl, hslotted⟩ := h.slotted_append
  have hfree : n.findFreeSpace ≤ PageSize := n.data.length_bytes ▸ hslotted.free_le
  have hlength : (contents ps).length = ps.length := List.length_map _
  have hcount : n.keyCount = (ps ++ qs).length := by
    rw [h.keyCount_eq, contents, contents, ← List.map_append, List.length_map]
  have hi : ps.length ≤ n.keyCount := by simp [hcount]
  rw [← h.keyCount_eq] at hfit
  have hpage := inserted_insertedLeaf (p := n.data) hi hfit hfree
  have hptr : beNat (slice (insertedLeaf n.data key value ps.length n.keyCount
      n.findFreeSpace).bytes 3 5) = n.findFreeSpace - value.length - key.length := by
    rw [hpage.free, beNat_be_of_lt (by omega)]
  rw [hlength]
  refine ⟨_, insertLeafEntry_eq hi hfit hfree, ?_, by omega⟩
  constructor
  case type_eq =>
    simp (disch := omega) only [insertedLeaf, PageData.head?_patch]
    exact h.type_eq
  case count_eq =>
    rw [hpage.count, beNat_be_of_lt (by omega), h.keyCount_eq]
    simp
    omega
  case sibling_eq =>
    rw [hpage.low _ _ (by omega) (by omega), h.sibling_eq]
  case slotted =>
    refine ⟨ps ++ placed n.findFreeSpace key value :: qs, by simp [contents, placed], ?_⟩
    rw [hptr]
    rw [hcount] at hfit ⊢
    exact slotted_insertedLeaf hslotted hfit

/-- The page `deleteLeafEntry` leaves; `c` is the old number of keys. -/
def deletedLeaf (p : PageData) (i c : Nat) : PageData :=
  (p.patch (slotStart + i * 8) (slice p.bytes (slotStart + i * 8 + 8) (slotStart + c * 8))).patch 1
    (be 2 (c + word - 1))

section Delete

variable {p : PageData} {i c : Nat} (hi : i < c) (hc : slotStart + c * 8 ≤ PageSize)

include hi hc

theorem length_later : (slice p.bytes (slotStart + i * 8 + 8) (slotStart + c * 8)).length =
    (c - i - 1) * 8 := by
  rw [length_slice_of_le (by rw [p.length_bytes]; omega)]
  omega

theorem slice_deletedLeaf_low {a b : Nat} (ha : 3 ≤ a) (hb : b ≤ slotStart + i * 8) :
    slice (deletedLeaf p i c).bytes a b = slice p.bytes a b := by
  have hps := pageSize_eq
  have hst := slotStart_eq
  rw [deletedLeaf, PageData.slice_patch_be_of_ge (by omega) (by omega),
    PageData.slice_patch_of_le hb (by omega)]

theorem slice_deletedLeaf_keep {a b : Nat} (ha : slotStart + c * 8 ≤ a) :
    slice (deletedLeaf p i c).bytes a b = slice p.bytes a b := by
  have hps := pageSize_eq
  have hst := slotStart_eq
  have hlen := length_later (p := p) hi hc
  rw [deletedLeaf, PageData.slice_patch_be_of_ge (by omega) (by omega),
    PageData.slice_patch_of_ge (by omega) (by omega)]

theorem slice_deletedLeaf_slots :
    slice (deletedLeaf p i c).bytes slotStart (slotStart + (c - 1) * 8) =
      slice p.bytes slotStart (slotStart + i * 8) ++
        slice p.bytes (slotStart + i * 8 + 8) (slotStart + c * 8) := by
  have hps := pageSize_eq
  have hst := slotStart_eq
  have hlen := length_later (p := p) hi hc
  rw [← slice_append_slice (b := slotStart + i * 8) (by omega) (by omega),
    slice_deletedLeaf_low hi hc (by omega) (le_refl _), deletedLeaf,
    PageData.slice_patch_be_of_ge (by omega) (by omega),
    PageData.slice_patch_self (by omega) (by omega)]

end Delete

theorem deleteLeafEntry_eq (hi : i < n.keyCount) (hc : slotStart + n.keyCount * 8 ≤ PageSize) :
    n.deleteLeafEntry i = some { n with data := deletedLeaf n.data i n.keyCount } := by
  obtain ⟨id, type, p⟩ := n
  have hps := pageSize_eq
  have hst := slotStart_eq
  have hword := word_eq
  have hmod : Node.keyCount ⟨id, type, p⟩ * 8 % word = Node.keyCount ⟨id, type, p⟩ * 8 :=
    Nat.mod_eq_of_lt (by omega)
  simp only [Node.deleteLeafEntry, hmod]
  simp (disch := omega) only [PageData.range_eq_some, Option.bind_eq_bind, Option.bind_some,
    Node.withData_copyTo, Node.decrementKeyCount, Node.keyCount_patch]
  rfl

/-- `deleteLeafEntry`. -/
theorem deleteLeafEntry {es es' : List (Bytes × Bytes)}
    (h : LeafPage n.data (es ++ e :: es') sibling) :
    ∃ data, n.deleteLeafEntry es.length = some { n with data := data } ∧
      LeafPage data (es ++ es') sibling := by
  have hps := pageSize_eq
  have hst := slotStart_eq
  have hword := word_eq
  obtain ⟨ps, qs', rfl, hqs', hslotted⟩ := h.slotted_append
  obtain ⟨q, qs, rfl, rfl, rfl⟩ := List.map_eq_cons_iff.mp hqs'
  have hroom := hslotted.room
  have hfree := hslotted.free_le
  have hlength : (contents ps).length = ps.length := List.length_map _
  have hcount : n.keyCount = ps.length + 1 + qs.length := by
    rw [h.keyCount_eq]
    simp [contents]
    omega
  rw [length_extents, List.length_append, List.length_cons] at hroom
  rw [n.data.length_bytes] at hfree
  have hi : ps.length < n.keyCount := by omega
  have hc : slotStart + n.keyCount * 8 ≤ PageSize := by omega
  rw [hlength]
  refine ⟨_, deleteLeafEntry_eq hi hc, ?_⟩
  constructor
  case type_eq =>
    simp (disch := omega) only [deletedLeaf, PageData.head?_patch]
    exact h.type_eq
  case count_eq =>
    have hpow : (256 : Nat) ^ 2 = word := rfl
    rw [deletedLeaf, PageData.slice_patch_be_self (by omega) (by omega), beNat_be, hpow,
      show n.keyCount + word - 1 = n.keyCount - 1 + word by omega, Nat.add_mod_right,
      Nat.mod_eq_of_lt (by omega), hcount]
    simp [contents]
  case sibling_eq =>
    rw [slice_deletedLeaf_low hi hc (by omega) (by omega), h.sibling_eq]
  case slotted =>
    refine ⟨ps ++ qs, by simp [contents], ?_⟩
    rw [slice_deletedLeaf_low hi hc (by omega) (by omega)]
    have hsub : (extents (ps ++ qs)).Sublist (extents (ps ++ q :: qs)) := by
      rw [extents_append, extents_append, extents_cons]
      exact List.Sublist.append_left (List.Sublist.cons _ (List.sublist_cons_self _ _)) _
    refine hslotted.drop hsub ?_ ?_ ?_
    · rw [PageData.length_bytes, PageData.length_bytes]
    · have hfront : extents (ps ++ q :: qs) = extents ps ++ extents (q :: qs) := extents_append _ _
      have hback : extents (ps ++ q :: qs) = extents (ps ++ [q]) ++ extents qs := by simp
      have hlow := (hfront ▸ hslotted).slots_split.1
      have hhigh := (hback ▸ hslotted).slots_split.2
      rw [← hback, length_extents, length_extents, List.length_append, List.length_singleton,
        List.length_append, List.length_cons,
        show slotStart + 4 * (2 * (ps.length + 1)) = slotStart + ps.length * 8 + 8 by omega,
        show slotStart + 4 * (2 * (ps.length + (qs.length + 1))) = slotStart + n.keyCount * 8 by
          omega] at hhigh
      rw [length_extents, show slotStart + 4 * (2 * ps.length) = slotStart + ps.length * 8 by
        omega] at hlow
      rw [length_extents, List.length_append,
        show slotStart + 4 * (2 * (ps.length + qs.length)) = slotStart + (n.keyCount - 1) * 8 by
          omega, slice_deletedLeaf_slots hi hc, hlow, hhigh, extents_append, slots_append]
    · intro a b ha
      exact slice_deletedLeaf_keep hi hc (by omega)

/-- `setRightSibling`. -/
theorem setRightSibling (h : LeafPage n.data entries sibling) {id : Nat} (hid : id < 2 ^ 32) :
    LeafPage (n.setRightSibling id).data entries id := by
  have hps := pageSize_eq
  have hst := slotStart_eq
  have hkeep {a b : Nat} (ha : slotStart ≤ a) :
      slice (n.setRightSibling id).data.bytes a b = slice n.data.bytes a b :=
    PageData.slice_patch_be_of_ge (by omega) (by omega)
  have hlow {a b : Nat} (hb : b ≤ 5) :
      slice (n.setRightSibling id).data.bytes a b = slice n.data.bytes a b :=
    PageData.slice_patch_of_le hb (by omega)
  constructor
  case type_eq => exact (PageData.head?_patch (by omega)).trans h.type_eq
  case count_eq => rw [hlow (by omega), h.count_eq]
  case sibling_eq =>
    rw [Node.setRightSibling, PageData.slice_patch_be_self (by omega) (by omega),
      beNat_be_of_lt (by omega)]
  case slotted =>
    obtain ⟨ps, hps', hslotted⟩ := h.slotted
    refine ⟨ps, hps', ?_⟩
    rw [hlow (by omega)]
    have hroom := hslotted.room
    refine hslotted.drop (List.Sublist.refl _) ?_ ?_ ?_
    · rw [PageData.length_bytes, PageData.length_bytes]
    · rw [hkeep (le_refl _), hslotted.slots_eq]
    · intro a b ha
      exact hkeep (by omega)

end LeafPage

/-! ### Packed leaves -/

/-- A leaf without dead bytes. -/
structure PackedLeaf (p : PageData) (entries : List (Bytes × Bytes)) (sibling : Nat) : Prop
    extends LeafPage p entries sibling where
  packed : beNat (slice p.bytes 3 5) + entriesSize entries = PageSize + 8 * entries.length

namespace PackedLeaf

variable {n : Node} {entries : List (Bytes × Bytes)} {sibling : Nat}

theorem findFreeSpace_eq (h : PackedLeaf n.data entries sibling) :
    n.findFreeSpace + entriesSize entries = PageSize + 8 * entries.length := h.packed

theorem setRightSibling (h : PackedLeaf n.data entries sibling) {id : Nat} (hid : id < 2 ^ 32) :
    PackedLeaf (n.setRightSibling id).data entries id where
  toLeafPage := h.toLeafPage.setRightSibling hid
  packed := by
    have hps := pageSize_eq
    rw [Node.setRightSibling, PageData.slice_patch_of_le (by omega) (by omega)]
    exact h.packed

/-- The leaf without entries. -/
theorem makeNewLeafHeader : PackedLeaf makeNewLeafHeader [] 0 := by
  have hps := pageSize_eq
  have hst := slotStart_eq
  have hfree : beNat (slice Storage.makeNewLeafHeader.bytes 3 5) = PageSize := by
    rw [Storage.makeNewLeafHeader, newHeader, PageData.slice_patch_be_self (by omega)
      (by omega), beNat_be_of_lt (by omega)]
  refine ⟨⟨?_, ?_, ?_, [], rfl, ?_⟩, ?_⟩
  · rw [Storage.makeNewLeafHeader, newHeader, PageData.head?_patch (by omega),
      PageData.head?_patch (by omega), PageData.head?_patch_zero]
  · rw [Storage.makeNewLeafHeader, newHeader, PageData.slice_patch_of_le (by omega) (by omega),
      PageData.slice_patch_be_self (by omega) (by omega)]
    rfl
  · rw [Storage.makeNewLeafHeader, newHeader,
      PageData.slice_patch_be_of_ge (by omega) (by omega),
      PageData.slice_patch_be_of_ge (by omega) (by omega),
      PageData.slice_patch_of_ge (by simp) (by simp [hps]), PageData.slice_zero,
      beNat_replicate_zero]
  · rw [hfree]
    refine Slotted.nil ?_ (by omega) ?_
    · rw [PageData.length_bytes]
      omega
    · rw [PageData.length_bytes]
  · rw [hfree]
    rfl

/-- The loop that fills a leaf. -/
theorem appendLeafEntries {es es' : List (Bytes × Bytes)} (h : PackedLeaf n.data es sibling)
    (hfit : slotStart + entriesSize (es ++ es') ≤ PageSize) :
    ∃ data, n.appendLeafEntries es.length es' = some { n with data := data } ∧
      PackedLeaf data (es ++ es') sibling := by
  induction es' generalizing n es with
  | nil => exact ⟨n.data, rfl, by simpa using h⟩
  | cons e es' ih =>
    obtain ⟨key, value⟩ := e
    have hpacked := h.findFreeSpace_eq
    have hleaf : LeafPage n.data (es ++ []) sibling := by simpa using h.toLeafPage
    simp only [entriesSize_append, entriesSize_cons] at hfit
    obtain ⟨data, hrun, hdata, hptr⟩ := hleaf.insertLeafEntry
      (show slotStart + 8 * (es ++ []).length + (key.length + value.length + 8) ≤
          n.findFreeSpace by
        rw [List.append_nil]; omega)
    have hnext : PackedLeaf data (es ++ [(key, value)]) sibling :=
      { toLeafPage := hdata
        packed := by
          simp only [entriesSize_append, entriesSize_cons, entriesSize_nil, List.length_append,
            List.length_singleton]
          omega }
    obtain ⟨data', hrun', hdata'⟩ := ih (n := { n with data := data }) hnext
      (by simp only [entriesSize_append, entriesSize_cons, entriesSize_nil]; omega)
    refine ⟨data', ?_, by simpa using hdata'⟩
    rw [List.length_append, List.length_singleton] at hrun'
    rw [Node.appendLeafEntries, hrun]
    exact hrun'

/-- `rebuildLeaf` with entries that fit. -/
theorem rebuildLeaf {es : List (Bytes × Bytes)} (hfit : slotStart + entriesSize es ≤ PageSize) :
    ∃ data, n.rebuildLeaf es = some { n with data := data } ∧
      PackedLeaf data es n.rightSibling := by
  have hsibling : n.rightSibling < 2 ^ 32 := by
    have hlt := beNat_lt (slice n.data.bytes 5 9)
    rw [length_slice_of_le (by rw [n.data.length_bytes, pageSize_eq]; omega)] at hlt
    exact hlt
  obtain ⟨data, hrun, hdata⟩ := appendLeafEntries
    (n := ⟨n.pageID, .nodeLeaf, Storage.makeNewLeafHeader⟩) makeNewLeafHeader
    (show slotStart + entriesSize ([] ++ es) ≤ PageSize from hfit)
  refine ⟨_, ?_, hdata.setRightSibling (n := { n with data := data }) hsibling⟩
  rw [Node.rebuildLeaf]
  simp only [List.length_nil] at hrun
  rw [hrun]
  rfl

theorem compactLeaf (h : LeafPage n.data entries sibling) :
    ∃ data, n.compactLeaf = some { n with data := data } ∧ PackedLeaf data entries sibling := by
  obtain ⟨data, hrun, hdata⟩ := rebuildLeaf (n := n) h.entriesSize_le
  rw [h.rightSibling_eq] at hdata
  refine ⟨data, ?_, hdata⟩
  rw [Node.compactLeaf, h.leafEntries_eq]
  exact hrun

end PackedLeaf

/-! ### Runs of operations -/

/-- The operations of a leaf. -/
inductive LeafOp where
  | insertLeafEntry (key value : Bytes) (slotIndex : Nat)
  | deleteLeafEntry (slotIndex : Nat)
  | compactLeaf
  | rebuildLeaf (entries : List (Bytes × Bytes))
  | setRightSibling (pageID : Nat)

namespace LeafOp

/-- The operation on the page. -/
def run (n : Node) : LeafOp → Option Node
  | insertLeafEntry key value slotIndex => n.insertLeafEntry key value slotIndex
  | deleteLeafEntry slotIndex => n.deleteLeafEntry slotIndex
  | compactLeaf => n.compactLeaf
  | rebuildLeaf entries => n.rebuildLeaf entries
  | setRightSibling pageID => some (n.setRightSibling pageID)

/-- The operation on the list of entries and the right sibling. -/
def onList (s : List (Bytes × Bytes) × Nat) : LeafOp → List (Bytes × Bytes) × Nat
  | insertLeafEntry key value slotIndex =>
    (s.1.take slotIndex ++ (key, value) :: s.1.drop slotIndex, s.2)
  | deleteLeafEntry slotIndex => (s.1.eraseIdx slotIndex, s.2)
  | compactLeaf => s
  | rebuildLeaf entries => (entries, s.2)
  | setRightSibling pageID => (s.1, pageID)

/-- What a caller has to respect: slots exist, entries fit and page ids have
32 bits. -/
def Allowed (n : Node) : LeafOp → Prop
  | insertLeafEntry key value slotIndex => slotIndex ≤ n.keyCount ∧
      slotStart + 8 * n.keyCount + (key.length + value.length + 8) ≤ n.findFreeSpace
  | deleteLeafEntry slotIndex => slotIndex < n.keyCount
  | compactLeaf => True
  | rebuildLeaf entries => slotStart + entriesSize entries ≤ PageSize
  | setRightSibling pageID => pageID < 2 ^ 32

instance (n : Node) : (op : LeafOp) → Decidable (op.Allowed n)
  | insertLeafEntry _ _ _ => inferInstanceAs (Decidable (_ ∧ _))
  | deleteLeafEntry _ => inferInstanceAs (Decidable (_ < _))
  | compactLeaf => inferInstanceAs (Decidable True)
  | rebuildLeaf _ => inferInstanceAs (Decidable (_ ≤ _))
  | setRightSibling _ => inferInstanceAs (Decidable (_ < _))

/-- One operation on a page; a panic would leave it as it is. -/
def step (n : Node) (op : LeafOp) : Node := (op.run n).getD n

theorem run_page {n : Node} {s : List (Bytes × Bytes) × Nat} (h : LeafPage n.data s.1 s.2)
    {op : LeafOp} (hop : op.Allowed n) :
    ∃ n', op.run n = some n' ∧ LeafPage n'.data (op.onList s).1 (op.onList s).2 := by
  obtain ⟨es, sibling⟩ := s
  cases op with
  | insertLeafEntry key value i =>
    obtain ⟨hi, hfit⟩ := hop
    rw [h.keyCount_eq] at hi hfit
    have hsplit : LeafPage n.data (es.take i ++ es.drop i) sibling := by
      rwa [List.take_append_drop]
    obtain ⟨data, hrun, hdata, -⟩ :=
      hsplit.insertLeafEntry (by rw [List.take_append_drop]; exact hfit)
    rw [List.length_take_of_le hi] at hrun
    exact ⟨_, hrun, hdata⟩
  | deleteLeafEntry i =>
    have hi : i < es.length := h.keyCount_eq ▸ hop
    have hsplit : LeafPage n.data (es.take i ++ es[i] :: es.drop (i + 1)) sibling := by
      rwa [← List.drop_eq_getElem_cons hi, List.take_append_drop]
    obtain ⟨data, hrun, hdata⟩ := hsplit.deleteLeafEntry
    rw [List.length_take_of_le hi.le] at hrun
    refine ⟨_, hrun, ?_⟩
    rw [onList, List.eraseIdx_eq_take_drop_succ]
    exact hdata
  | compactLeaf =>
    obtain ⟨data, hrun, hdata⟩ := PackedLeaf.compactLeaf h
    exact ⟨_, hrun, hdata.toLeafPage⟩
  | rebuildLeaf entries =>
    obtain ⟨data, hrun, hdata⟩ := PackedLeaf.rebuildLeaf hop
    rw [h.rightSibling_eq] at hdata
    exact ⟨_, hrun, hdata.toLeafPage⟩
  | setRightSibling id => exact ⟨_, rfl, h.setRightSibling hop⟩

theorem foldlM_page {ops : List LeafOp} {n : Node} {s : List (Bytes × Bytes) × Nat}
    (h : LeafPage n.data s.1 s.2) (hops : Effect.Along step Allowed ops n) :
    ∃ n', ops.foldlM run n = some n' ∧
      LeafPage n'.data (ops.foldl onList s).1 (ops.foldl onList s).2 := by
  induction ops generalizing n s with
  | nil => exact ⟨n, rfl, h⟩
  | cons op ops ih =>
    obtain ⟨n', hrun, hpage⟩ := run_page h hops.1
    have hrest : Effect.Along step Allowed ops n' := by
      have hstep : step n op = n' := by rw [step, hrun, Option.getD_some]
      exact hstep ▸ hops.2
    obtain ⟨n'', hruns, hpages⟩ := ih hpage hrest
    refine ⟨n'', ?_, hpages⟩
    rw [List.foldlM_cons, hrun]
    exact hruns

end LeafOp

/-- The bytes of a leaf implement a list of entries: whatever sequence of
operations leads from an empty leaf to a page, the page reads as the list
that the same operations lead to. -/
theorem leaf_implements_list (pageID : Nat) (ops : List LeafOp)
    (hops : Effect.Along LeafOp.step LeafOp.Allowed ops
      ⟨pageID, .nodeLeaf, makeNewLeafHeader⟩) :
    ∃ n, ops.foldlM LeafOp.run ⟨pageID, .nodeLeaf, makeNewLeafHeader⟩ = some n ∧
      let (entries, sibling) := ops.foldl LeafOp.onList ([], 0)
      let live := 9 + (entries.map fun e => e.1.length + e.2.length + 8).sum
      n.keyCount = entries.length ∧
      (∀ i e, entries[i]? = some e → n.leafKey i = some e.1 ∧ n.leafValue i = some e.2) ∧
      n.rightSibling = sibling ∧
      n.leafLiveBytes = some live ∧
      ∃ packed, n.compactLeaf = some packed ∧ packed.leafLiveBytes = some live ∧
        9 + 8 * packed.keyCount ≤ packed.findFreeSpace ∧
        packed.findFreeSpace - (9 + 8 * packed.keyCount) = PageSize - live := by
  obtain ⟨n, hrun, hpage⟩ := LeafOp.foldlM_page
    (n := ⟨pageID, .nodeLeaf, makeNewLeafHeader⟩) (s := ([], 0))
    PackedLeaf.makeNewLeafHeader.toLeafPage hops
  refine ⟨n, hrun, ?_⟩
  generalize ops.foldl LeafOp.onList ([], 0) = s at hpage
  obtain ⟨entries, sibling⟩ := s
  change LeafPage n.data entries sibling at hpage
  have hst := slotStart_eq
  obtain ⟨data, hcompact, hpacked⟩ := PackedLeaf.compactLeaf hpage
  have hpackedPage : LeafPage ({ n with data := data } : Node).data entries sibling :=
    hpacked.toLeafPage
  refine ⟨hpage.keyCount_eq, fun i e he => ⟨hpage.leafKey_eq he, hpage.leafValue_eq he⟩,
    hpage.rightSibling_eq, hpage.leafLiveBytes_eq, _, hcompact, hpackedPage.leafLiveBytes_eq, ?_⟩
  have hroom := hpackedPage.room
  have hfree := PackedLeaf.findFreeSpace_eq (n := { n with data := data }) hpacked
  rw [hpackedPage.keyCount_eq]
  change _ ∧ _ = PageSize - (9 + entriesSize entries)
  omega

/-- An entry, a second one before it, the first deleted, and the page
compacted. -/
theorem leaf_implements_list_delete :
    ∃ n, [LeafOp.insertLeafEntry [2] [7] 0, .insertLeafEntry [1] [8, 9] 0, .setRightSibling 5,
        .deleteLeafEntry 1, .compactLeaf].foldlM LeafOp.run
          ⟨3, .nodeLeaf, makeNewLeafHeader⟩ = some n ∧
      n.leafKey 0 = some [1] ∧ n.leafValue 0 = some [8, 9] ∧ n.rightSibling = 5 ∧
      n.leafLiveBytes = some 20 := by
  obtain ⟨n, hrun, -, hread, hsibling, hlive, -⟩ := leaf_implements_list 3
    [.insertLeafEntry [2] [7] 0, .insertLeafEntry [1] [8, 9] 0, .setRightSibling 5,
      .deleteLeafEntry 1, .compactLeaf] (by decide +kernel)
  exact ⟨n, hrun, (hread 0 _ rfl).1, (hread 0 _ rfl).2, hsibling, hlive⟩

end MySQLight.Storage
