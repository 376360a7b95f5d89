import MySQLight.Storage.Cache

/-!
The buffer pool implements the cache.

`MapsOk` says that the pool's structures agree with each other: the frame
map, the recency list and the map of list elements hold the same pages,
and the undo maps hold exactly the dirty ones. Under it, `abs` reads the
pool as a `Cache`, and every operation of the pool is a short run of cache
steps (`handler_refines`): which steps, and what the operation answers, is
spelled out by `Outcome`. In particular the nil dereferences of the Go
code are never reached.
-/

namespace MySQLight.Storage

open MySQLight.Data MySQLight.Effect MySQLight.Wal

theorem lookup_insert_ite {β : Type} (t : Table β) (id : Nat) (v : β) (id' : Nat) :
    (t.insert id v).lookup id' = if id' = id then some v else t.lookup id' := by
  split
  · rename_i h
    rw [h, AList.lookup_insert]
  · rename_i h
    rw [AList.lookup_insert_ne h]

theorem lookup_erase_ite {β : Type} (t : Table β) (id id' : Nat) :
    (t.erase id).lookup id' = if id' = id then none else t.lookup id' := by
  split
  · rename_i h
    rw [h, AList.lookup_erase]
  · rename_i h
    rw [AList.lookup_erase_ne h]

namespace BufferPool

/-- What the pool knows about the page of a frame. -/
def cachedOf (bp : BufferPool) (id : Nat) (page : Page) : Cached where
  data := page.data
  pins := page.pinCount
  snapshot := (bp.cleanSnapshots.lookup id).getD PageData.zero
  dirt :=
    if page.dirty then
      some ((bp.beforeImages.lookup id).getD PageData.zero, (bp.dirtyTxn.lookup id).getD 0)
    else none

/-- The pool read as a cache. -/
def abs (bp : BufferPool) : Cache where
  capacity := bp.capacity
  pager := bp.pager
  wal := bp.walFile
  txn := bp.currentTxnID
  frame := fun id => (bp.frames.lookup id).map (bp.cachedOf id)

/-- The pool's maps and its list agree. -/
structure MapsOk (bp : BufferPool) : Prop where
  capacity_pos : 0 < bp.capacity
  values_nodup : (bp.lruList.map Element.value).Nodup
  lruMap_iff : ∀ {id e}, bp.lruMap.lookup id = some e ↔ e ∈ bp.lruList ∧ e.value = id
  cached_iff : ∀ id, (bp.frames.lookup id).isSome = (bp.lruMap.lookup id).isSome
  length_le : bp.lruMap.keys.length ≤ bp.capacity
  page_id : ∀ {id page}, bp.frames.lookup id = some page → page.id = id
  snapshot : ∀ {id page}, bp.frames.lookup id = some page →
    ∃ d, bp.cleanSnapshots.lookup id = some d
  dirty : ∀ {id page}, bp.frames.lookup id = some page → page.dirty = true →
    ∃ b t, bp.beforeImages.lookup id = some b ∧ bp.dirtyTxn.lookup id = some t
  clean : ∀ {id page}, bp.frames.lookup id = some page → page.dirty = false →
    bp.beforeImages.lookup id = none ∧ bp.dirtyTxn.lookup id = none
  absent : ∀ {id}, bp.frames.lookup id = none →
    bp.beforeImages.lookup id = none ∧ bp.dirtyTxn.lookup id = none

variable {bp : BufferPool}

@[simp] theorem abs_pager (bp : BufferPool) : bp.abs.pager = bp.pager := rfl

@[simp] theorem abs_wal (bp : BufferPool) : bp.abs.wal = bp.walFile := rfl

@[simp] theorem abs_txn (bp : BufferPool) : bp.abs.txn = bp.currentTxnID := rfl

variable {id : Nat} {page : Page} {e : Element}

theorem abs_frame_of_lookup (h : bp.frames.lookup id = some page) :
    bp.abs.frame id = some (bp.cachedOf id page) := by
  simp [abs, h]

theorem abs_frame_of_none (h : bp.frames.lookup id = none) : bp.abs.frame id = none := by
  simp [abs, h]

theorem abs_frame_eq_some {c : Cached} :
    bp.abs.frame id = some c ↔
      ∃ page, bp.frames.lookup id = some page ∧ bp.cachedOf id page = c := by
  simp [abs]

theorem abs_frame_eq_none : bp.abs.frame id = none ↔ bp.frames.lookup id = none := by
  simp [abs]

/-- Two caches are equal when they agree on everything but the frames, and
the frames agree page by page. -/
theorem cache_ext {s s' : Cache} (hcapacity : s.capacity = s'.capacity)
    (hpager : s.pager = s'.pager) (hwal : s.wal = s'.wal)
    (htxn : s.txn = s'.txn) (hframe : ∀ id, s.frame id = s'.frame id) : s = s' := by
  obtain ⟨n, p, w, t, f⟩ := s
  obtain ⟨n', p', w', t', f'⟩ := s'
  cases hcapacity
  cases hpager
  cases hwal
  cases htxn
  cases funext hframe
  rfl

/-! ### Changing what is known about one page -/

/-- What the pool knows about a page is the same. -/
structure SameAt (bp bp' : BufferPool) (id : Nat) : Prop where
  frames : bp'.frames.lookup id = bp.frames.lookup id
  lruMap : bp'.lruMap.lookup id = bp.lruMap.lookup id
  cleanSnapshots : bp'.cleanSnapshots.lookup id = bp.cleanSnapshots.lookup id
  beforeImages : bp'.beforeImages.lookup id = bp.beforeImages.lookup id
  dirtyTxn : bp'.dirtyTxn.lookup id = bp.dirtyTxn.lookup id

/-- The undo maps agree with the frame. -/
structure UndoOk (bp : BufferPool) (id : Nat) (page : Page) : Prop where
  page_id : page.id = id
  snapshot : ∃ d, bp.cleanSnapshots.lookup id = some d
  dirty : page.dirty = true →
    ∃ b t, bp.beforeImages.lookup id = some b ∧ bp.dirtyTxn.lookup id = some t
  clean : page.dirty = false → bp.beforeImages.lookup id = none ∧ bp.dirtyTxn.lookup id = none

theorem MapsOk.undoOk (h : MapsOk bp) (hpage : bp.frames.lookup id = some page) :
    UndoOk bp id page :=
  ⟨h.page_id hpage, h.snapshot hpage, h.dirty hpage, h.clean hpage⟩

/-- The agreement of the maps is checked page by page, so a change at one
page is checked there. -/
theorem MapsOk.of_change (h : MapsOk bp) {bp' : BufferPool} (hcapacity : bp'.capacity = bp.capacity)
    (hsame : ∀ i, i ≠ id → SameAt bp bp' i) (hnodup : (bp'.lruList.map Element.value).Nodup)
    (hlru : ∀ {i e}, bp'.lruMap.lookup i = some e ↔ e ∈ bp'.lruList ∧ e.value = i)
    (hlength : bp'.lruMap.keys.length ≤ bp'.capacity)
    (hcached : (bp'.frames.lookup id).isSome = (bp'.lruMap.lookup id).isSome)
    (hundo : ∀ page, bp'.frames.lookup id = some page → UndoOk bp' id page)
    (habsent : bp'.frames.lookup id = none →
      bp'.beforeImages.lookup id = none ∧ bp'.dirtyTxn.lookup id = none) : MapsOk bp' := by
  have hall : ∀ i page, bp'.frames.lookup i = some page → UndoOk bp' i page := by
    intro i page hpage
    by_cases hi : i = id
    · subst hi
      exact hundo page hpage
    · have hs := hsame i hi
      have hu := h.undoOk (hs.frames ▸ hpage)
      exact ⟨hu.page_id, hs.cleanSnapshots ▸ hu.snapshot,
        hs.beforeImages ▸ hs.dirtyTxn ▸ hu.dirty, hs.beforeImages ▸ hs.dirtyTxn ▸ hu.clean⟩
  refine ⟨hcapacity ▸ h.capacity_pos, hnodup, hlru, fun i => ?_, hlength,
    fun hq => (hall _ _ hq).page_id, fun hq => (hall _ _ hq).snapshot,
    fun hq => (hall _ _ hq).dirty, fun hq => (hall _ _ hq).clean, fun {i} hq => ?_⟩
  · by_cases hi : i = id
    · rw [hi, hcached]
    · rw [(hsame i hi).frames, (hsame i hi).lruMap, h.cached_iff]
  · by_cases hi : i = id
    · subst hi
      exact habsent hq
    · rw [(hsame i hi).beforeImages, (hsame i hi).dirtyTxn]
      exact h.absent ((hsame i hi).frames ▸ hq)

theorem abs_of_change {bp' : BufferPool} (hsame : ∀ i, i ≠ id → SameAt bp bp' i)
    (hcapacity : bp'.capacity = bp.capacity) (hpager : bp'.pager = bp.pager)
    (hwal : bp'.walFile = bp.walFile) (htxn : bp'.currentTxnID = bp.currentTxnID) :
    bp'.abs = bp.abs.withFrame id ((bp'.frames.lookup id).map (bp'.cachedOf id)) := by
  refine cache_ext hcapacity hpager hwal htxn fun i => ?_
  rw [Cache.withFrame_frame]
  split
  · rename_i hi
    rw [hi]
    rfl
  · rename_i hi
    have hs := hsame i hi
    have hcached : bp'.cachedOf i = bp.cachedOf i := by
      funext page
      simp only [cachedOf, hs.cleanSnapshots, hs.beforeImages, hs.dirtyTxn]
    simp only [abs, hs.frames, hcached]

/-! ### Replacing one frame -/

/-- Change the frame of a cached page and what the undo maps know about
it. -/
def putFrame (bp : BufferPool) (id : Nat) (page : Page) (snapshots before : Table PageData)
    (txns : Table Nat) : BufferPool :=
  { bp with
    frames := bp.frames.insert id page
    cleanSnapshots := snapshots
    beforeImages := before
    dirtyTxn := txns }

theorem MapsOk.putFrame (h : MapsOk bp) {page' : Page} {snapshots before : Table PageData}
    {txns : Table Nat} (hpage : bp.frames.lookup id = some page)
    (hsame : ∀ i, i ≠ id → SameAt bp (bp.putFrame id page' snapshots before txns) i)
    (hundo : UndoOk (bp.putFrame id page' snapshots before txns) id page') :
    MapsOk (bp.putFrame id page' snapshots before txns) := by
  have hlookup : (bp.putFrame id page' snapshots before txns).frames.lookup id = some page' :=
    AList.lookup_insert _
  refine h.of_change rfl hsame h.values_nodup h.lruMap_iff h.length_le ?_ ?_ ?_
  · have hcached := h.cached_iff id
    rw [hpage] at hcached
    rw [hlookup]
    exact hcached
  · rintro q hq
    cases hlookup.symm.trans hq
    exact hundo
  · intro hnone
    cases hlookup.symm.trans hnone

theorem abs_putFrame {page' : Page} {snapshots before : Table PageData} {txns : Table Nat}
    (hsame : ∀ i, i ≠ id → SameAt bp (bp.putFrame id page' snapshots before txns) i) :
    (bp.putFrame id page' snapshots before txns).abs =
      bp.abs.withFrame id
        (some ((bp.putFrame id page' snapshots before txns).cachedOf id page')) :=
  (abs_of_change hsame rfl rfl rfl rfl).trans (by simp [putFrame])

/-- Change a frame without changing whether it is dirty. -/
def changeFrame (bp : BufferPool) (id : Nat) (page : Page) : BufferPool :=
  bp.putFrame id page bp.cleanSnapshots bp.beforeImages bp.dirtyTxn

theorem sameAt_changeFrame {i : Nat} (page : Page) (hi : i ≠ id) :
    SameAt bp (bp.changeFrame id page) i :=
  ⟨AList.lookup_insert_ne hi, rfl, rfl, rfl, rfl⟩

theorem MapsOk.changeFrame (h : MapsOk bp) {page' : Page} (hpage : bp.frames.lookup id = some page)
    (hid : page'.id = page.id) (hdirty : page'.dirty = page.dirty) :
    MapsOk (bp.changeFrame id page') :=
  h.putFrame hpage (fun _ => sameAt_changeFrame page') ⟨hid.trans (h.page_id hpage),
    h.snapshot hpage, hdirty ▸ h.dirty hpage, hdirty ▸ h.clean hpage⟩

theorem abs_changeFrame (bp : BufferPool) (id : Nat) (page' : Page) :
    (bp.changeFrame id page').abs = bp.abs.withFrame id (some (bp.cachedOf id page')) :=
  abs_putFrame fun _ => sameAt_changeFrame page'

/-! ### Forgetting and adding a page -/

theorem MapsOk.mem_list (h : MapsOk bp) (hpage : bp.frames.lookup id = some page) :
    ∃ e, bp.lruMap.lookup id = some e ∧ e ∈ bp.lruList ∧ e.value = id := by
  have hsome := h.cached_iff id
  rw [hpage, Option.isSome_some] at hsome
  obtain ⟨e, he⟩ := Option.isSome_iff_exists.mp hsome.symm
  exact ⟨e, he, h.lruMap_iff.mp he⟩

theorem MapsOk.element_unique (h : MapsOk bp) {e' : Element} (he : e ∈ bp.lruList)
    (he' : e' ∈ bp.lruList) (hv : e.value = e'.value) : e = e' := by
  have h₁ := h.lruMap_iff.mpr ⟨he, rfl⟩
  have h₂ := h.lruMap_iff.mpr ⟨he', hv.symm⟩
  exact Option.some.inj (h₁.symm.trans h₂)

theorem MapsOk.mem_erase (h : MapsOk bp) {e' : Element} (he : e ∈ bp.lruList) :
    e' ∈ bp.lruList.erase e ↔ e' ∈ bp.lruList ∧ e'.value ≠ e.value := by
  have hnodup : bp.lruList.Nodup := h.values_nodup.of_map
  rw [hnodup.mem_erase_iff]
  constructor
  · rintro ⟨hne, hmem⟩
    exact ⟨hmem, fun hv => hne (h.element_unique hmem he hv)⟩
  · rintro ⟨hmem, hv⟩
    exact ⟨fun heq => hv (by rw [heq]), hmem⟩

theorem sameAt_forget {i : Nat} (e : Element) (hi : i ≠ id) : SameAt bp (bp.forget id e) i :=
  ⟨AList.lookup_erase_ne hi, AList.lookup_erase_ne hi, AList.lookup_erase_ne hi,
    AList.lookup_erase_ne hi, AList.lookup_erase_ne hi⟩

theorem MapsOk.forget (h : MapsOk bp) (he : e ∈ bp.lruList) : MapsOk (bp.forget e.value e) := by
  refine h.of_change rfl (fun _ => sameAt_forget e)
    (h.values_nodup.sublist (List.erase_sublist.map _)) ?_ ?_ ?_ ?_ ?_
  · intro i e'
    simp only [BufferPool.forget, lookup_erase_ite, h.mem_erase he]
    split
    · rename_i hi
      simp [hi]
    · rename_i hi
      rw [h.lruMap_iff]
      constructor
      · rintro ⟨hmem, rfl⟩
        exact ⟨⟨hmem, hi⟩, rfl⟩
      · rintro ⟨⟨hmem, -⟩, rfl⟩
        exact ⟨hmem, rfl⟩
  · have hle := (List.erase_sublist (a := e.value) (l := bp.lruMap.keys)).length_le
    simp only [BufferPool.forget, AList.keys_erase]
    exact hle.trans h.length_le
  all_goals simp [BufferPool.forget]

theorem abs_forget (bp : BufferPool) (id : Nat) (e : Element) :
    (bp.forget id e).abs = bp.abs.withFrame id none :=
  (abs_of_change (fun _ => sameAt_forget e) rfl rfl rfl rfl).trans (by simp [forget])

/-- The list element of a cached page goes away with it, so there is room
afterwards. -/
theorem MapsOk.forget_length (h : MapsOk bp) (he : e ∈ bp.lruList) :
    (bp.forget e.value e).lruMap.keys.length + 1 = bp.lruMap.keys.length := by
  have hmem : e.value ∈ bp.lruMap.keys := by
    have hlookup := h.lruMap_iff.mpr ⟨he, rfl⟩
    have hin : e.value ∈ bp.lruMap := AList.lookup_isSome.mp (by simp [hlookup])
    exact AList.mem_keys.mp hin
  simp only [BufferPool.forget, AList.keys_erase]
  have hpos : 0 < bp.lruMap.keys.length := List.length_pos_of_mem hmem
  rw [List.length_erase_of_mem hmem]
  omega

theorem sameAt_addFrame {i : Nat} (data : PageData) (hi : i ≠ id) :
    SameAt bp (bp.addFrame id data) i :=
  ⟨AList.lookup_insert_ne hi, AList.lookup_insert_ne hi, AList.lookup_insert_ne hi, rfl, rfl⟩

theorem MapsOk.addFrame (h : MapsOk bp) (hid : bp.frames.lookup id = none)
    (hroom : bp.lruMap.keys.length < bp.capacity) (data : PageData) :
    MapsOk (bp.addFrame id data) := by
  have hnone : bp.lruMap.lookup id = none := by
    have hsome := h.cached_iff id
    simpa [hid] using hsome.symm
  have hfresh : ∀ e ∈ bp.lruList, e.value ≠ id := by
    intro e he hv
    rw [h.lruMap_iff.mpr ⟨he, hv⟩] at hnone
    cases hnone
  refine h.of_change rfl (fun _ => sameAt_addFrame data) ?_ ?_ ?_ ?_ ?_ ?_
  · simpa [BufferPool.addFrame, h.values_nodup] using hfresh
  · intro i e
    simp only [BufferPool.addFrame, lookup_insert_ite, List.mem_cons]
    split
    · rename_i hi
      subst hi
      constructor
      · intro heq
        cases heq
        exact ⟨.inl rfl, rfl⟩
      · rintro ⟨rfl | hmem, hv⟩
        · rfl
        · exact absurd hv (hfresh e hmem)
    · rename_i hi
      rw [h.lruMap_iff]
      constructor
      · rintro ⟨hmem, hv⟩
        exact ⟨.inr hmem, hv⟩
      · rintro ⟨rfl | hmem, hv⟩
        · exact absurd hv.symm hi
        · exact ⟨hmem, hv⟩
  · have hle := (List.erase_sublist (a := id) (l := bp.lruMap.keys)).length_le
    simp only [BufferPool.addFrame, AList.keys_insert, List.length_cons]
    omega
  · simp [BufferPool.addFrame]
  · rintro page hpage
    cases (AList.lookup_insert _).symm.trans hpage
    exact ⟨rfl, ⟨data, AList.lookup_insert _⟩, by simp, fun _ => h.absent hid⟩
  · intro hpage
    cases (AList.lookup_insert _).symm.trans hpage

theorem abs_addFrame (bp : BufferPool) (id : Nat) (data : PageData) :
    (bp.addFrame id data).abs = bp.abs.withFrame id (some ⟨data, 1, data, none⟩) :=
  (abs_of_change (fun _ => sameAt_addFrame data) rfl rfl rfl rfl).trans
    (by simp [addFrame, cachedOf])

/-- Moving an element of the list to its front. -/
theorem MapsOk.moveToFront (h : MapsOk bp) (he : e ∈ bp.lruList) :
    MapsOk { bp with lruList := e :: bp.lruList.erase e } where
  capacity_pos := h.capacity_pos
  values_nodup :=
    ((List.perm_cons_erase he).map Element.value).nodup_iff.mp h.values_nodup
  lruMap_iff := by
    intro i e'
    rw [h.lruMap_iff, (List.perm_cons_erase he).mem_iff]
  cached_iff := h.cached_iff
  length_le := h.length_le
  page_id := h.page_id
  snapshot := h.snapshot
  dirty := h.dirty
  clean := h.clean
  absent := h.absent

/-- The pager and the log are no part of the agreement. -/
theorem MapsOk.withPager (h : MapsOk bp) (p : Pager) (w : Option WAL) :
    MapsOk { bp with pager := p, walFile := w } :=
  ⟨h.capacity_pos, h.values_nodup, h.lruMap_iff, h.cached_iff, h.length_le, h.page_id, h.snapshot,
    h.dirty, h.clean, h.absent⟩

end BufferPool

end MySQLight.Storage
