import MySQLight.Storage.PoolRefinement

/-!
The operations of the buffer pool as steps of the cache.

`Outcome` lists, for every operation, its possible answers and the cache
steps it makes in each case; `handler_refines` proves that the pool's own
code behaves so, as long as the operating system does not fail.
-/

namespace MySQLight.Storage

open MySQLight.Data MySQLight.Effect MySQLight.Wal Fallible

/-- The outcomes of `FetchPage`. -/
inductive Fetched (s : Cache) (id : Nat) : Except Err PageData → List Step → Prop
  | hit {c : Cached} (hc : s.frame id = some c) : Fetched s id (.ok c.data) [.pin id]
  | loaded (hnone : s.frame id = none) (hid : id < s.pager.pageCount) :
      Fetched s id (.ok (s.pager.disk.pages id)) [.load id]
  | replaced {v : Nat} (hnone : s.frame id = none) (hid : id < s.pager.pageCount)
      (hne : v ≠ id) : Fetched s id (.ok (s.pager.disk.pages id)) [.evict v, .load id]
  | missing (hnone : s.frame id = none) (hid : s.pager.pageCount ≤ id) :
      Fetched s id (.error .pageIDTooBig) []
  | missingEvicted {v : Nat} (hnone : s.frame id = none) (hid : s.pager.pageCount ≤ id) :
      Fetched s id (.error .pageIDTooBig) [.evict v]
  | noRoom (hnone : s.frame id = none) (hpinned : ∀ i c, s.frame i = some c → c.pins ≠ 0) :
      Fetched s id (.error .allPagesArePinned) []

/-- The outcomes of `AllocatePage`. -/
inductive Allocated (s : Cache) : Except Err Nat → List Step → Prop
  | full (hfree : s.pager.freeListHead = 0) (hfull : s.pager.disk.capacity ≤ s.pager.pageCount) :
      Allocated s (.error .io) []
  | grown (hfree : s.pager.freeListHead = 0) (hroom : s.pager.pageCount < s.pager.disk.capacity) :
      Allocated s (.ok s.pager.pageCount) [.grow]
  | badLink (hfree : s.pager.freeListHead ≠ 0) (hbad : s.pager.pageCount ≤ s.pager.freeListHead) :
      Allocated s (.error .pageIDTooBig) []
  | popped (hfree : s.pager.freeListHead ≠ 0) (hok : s.pager.freeListHead < s.pager.pageCount) :
      Allocated s (.ok s.pager.freeListHead) [.pop]

/-- What an operation answers and which steps it makes. -/
def Outcome (s : Cache) : (o : PoolOp) → PoolI.Resp o → List Step → Prop
  | .data (.fetchPage id), r, ms => Fetched s id r ms
  | .data (.unpinPage id dirty), r, ms =>
    s.frame id = none ∧ r = .error .pageNotFoundToUnpin ∧ ms = [] ∨
      (s.frame id).isSome ∧ r = .ok () ∧ ms = [.unpin id dirty]
  | .data (.setData id data), _, ms =>
    s.frame id = none ∧ ms = [] ∨ (s.frame id).isSome ∧ ms = [.set id data]
  | .data .allocatePage, r, ms => Allocated s r ms
  | .data (.freePage id), r, ms =>
    s.pager.pageCount ≤ id ∧ r = .error .pageIDDoesNotExist ∧ ms = [] ∨
      id < s.pager.pageCount ∧ r = .ok () ∧ ms = [.free id]
  | .flushAll, r, ms =>
    r = .ok () ∧ ∃ ids : List Nat, ids.Nodup ∧
      (∀ id, id ∈ ids ↔ ∃ c, s.frame id = some c ∧ c.dirt.isSome) ∧
      ms = .tick :: ids.map .flush
  | .setTxnID t, _, ms => ms = [.setTxn t]
  | .rollbackTxn t, r, ms =>
    r = .ok () ∧ ∃ ids : List Nat, ids.Nodup ∧
      (∀ id, id ∈ ids ↔ ∃ c b, s.frame id = some c ∧ c.dirt = some (b, t)) ∧
      ms = .tick :: ids.map .rollback
  | .writeRecord type t, r, ms =>
    s.wal = none ∧ r = .error .panic ∧ ms = [] ∨
      s.wal.isSome ∧ r = .ok () ∧ ms = [.append type t]
  | .setCatalogRootPageID id, r, ms => r = .ok () ∧ ms = [.setRoot id]
  | .order, _, ms => ms = [.tick]

namespace BufferPool

variable {bp : BufferPool}

/-- The pool agrees with itself, and the cache it implements is in order. -/
structure Ok (bp : BufferPool) : Prop where
  maps : MapsOk bp
  cache : bp.abs.Ok

variable {id : Nat} {page : Page}

theorem Ok.lt_pageCount (h : Ok bp) (hpage : bp.frames.lookup id = some page) :
    id < bp.pager.pageCount :=
  h.cache.cached_lt (abs_frame_of_lookup hpage)

/-! ### Writing back -/

theorem writeRecord_run_of_some (hf : bp.pager.disk.NoFaults) {w : WAL} (hw : bp.walFile = some w)
    (r : Record) :
    (writeRecord r).run bp =
      (.ok (),
        { bp with
          walFile := some ⟨(w.nextLSN + 1) % 2 ^ 64⟩
          pager := bp.pager.wrote (.append { r with lsn := w.nextLSN }) }) := by
  simp [writeRecord, run_bind, hw, Wal.writeRecord_run hf, Pager.wrote]

theorem MapsOk.cachedOf_dirt (h : MapsOk bp) (hpage : bp.frames.lookup id = some page)
    (hd : page.dirty = true) :
    ∃ b t, bp.beforeImages.lookup id = some b ∧ bp.dirtyTxn.lookup id = some t ∧
      (bp.cachedOf id page).dirt = some (b, t) := by
  obtain ⟨b, t, hb, ht⟩ := h.dirty hpage hd
  exact ⟨b, t, hb, ht, by simp [cachedOf, hd, hb, ht]⟩

theorem cachedOf_dirt_isSome (bp : BufferPool) (id : Nat) (page : Page) :
    (bp.cachedOf id page).dirt.isSome = page.dirty := by
  unfold cachedOf
  cases page.dirty <;> simp

theorem abs_withPager (bp : BufferPool) (p : Pager) (w : Option WAL) :
    ({ bp with pager := p, walFile := w } : BufferPool).abs =
      { bp.abs with pager := p, wal := w } := rfl

/-- A dirty page is logged and written. -/
theorem Ok.writeBack_run (h : Ok bp) (hpage : bp.frames.lookup id = some page)
    (hd : page.dirty = true) :
    ∃ p w, (writeBack id page.data).run bp = (.ok (), { bp with pager := p, walFile := w }) ∧
      ({ bp with pager := p, walFile := w } : BufferPool).abs =
        bp.abs.writeBack id (bp.cachedOf id page) := by
  obtain ⟨b, t, hb, ht, hdirt⟩ := h.maps.cachedOf_dirt hpage hd
  have hf : bp.pager.disk.NoFaults := h.cache.noFaults
  have hlt := h.lt_pageCount hpage
  have hcap : id < bp.pager.disk.capacity := hlt.trans_le h.cache.count_le
  have hdata : (bp.cachedOf id page).data = page.data := rfl
  cases hw : bp.walFile with
  | none =>
    refine ⟨bp.pager.wrote (.page id page.data), none, ?_, ?_⟩
    · have hwrite := Pager.writePage_run hf id page.data
      rw [if_neg (by omega), if_neg (by omega)] at hwrite
      simp [writeBack, writeWALUpdate, run_bind, hw, onPager, hwrite]
    · simp [abs_withPager, Cache.writeBack, hdirt, Cache.logged, hw, hdata]
  | some w =>
    let r : Record := { updateRecord id t b page.data with lsn := w.nextLSN }
    have hwrite := Pager.writePage_run (p := bp.pager.wrote (.append r)) hf id page.data
    rw [if_neg (by exact Nat.not_le.mpr hlt), if_neg (by exact Nat.not_le.mpr hcap)] at hwrite
    refine ⟨(bp.pager.wrote (.append r)).wrote (.page id page.data),
      some ⟨(w.nextLSN + 1) % 2 ^ 64⟩, ?_, ?_⟩
    · simp [writeBack, writeWALUpdate, run_bind, run_tryCatch, hw, hb, ht,
        writeRecord_run_of_some hf hw, onPager, r, hwrite]
    · simp [abs_withPager, Cache.writeBack, hdirt, Cache.logged, hw, hdata, r]

/-! ### Eviction -/

/-- Where every list element has a frame, the walk finds an unpinned page
or there is none. -/
theorem findUnpinned_cases {frames : Table Page} {es : List Element}
    (h : ∀ e ∈ es, ∃ page, frames.lookup e.value = some page) :
    (∃ e ∈ es, findUnpinned frames es = .ok e ∧
      ∃ page, frames.lookup e.value = some page ∧ page.pinCount = 0) ∨
    findUnpinned frames es = .error .allPagesArePinned ∧
      ∀ e ∈ es, ∀ page, frames.lookup e.value = some page → page.pinCount ≠ 0 := by
  induction es with
  | nil => exact .inr ⟨rfl, by simp⟩
  | cons e es ih =>
    obtain ⟨page, hpage⟩ := h e List.mem_cons_self
    by_cases hpin : page.pinCount = 0
    · refine .inl ⟨e, List.mem_cons_self, ?_, page, hpage, hpin⟩
      simp [findUnpinned, hpage, hpin]
    · have hstep : findUnpinned frames (e :: es) = findUnpinned frames es := by
        simp [findUnpinned, hpage, hpin]
      rcases ih fun e' h' => h e' (List.mem_cons_of_mem _ h') with
        ⟨e', hmem, hrun, hpage'⟩ | ⟨hrun, hall⟩
      · exact .inl ⟨e', List.mem_cons_of_mem _ hmem, hstep.trans hrun, hpage'⟩
      · refine .inr ⟨hstep.trans hrun, ?_⟩
        intro e' hmem page' hpage'
        rcases List.mem_cons.mp hmem with rfl | hmem
        · rw [hpage] at hpage'
          cases hpage'
          exact hpin
        · exact hall e' hmem page' hpage'

theorem MapsOk.victim_cases (h : MapsOk bp) (hfull : bp.capacity ≤ bp.lruMap.keys.length) :
    (∃ e ∈ bp.lruList, bp.victim = .ok e ∧
      ∃ page, bp.frames.lookup e.value = some page ∧ page.pinCount = 0) ∨
    bp.victim = .error .allPagesArePinned ∧
      ∀ id page, bp.frames.lookup id = some page → page.pinCount ≠ 0 := by
  -- A full pool of positive capacity has a list element.
  have hne : bp.lruList.reverse ≠ [] := by
    intro hnil
    have hpos : 0 < bp.lruMap.keys.length := h.capacity_pos.trans_le hfull
    obtain ⟨id, hid⟩ := List.exists_mem_of_length_pos hpos
    have hsome : (bp.lruMap.lookup id).isSome :=
      AList.lookup_isSome.mpr (AList.mem_keys.mpr hid)
    obtain ⟨e, he⟩ := Option.isSome_iff_exists.mp hsome
    have hmem := (h.lruMap_iff.mp he).1
    rw [← List.mem_reverse, hnil] at hmem
    cases hmem
  have hvictim : bp.victim = findUnpinned bp.frames bp.lruList.reverse := by
    unfold victim
    split
    · rename_i hnil
      exact absurd hnil hne
    · rfl
  have hframes : ∀ e ∈ bp.lruList.reverse, ∃ page, bp.frames.lookup e.value = some page := by
    intro e he
    have hlookup := h.lruMap_iff.mpr ⟨List.mem_reverse.mp he, rfl⟩
    have hsome := h.cached_iff e.value
    rw [hlookup] at hsome
    exact Option.isSome_iff_exists.mp hsome
  rw [hvictim]
  rcases findUnpinned_cases hframes with ⟨e, hmem, hrun, hpage⟩ | ⟨hrun, hall⟩
  · exact .inl ⟨e, List.mem_reverse.mp hmem, hrun, hpage⟩
  · refine .inr ⟨hrun, ?_⟩
    intro id page hpage
    obtain ⟨e, -, hmem, hv⟩ := h.mem_list hpage
    exact hall e (List.mem_reverse.mpr hmem) page (hv ▸ hpage)

/-- An eviction from a full pool: some unpinned page leaves the cache, or
every page is pinned and nothing happens. -/
theorem Ok.evict_run (h : Ok bp) (hfull : bp.capacity ≤ bp.lruMap.keys.length) :
    (∃ v bp', evict.run bp = (.ok (), bp') ∧ bp.abs.Can (.evict v) ∧
      bp'.abs = bp.abs.apply (.evict v) ∧ MapsOk bp' ∧
      bp'.capacity = bp.capacity ∧ bp'.lruMap.keys.length < bp.capacity) ∨
    evict.run bp = (.error .allPagesArePinned, bp) ∧
      ∀ id c, bp.abs.frame id = some c → c.pins ≠ 0 := by
  rcases h.maps.victim_cases hfull with ⟨e, hmem, hvictim, page, hpage, hpin⟩ | ⟨hvictim, hall⟩
  · have hframe := abs_frame_of_lookup hpage
    have hlength := h.maps.forget_length hmem
    have hle := h.maps.length_le
    have happly : bp.abs.apply (.evict e.value) =
        (bp.abs.writeBack e.value (bp.cachedOf e.value page)).withFrame e.value none := by
      simp [Cache.apply, hframe]
    obtain ⟨hd, hrun⟩ | ⟨hd, hrun⟩ := evict_run_of_victim hvictim hpage
    · refine .inl ⟨e.value, bp.forget e.value e, hrun, ⟨_, hframe, hpin⟩, ?_, h.maps.forget hmem,
        rfl, by omega⟩
      have hdirt : (bp.cachedOf e.value page).dirt = none := by simp [cachedOf, hd]
      rw [abs_forget, happly]
      simp [Cache.writeBack, hdirt]
    · obtain ⟨p, w, hwrite, habs⟩ := h.writeBack_run hpage hd
      rw [run_bind_of_ok hwrite] at hrun
      refine .inl ⟨e.value, _, hrun, ⟨_, hframe, hpin⟩, ?_, (h.maps.withPager p w).forget hmem,
        rfl, ?_⟩
      · rw [abs_forget, habs, happly]
      · exact (show (bp.forget e.value e).lruMap.keys.length < bp.capacity by omega)
  · refine .inr ⟨by simp [evict, run_bind, hvictim], ?_⟩
    intro id c hc
    obtain ⟨page, hpage, rfl⟩ := abs_frame_eq_some.mp hc
    exact hall id page hpage

/-! ### Fetching -/

/-- The last part of `FetchPage`, once there is room. -/
theorem Ok.load_run (h : Ok bp) (hnone : bp.frames.lookup id = none)
    (hroom : bp.lruMap.keys.length < bp.capacity) (hid : id < bp.pager.pageCount) :
    ∃ bp', (load id).run bp = (.ok (bp.pager.disk.pages id), bp') ∧
      bp'.abs = bp.abs.apply (.load id) ∧ MapsOk bp' := by
  have hsize : id < bp.pager.disk.size := hid.trans_le h.cache.count_le_size
  have hread := Pager.readPage_run h.cache.noFaults id
  rw [abs_pager, if_neg (by omega), if_neg (by omega)] at hread
  refine ⟨{ bp with pager := bp.pager.ticked }.addFrame id (bp.pager.disk.pages id), ?_, ?_, ?_⟩
  · rw [load, run_bind_of_ok (onPager_of_run hread)]
    rfl
  · rw [abs_addFrame]
    rfl
  · exact (h.maps.withPager bp.pager.ticked bp.walFile).addFrame hnone hroom _

theorem load_run_of_ge (hf : bp.pager.disk.NoFaults) (hid : bp.pager.pageCount ≤ id) :
    (load id).run bp = (.error .pageIDTooBig, bp) := by
  have hread := Pager.readPage_run hf id
  rw [if_pos hid] at hread
  rw [load, run_bind_of_error (onPager_of_run hread)]

/-- An operation with this answer and this pool afterwards is a run of
possible steps of the cache, as `Outcome` lists them. -/
def Refines (bp : BufferPool) (o : PoolOp) (r : PoolI.Resp o × BufferPool) : Prop :=
  ∃ ms, Outcome bp.abs o r.1 ms ∧ Cache.CanAll ms bp.abs ∧ r.2.abs = Cache.steps ms bp.abs ∧
    MapsOk r.2

/-- What an eviction leaves of another page. -/
theorem evicted_of_abs {bp₁ : BufferPool} {v : Nat} (hne : v ≠ id) (hcan : bp.abs.Can (.evict v))
    (habs : bp₁.abs = bp.abs.apply (.evict v)) :
    bp₁.pager.pageCount = bp.pager.pageCount ∧
      bp₁.pager.disk.pages id = bp.pager.disk.pages id ∧ bp₁.abs.frame id = bp.abs.frame id := by
  obtain ⟨c, hc, -⟩ := hcan
  rw [← abs_pager bp₁, habs]
  simp only [Cache.apply, hc, Cache.withFrame_pager, Cache.writeBack_pages, abs_pager,
    Cache.withFrame_frame, if_neg hne.symm, Cache.writeBack_frame, Cache.writeBack_pageCount,
    and_true, true_and]
  split
  · rw [Function.update_of_ne hne.symm]
  · rfl

theorem Ok.fetchPage_refines (h : Ok bp) (id : Nat) :
    Refines bp (.data (.fetchPage id)) ((fetchPage id).run bp) := by
  obtain ⟨hsome, hlru, -⟩ | ⟨page, e, hpage, he, hrun⟩ | ⟨hpage, ⟨hfull, hrun⟩ | ⟨hroom, hrun⟩⟩ :=
    fetchPage_cases bp id
  · rw [h.maps.cached_iff, hlru] at hsome
    cases hsome
  · have hframe := abs_frame_of_lookup hpage
    have hmaps := h.maps.moveToFront (h.maps.lruMap_iff.mp he).1
    rw [hrun]
    refine ⟨[.pin id], Fetched.hit hframe, ⟨⟨_, hframe⟩, trivial⟩, ?_,
      hmaps.changeFrame hpage (by rfl) (by rfl)⟩
    simp only [Cache.steps_cons, Cache.steps_nil, Cache.apply, hframe]
    exact abs_changeFrame { bp with lruList := e :: bp.lruList.erase e } id _
  · have hnone := abs_frame_of_none hpage
    rcases h.evict_run hfull with
      ⟨v, bp₁, hevict, hcan, habs₁, hmaps₁, hcap₁, hroom₁⟩ | ⟨hevict, hpinned⟩
    · have hok₁ : Ok bp₁ := ⟨hmaps₁, habs₁ ▸ h.cache.apply hcan⟩
      have hvid : v ≠ id := by
        rintro rfl
        obtain ⟨c, hc, -⟩ := hcan
        rw [hnone] at hc
        cases hc
      obtain ⟨hcount₁, hpages₁, hframe₁⟩ := evicted_of_abs hvid hcan habs₁
      rw [hnone] at hframe₁
      rw [hrun, run_bind_of_ok hevict]
      by_cases hid : bp.pager.pageCount ≤ id
      · rw [load_run_of_ge hok₁.cache.noFaults (hcount₁ ▸ hid)]
        exact ⟨[.evict v], Fetched.missingEvicted hnone hid, ⟨hcan, trivial⟩, habs₁, hmaps₁⟩
      · have hlt : id < bp₁.pager.pageCount := by omega
        obtain ⟨bp₂, hload, habs₂, hmaps₂⟩ :=
          hok₁.load_run (abs_frame_eq_none.mp hframe₁) (hcap₁ ▸ hroom₁) hlt
        rw [hload, hpages₁]
        refine ⟨[.evict v, .load id], Fetched.replaced hnone (Nat.not_le.mp hid) hvid,
          ⟨hcan, ?_, trivial⟩, ?_, hmaps₂⟩
        · rw [← habs₁]
          exact ⟨hframe₁, hlt⟩
        · rw [habs₂, habs₁]
          rfl
    · rw [hrun, run_bind_of_error hevict]
      exact ⟨[], Fetched.noRoom hnone hpinned, trivial, rfl, h.maps⟩
  · have hnone := abs_frame_of_none hpage
    rw [hrun]
    by_cases hid : bp.pager.pageCount ≤ id
    · rw [load_run_of_ge h.cache.noFaults hid]
      exact ⟨[], Fetched.missing hnone hid, trivial, rfl, h.maps⟩
    · have hlt := Nat.not_le.mp hid
      obtain ⟨bp₂, hload, habs₂, hmaps₂⟩ := h.load_run hpage hroom hlt
      rw [hload]
      exact ⟨[.load id], Fetched.loaded hnone hlt, ⟨⟨hnone, hlt⟩, trivial⟩, habs₂, hmaps₂⟩

/-! ### The other page operations -/

theorem Ok.unpinPage_refines (h : Ok bp) (id : Nat) (dirty : Bool) :
    Refines bp (.data (.unpinPage id dirty)) ((unpinPage id dirty).run bp) := by
  obtain ⟨hpage, hrun⟩ | ⟨page, hpage, hcases⟩ := unpinPage_cases bp id dirty
  · rw [hrun]
    exact ⟨[], .inl ⟨abs_frame_of_none hpage, rfl, rfl⟩, trivial, rfl, h.maps⟩
  · have hframe := abs_frame_of_lookup hpage
    have hsome : (bp.abs.frame id).isSome := by simp [hframe]
    have hdirt : (dirty && (bp.cachedOf id page).dirt.isNone) = (dirty && !page.dirty) := by
      rw [← Option.not_isSome, cachedOf_dirt_isSome]
    obtain ⟨hfirst, hrun⟩ | ⟨hfirst, hrun⟩ := hcases
    · rw [hrun]
      refine ⟨[.unpin id dirty], .inr ⟨hsome, rfl, rfl⟩, ⟨⟨_, hframe⟩, trivial⟩, ?_,
        h.maps.changeFrame hpage (by rfl) (by rfl)⟩
      simp only [Cache.steps_cons, Cache.steps_nil, Cache.apply, hframe, Cache.unpinned, hdirt,
        hfirst]
      exact abs_changeFrame bp id _
    · -- The page becomes dirty now.
      obtain ⟨snap, hsnap⟩ := h.maps.snapshot hpage
      obtain ⟨rfl, hclean⟩ : dirty = true ∧ page.dirty = false := by simpa using hfirst
      let bp' := bp.putFrame id { page with pinCount := page.pinCount - 1, dirty := true }
        bp.cleanSnapshots (bp.beforeImages.insert id snap) (bp.dirtyTxn.insert id bp.currentTxnID)
      have hsame (i : Nat) (hi : i ≠ id) : SameAt bp bp' i :=
        ⟨AList.lookup_insert_ne hi, rfl, rfl, AList.lookup_insert_ne hi, AList.lookup_insert_ne hi⟩
      rw [hrun snap hsnap]
      refine ⟨[.unpin id true], .inr ⟨hsome, rfl, rfl⟩, ⟨⟨_, hframe⟩, trivial⟩,
        (abs_putFrame hsame).trans ?_, h.maps.putFrame hpage hsame ⟨(h.maps.page_id hpage :),
          h.maps.snapshot hpage, fun _ => ⟨snap, _, AList.lookup_insert _, AList.lookup_insert _⟩,
          by simp⟩⟩
      simp only [Cache.steps_cons, Cache.steps_nil, Cache.apply, hframe]
      simp [cachedOf, putFrame, Cache.unpinned, hclean, hsnap]

theorem Ok.setData_refines (h : Ok bp) (id : Nat) (data : PageData) :
    Refines bp (.data (.setData id data)) ((), bp.setData id data) := by
  cases hpage : bp.frames.lookup id with
  | none =>
    have hset : bp.setData id data = bp := by simp [setData, hpage]
    rw [hset]
    exact ⟨[], .inl ⟨abs_frame_of_none hpage, rfl⟩, trivial, rfl, h.maps⟩
  | some page =>
    have hframe := abs_frame_of_lookup hpage
    have hset : bp.setData id data = bp.changeFrame id { page with data := data } := by
      simp [setData, hpage, changeFrame, putFrame]
    rw [hset]
    refine ⟨[.set id data], .inr ⟨by simp [hframe], rfl⟩, ⟨⟨_, hframe⟩, trivial⟩, ?_,
      h.maps.changeFrame hpage rfl rfl⟩
    simp only [Cache.steps_cons, Cache.steps_nil, Cache.apply, hframe]
    exact abs_changeFrame bp id _

theorem Ok.allocatePage_refines (h : Ok bp) :
    Refines bp (.data .allocatePage) (allocatePage.run bp) := by
  have hf : bp.pager.disk.NoFaults := h.cache.noFaults
  by_cases hfree : bp.pager.freeListHead = 0
  · have hrun := Pager.allocatePage_run_of_grow hf hfree
    by_cases hfull : bp.pager.disk.capacity ≤ bp.pager.pageCount
    · rw [if_pos hfull] at hrun
      rw [allocatePage, onPager_of_run hrun]
      exact ⟨[], Allocated.full hfree hfull, trivial, rfl, h.maps.withPager _ _⟩
    · rw [if_neg hfull] at hrun
      rw [allocatePage, onPager_of_run hrun]
      have hroom := Nat.not_le.mp hfull
      exact ⟨[.grow], Allocated.grown hfree hroom, ⟨⟨hfree, hroom⟩, trivial⟩, rfl,
        h.maps.withPager _ _⟩
  · have hrun := Pager.allocatePage_run_of_free hf hfree
    by_cases hbad : bp.pager.pageCount ≤ bp.pager.freeListHead
    · rw [if_pos hbad] at hrun
      rw [allocatePage, onPager_of_run hrun]
      exact ⟨[], Allocated.badLink hfree hbad, trivial, rfl, h.maps.withPager _ _⟩
    · have hsize : bp.pager.pageCount ≤ bp.pager.disk.size := h.cache.count_le_size
      rw [if_neg hbad, if_neg (by omega)] at hrun
      rw [allocatePage, onPager_of_run hrun]
      have hlt := Nat.not_le.mp hbad
      exact ⟨[.pop], Allocated.popped hfree hlt, ⟨⟨hfree, hlt⟩, trivial⟩, rfl,
        h.maps.withPager _ _⟩

theorem Ok.freePage_refines (h : Ok bp) (id : Nat) :
    Refines bp (.data (.freePage id)) ((freePage id).run bp) := by
  have hcap : bp.pager.pageCount ≤ bp.pager.disk.capacity := h.cache.count_le
  have hfree := Pager.freePage_run (p := bp.pager) h.cache.noFaults id
  obtain ⟨hlru, hrun⟩ | ⟨e, hlru, hrun⟩ := freePage_cases bp id
  · have hpage : bp.frames.lookup id = none := by
      have := h.maps.cached_iff id
      simpa [hlru] using this
    by_cases hid : bp.pager.pageCount ≤ id
    · rw [if_pos hid] at hfree
      rw [hrun, onPager_of_run hfree]
      exact ⟨[], .inl ⟨hid, rfl, rfl⟩, trivial, rfl, h.maps⟩
    · rw [if_neg hid, if_neg (by omega)] at hfree
      have hlt := Nat.not_le.mp hid
      rw [hrun, onPager_of_run hfree]
      refine ⟨[.free id], .inr ⟨hlt, rfl, rfl⟩, ⟨hlt, trivial⟩,
        cache_ext rfl rfl rfl rfl fun i => ?_, h.maps.withPager _ _⟩
      simp only [Cache.steps_cons, Cache.steps_nil, Cache.apply, Cache.withFrame_frame]
      split
      · rename_i hi
        rw [hi]
        exact abs_frame_of_none hpage
      · rfl
  · obtain ⟨hmem, rfl⟩ := h.maps.lruMap_iff.mp hlru
    have hlt : e.value < bp.pager.pageCount := by
      have hsome := h.maps.cached_iff e.value
      rw [hlru] at hsome
      obtain ⟨page, hpage⟩ := Option.isSome_iff_exists.mp hsome
      exact h.lt_pageCount hpage
    rw [if_neg (by omega), if_neg (by omega)] at hfree
    rw [hrun, (onPager_of_run hfree : (onPager _).run (bp.forget e.value e) = _)]
    exact ⟨[.free e.value], .inr ⟨hlt, rfl, rfl⟩, ⟨hlt, trivial⟩,
      cache_ext rfl rfl rfl rfl fun i => congrArg (fun s => s.frame i) (abs_forget bp e.value e),
      (h.maps.forget hmem).withPager _ _⟩

/-! ### The loops -/

/-- A page becomes clean: it gets a new snapshot, and the undo maps forget
it. -/
theorem MapsOk.putClean (h : MapsOk bp) {q : Page} (hpage : bp.frames.lookup id = some page)
    (hid : q.id = page.id) (hclean : q.dirty = false) (data : PageData) :
    let bp' := bp.putFrame id q (bp.cleanSnapshots.insert id data) (bp.beforeImages.erase id)
      (bp.dirtyTxn.erase id)
    MapsOk bp' ∧
      bp'.abs = bp.abs.withFrame id (some ⟨q.data, q.pinCount, data, none⟩) := by
  intro bp'
  have hsame (i : Nat) (hi : i ≠ id) : SameAt bp bp' i :=
    ⟨AList.lookup_insert_ne hi, rfl, AList.lookup_insert_ne hi, AList.lookup_erase_ne hi,
      AList.lookup_erase_ne hi⟩
  refine ⟨h.putFrame hpage hsame ⟨hid.trans (h.page_id hpage), ⟨data, AList.lookup_insert _⟩,
    by simp [hclean], fun _ => ⟨AList.lookup_erase _ _, AList.lookup_erase _ _⟩⟩, ?_⟩
  rw [abs_putFrame hsame]
  simp [cachedOf, hclean, BufferPool.putFrame]

theorem Ok.flushPage_run (h : Ok bp) (hpage : bp.frames.lookup id = some page) :
    ∃ bp', (flushPage id).run bp = (.ok (), bp') ∧ MapsOk bp' ∧
      bp'.abs = Cache.steps (if page.dirty then [.flush id] else []) bp.abs := by
  obtain ⟨hd, hrun⟩ | ⟨q, hq, hd, hrun⟩ := flushPage_cases bp fun _
    (hq : bp.frames.lookup id = _) => h.maps.page_id hq
  · have hclean : page.dirty = false := by simpa [isDirty, hpage] using hd
    exact ⟨bp, hrun, h.maps, by simp [hclean]⟩
  · cases hpage.symm.trans hq
    obtain ⟨p, w, hwrite, habs⟩ := h.writeBack_run hpage hd
    rw [run_bind_of_ok hwrite] at hrun
    obtain ⟨hmaps, hclean⟩ := (h.maps.withPager p w).putClean (q := { page with dirty := false })
      hpage rfl rfl page.data
    refine ⟨_, hrun, hmaps, hclean.trans ?_⟩
    simp only [habs, hd, if_true, Cache.steps_cons, Cache.steps_nil, Cache.apply,
      abs_frame_of_lookup hpage]
    rfl

theorem Ok.rollbackPage_run (h : Ok bp) (txnID : Nat) (hpage : bp.frames.lookup id = some page) :
    ∃ bp', (rollbackPage txnID id).run bp = (.ok (), bp') ∧ MapsOk bp' ∧
      bp'.abs = Cache.steps (if bp.dirtyTxn.lookup id = some txnID then [.rollback id] else [])
        bp.abs := by
  by_cases htxn : bp.dirtyTxn.lookup id = some txnID
  · have hd : page.dirty = true := by
      cases hd : page.dirty with
      | true => rfl
      | false => rw [(h.maps.clean hpage hd).2] at htxn; cases htxn
    obtain ⟨b, t, hb, ht, hdirt⟩ := h.maps.cachedOf_dirt hpage hd
    obtain ⟨hmaps, habs⟩ := h.maps.putClean (q := { page with data := b, dirty := false }) hpage
      rfl rfl b
    refine ⟨_, ?_, hmaps, habs.trans ?_⟩
    · simp [rollbackPage, run_bind, htxn, hb, hpage, putFrame]
    · simp only [htxn, if_true, Cache.steps_cons, Cache.steps_nil, Cache.apply,
        abs_frame_of_lookup hpage, hdirt]
      rfl
  · exact ⟨bp, by simp [rollbackPage, run_bind, htxn], h.maps, by simp [htxn]⟩

/-- A loop over cached pages whose body makes one step on the selected
pages and none on the others. -/
theorem Ok.loop_refines (f : Nat → Fallible BufferPool Err Unit) (m : Nat → Step)
    (sel : Option Cached → Bool)
    (hbody : ∀ bp id, Ok bp → (bp.abs.frame id).isSome → ∃ bp', (f id).run bp = (.ok (), bp') ∧
      MapsOk bp' ∧ bp'.abs = Cache.steps (if sel (bp.abs.frame id) then [m id] else []) bp.abs)
    (hcan : ∀ (s : Cache) id, (s.frame id).isSome → sel (s.frame id) → s.Can (m id))
    (hframe : ∀ (s : Cache) id i, i ≠ id → (s.apply (m id)).frame i = s.frame i)
    {ids : List Nat} (hnodup : ids.Nodup) (h : Ok bp)
    (hcached : ∀ id ∈ ids, (bp.abs.frame id).isSome) :
    ∃ bp', (forEach f ids).run bp = (.ok (), bp') ∧ MapsOk bp' ∧
      Cache.CanAll ((ids.filter fun id => sel (bp.abs.frame id)).map m) bp.abs ∧
      bp'.abs = Cache.steps ((ids.filter fun id => sel (bp.abs.frame id)).map m) bp.abs := by
  induction ids generalizing bp with
  | nil => exact ⟨bp, rfl, h.maps, trivial, rfl⟩
  | cons id ids ih =>
    obtain ⟨hid, hnodup⟩ := List.nodup_cons.mp hnodup
    have hsome := hcached id List.mem_cons_self
    obtain ⟨bp₁, hrun₁, hmaps₁, habs₁⟩ := hbody bp id h hsome
    have hcanHead : Cache.CanAll (if sel (bp.abs.frame id) then [m id] else []) bp.abs := by
      split
      · rename_i hsel
        exact ⟨hcan _ _ hsome hsel, trivial⟩
      · trivial
    have hok₁ : Ok bp₁ := ⟨hmaps₁, habs₁ ▸ h.cache.steps hcanHead⟩
    -- The body leaves the other pages as they are, so the selection stays the same.
    have hsame : ∀ i ∈ ids, bp₁.abs.frame i = bp.abs.frame i := by
      intro i hi
      have hne : i ≠ id := fun heq => hid (heq ▸ hi)
      rw [habs₁]
      split
      · exact hframe _ _ _ hne
      · rfl
    have hfilter : (ids.filter fun i => sel (bp₁.abs.frame i)) =
        ids.filter fun i => sel (bp.abs.frame i) :=
      List.filter_congr fun i hi => by rw [hsame i hi]
    obtain ⟨bp', hrun', hmaps', hcan', habs'⟩ := ih hnodup hok₁ fun i hi => by
      rw [hsame i hi]
      exact hcached i (List.mem_cons_of_mem _ hi)
    rw [hfilter, habs₁] at hcan' habs'
    have hsplit : ((id :: ids).filter fun i => sel (bp.abs.frame i)).map m =
        (if sel (bp.abs.frame id) then [m id] else []) ++
          (ids.filter fun i => sel (bp.abs.frame i)).map m := by
      cases hsel : sel (bp.abs.frame id) <;> simp [hsel]
    refine ⟨bp', ?_, hmaps', ?_, ?_⟩
    · rw [forEach, run_bind_of_ok hrun₁, hrun']
    · rw [hsplit, Cache.canAll_append]
      exact ⟨hcanHead, hcan'⟩
    · rw [hsplit, Cache.steps_append]
      exact habs'

theorem enumerate_run (bp : BufferPool) (keys : List Nat) :
    (enumerate keys).run bp =
      (.ok (permute (bp.pager.disk.orders bp.pager.disk.clock) keys),
        { bp with pager := bp.pager.ticked }) := rfl

theorem Ok.ticked (h : Ok bp) : Ok { bp with pager := bp.pager.ticked } :=
  ⟨h.maps.withPager _ _, h.cache.apply (m := .tick) trivial⟩

/-- The cached pages that are dirty. -/
def cachedDirty (c : Option Cached) : Bool := (c.bind Cached.dirt).isSome

/-- The cached pages the transaction dirtied. -/
def cachedDirtiedBy (txnID : Nat) (c : Option Cached) : Bool :=
  (c.bind Cached.dirt).map Prod.snd = some txnID

theorem Ok.flushAll_refines (h : Ok bp) :
    Refines bp .flushAll (flushAll.run bp) := by
  have hkeys : (permute (bp.pager.disk.orders bp.pager.disk.clock) bp.frames.keys).Nodup :=
    nodup_permute bp.frames.keys_nodup
  have hmem (id : Nat) : id ∈ permute (bp.pager.disk.orders bp.pager.disk.clock) bp.frames.keys ↔
      (bp.abs.frame id).isSome := by
    rw [mem_permute, ← AList.mem_keys, ← AList.lookup_isSome]
    simp [abs]
  obtain ⟨bp', hrun, hmaps, hcan, habs⟩ := Ok.loop_refines flushPage .flush cachedDirty
    (by
      intro bp id h hsome
      obtain ⟨c, hc⟩ := Option.isSome_iff_exists.mp hsome
      obtain ⟨page, hpage, rfl⟩ := abs_frame_eq_some.mp hc
      have hdirty : cachedDirty (bp.abs.frame id) = page.dirty := by
        simp [cachedDirty, hc, cachedOf_dirt_isSome]
      rw [hdirty]
      exact h.flushPage_run hpage)
    (by
      intro s id hsome hsel
      obtain ⟨c, hc⟩ := Option.isSome_iff_exists.mp hsome
      exact ⟨c, hc, by simpa [cachedDirty, hc] using hsel⟩)
    (by
      intro s id i hi
      simp only [Cache.apply]
      split
      · rfl
      · rw [Cache.withFrame_frame_of_ne _ _ hi, Cache.writeBack_frame])
    hkeys h.ticked (fun id hid => (hmem id).mp hid)
  have hflush : flushAll.run bp = (.ok (), bp') := by
    simp only [flushAll, run_bind, run_get, enumerate_run]
    exact hrun
  rw [hflush]
  refine ⟨_, ⟨rfl, _, hkeys.filter _, ?_, rfl⟩, ⟨trivial, hcan⟩, habs, hmaps⟩
  intro id
  rw [List.mem_filter, hmem]
  show (bp.abs.frame id).isSome ∧ cachedDirty (bp.abs.frame id) ↔ _
  cases hc : bp.abs.frame id with
  | none => simp
  | some c => simp [cachedDirty]

theorem Ok.rollbackTxn_refines (h : Ok bp) (txnID : Nat) :
    Refines bp (.rollbackTxn txnID) ((rollbackTxn txnID).run bp) := by
  have hkeys : (permute (bp.pager.disk.orders bp.pager.disk.clock) bp.dirtyTxn.keys).Nodup :=
    nodup_permute bp.dirtyTxn.keys_nodup
  have hmem (id : Nat) :
      id ∈ permute (bp.pager.disk.orders bp.pager.disk.clock) bp.dirtyTxn.keys ↔
        (bp.dirtyTxn.lookup id).isSome := by
    rw [mem_permute, ← AList.mem_keys, ← AList.lookup_isSome]
  have hcached (id : Nat) (hid : (bp.dirtyTxn.lookup id).isSome) : (bp.abs.frame id).isSome := by
    cases hpage : bp.frames.lookup id with
    | some page => simp [abs_frame_of_lookup hpage]
    | none =>
      rw [(h.maps.absent hpage).2] at hid
      cases hid
  -- The undo map and the cached page agree on who dirtied the page.
  have hsel (bp : BufferPool) (h : Ok bp) (id : Nat) (hsome : (bp.abs.frame id).isSome) :
      cachedDirtiedBy txnID (bp.abs.frame id) = decide (bp.dirtyTxn.lookup id = some txnID) := by
    obtain ⟨c, hc⟩ := Option.isSome_iff_exists.mp hsome
    obtain ⟨page, hpage, rfl⟩ := abs_frame_eq_some.mp hc
    cases hd : page.dirty with
    | true =>
      obtain ⟨b, t, -, ht, hdirt⟩ := h.maps.cachedOf_dirt hpage hd
      simp [cachedDirtiedBy, hc, hdirt, ht]
    | false =>
      have hdirt : (bp.cachedOf id page).dirt = none := by simp [cachedOf, hd]
      simp [cachedDirtiedBy, hc, hdirt, (h.maps.clean hpage hd).2]
  obtain ⟨bp', hrun, hmaps, hcan, habs⟩ := Ok.loop_refines (rollbackPage txnID)
    .rollback (cachedDirtiedBy txnID)
    (by
      intro bp id h hsome
      obtain ⟨c, hc⟩ := Option.isSome_iff_exists.mp hsome
      obtain ⟨page, hpage, -⟩ := abs_frame_eq_some.mp hc
      rw [hsel bp h id hsome]
      simpa using h.rollbackPage_run txnID hpage)
    (by
      intro s id hsome hsel
      obtain ⟨c, hc⟩ := Option.isSome_iff_exists.mp hsome
      refine ⟨c, hc, ?_⟩
      cases hdirt : c.dirt with
      | none => simp [cachedDirtiedBy, hc, hdirt] at hsel
      | some bt => rfl)
    (by
      intro s id i hi
      simp only [Cache.apply]
      split
      · rfl
      · split
        · rfl
        · rw [Cache.withFrame_frame_of_ne _ _ hi])
    hkeys h.ticked (fun id hid => hcached id ((hmem id).mp hid))
  have hroll : (rollbackTxn txnID).run bp = (.ok (), bp') := by
    simp only [rollbackTxn, run_bind, run_get, enumerate_run]
    exact hrun
  rw [hroll]
  refine ⟨_, ⟨rfl, _, hkeys.filter _, ?_, rfl⟩, ⟨trivial, hcan⟩, habs, hmaps⟩
  intro id
  rw [List.mem_filter, hmem]
  show (bp.dirtyTxn.lookup id).isSome ∧ cachedDirtiedBy txnID (bp.abs.frame id) ↔ _
  cases hc : bp.abs.frame id with
  | none =>
    have := h.maps.absent (abs_frame_eq_none.mp hc)
    simp [cachedDirtiedBy]
  | some c =>
    have hsel' := hsel bp h id (by simp [hc])
    rw [hc] at hsel'
    rw [hsel']
    constructor
    · rintro ⟨-, ht⟩
      have hby : cachedDirtiedBy txnID (some c) := by rw [hsel']; exact ht
      simp only [cachedDirtiedBy, Option.bind_some, decide_eq_true_eq,
        Option.map_eq_some_iff] at hby
      obtain ⟨⟨b, t⟩, hdirt, rfl⟩ := hby
      exact ⟨c, b, rfl, hdirt⟩
    · rintro ⟨c', b, hc', hdirt⟩
      cases hc'
      have hby : cachedDirtiedBy txnID (some c) := by simp [cachedDirtiedBy, hdirt]
      rw [hsel'] at hby
      exact ⟨by simp [decide_eq_true_eq.mp hby], hby⟩

/-- The pool implements the cache: every operation is a run of possible
steps, with the answers and the steps `Outcome` lists, and keeps the pool
in order. -/
theorem Ok.handler_refines (h : Ok bp) (o : PoolOp) :
    ∃ ms, Outcome bp.abs o (handler o bp).1 ms ∧ Cache.CanAll ms bp.abs ∧
      (handler o bp).2.abs = Cache.steps ms bp.abs ∧ Ok (handler o bp).2 := by
  suffices hrefines : Refines bp o (handler o bp) by
    obtain ⟨ms, hout, hcan, habs, hmaps⟩ := hrefines
    exact ⟨ms, hout, hcan, habs, hmaps, habs ▸ h.cache.steps hcan⟩
  have hf : bp.pager.disk.NoFaults := h.cache.noFaults
  cases o with
  | data o =>
    cases o with
    | fetchPage id => exact h.fetchPage_refines id
    | unpinPage id dirty => exact h.unpinPage_refines id dirty
    | setData id data => exact h.setData_refines id data
    | allocatePage => exact h.allocatePage_refines
    | freePage id => exact h.freePage_refines id
  | flushAll => exact h.flushAll_refines
  | setTxnID t => exact ⟨[.setTxn t], rfl, ⟨trivial, trivial⟩, rfl, h.maps.capacity_pos,
      h.maps.values_nodup, h.maps.lruMap_iff, h.maps.cached_iff, h.maps.length_le, h.maps.page_id,
      h.maps.snapshot, h.maps.dirty, h.maps.clean, h.maps.absent⟩
  | rollbackTxn t => exact h.rollbackTxn_refines t
  | writeRecord type t =>
    cases hw : bp.walFile with
    | none =>
      have hrun : (writeRecord { lsn := 0, txnID := t, type := type }).run bp =
          (.error .panic, bp) := by
        simp [writeRecord, run_bind, hw]
      simp only [handler, hrun]
      exact ⟨[], .inl ⟨hw, rfl, rfl⟩, trivial, rfl, h.maps⟩
    | some w =>
      have hrun := writeRecord_run_of_some hf hw { lsn := 0, txnID := t, type := type }
      simp only [handler, hrun]
      refine ⟨[.append type t], .inr ⟨by simp [hw], rfl, rfl⟩,
        ⟨by simp [Cache.Can, hw], trivial⟩,
        ?_, h.maps.withPager _ _⟩
      simp [Cache.apply, Cache.logged, hw, abs_withPager]
  | setCatalogRootPageID id =>
    have hrun : (onPager (Pager.setCatalogRootPageID id)).run bp = (.ok (),
        { bp with
          pager :=
            { bp.pager.wrote (.header 15 (be 4 id)) with catalogRootPageID := id } }) := by
      simp [onPager, Pager.setCatalogRootPageID, run_bind, Pager.onDisk,
        Disk.write_run hf, Pager.wrote]
    simp only [handler, hrun]
    exact ⟨[.setRoot id], ⟨rfl, rfl⟩, ⟨trivial, trivial⟩, rfl, h.maps.withPager _ _⟩
  | order => exact ⟨[.tick], rfl, ⟨trivial, trivial⟩, rfl, h.maps.withPager _ _⟩

end BufferPool

end MySQLight.Storage
