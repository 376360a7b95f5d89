import MySQLight.Storage.Tracking

/-!
The buffer pool is transparent.

`Client` is what the clients of the pool together know without looking
into it: for every page the bytes last written to it, and which pages are
touched. A page is written by an assignment to a pinned frame, by being
freed (it then holds its link in the free list) and by being added at the
end of the file (it then holds zeros). `pool_transparent` says that for
every run that keeps the discipline, a page fetched from the pool has
exactly the bytes last written to it, whatever was evicted in between,
and that the pool respects its capacity and its pins.

The header page is different: the pager updates it in the file behind the
pool's back, and `header_page_not_transparent` shows that a client that
uses page zero through the pool can read bytes nobody wrote.
-/

namespace MySQLight.Storage

open MySQLight.Data MySQLight.Effect MySQLight.Wal

/-- What clients know. -/
structure Client where
  memory : Nat → PageData
  touched : Nat → Bool

namespace Client

/-- Writing a page. -/
def write (c : Client) (id : Nat) (data : PageData) : Client :=
  { c with memory := Function.update c.memory id data }

/-- What clients know after an operation on the pool. -/
def after (bp : BufferPool) (c : Client) : PoolOp → Client
  | .data (.setData id data) =>
    if (bp.frames.lookup id).isSome then
      { c.write id data with touched := Function.update c.touched id true }
    else c
  | .data (.unpinPage id true) =>
    if (bp.frames.lookup id).isSome then
      { c with touched := Function.update c.touched id false }
    else c
  | .data .allocatePage =>
    if bp.pager.freeListHead = 0 ∧ bp.pager.pageCount < bp.pager.disk.capacity then
      c.write bp.pager.pageCount PageData.zero
    else c
  | .data (.freePage id) =>
    if id < bp.pager.pageCount then
      { c.write id (Pager.linkPage bp.pager.freeListHead) with
        touched := Function.update c.touched id false }
    else c
  | _ => c

/-- The discipline: change only pinned pages, and do not give up the last
pin of a touched page without announcing the change. Rolling back is not a
client operation. -/
def Permitted (bp : BufferPool) (c : Client) : PoolOp → Prop
  | .data (.setData id _) => ∃ page, bp.frames.lookup id = some page ∧ 0 < page.pinCount
  | .data (.unpinPage id false) =>
    c.touched id = true → ∃ page, bp.frames.lookup id = some page ∧ 1 < page.pinCount
  | .rollbackTxn _ => False
  | _ => True

end Client

/-- The pool and its clients after a sequence of operations. -/
def clientRun : List PoolOp → BufferPool × Client → BufferPool × Client
  | [], s => s
  | o :: os, s => clientRun os ((BufferPool.handler o s.1).2, s.2.after s.1 o)

/-- Every operation of the sequence keeps the discipline. -/
def Disciplined : List PoolOp → BufferPool × Client → Prop
  | [], _ => True
  | o :: os, s =>
    s.2.Permitted s.1 o ∧ Disciplined os ((BufferPool.handler o s.1).2, s.2.after s.1 o)

namespace Cache

variable {s : Cache} {c : Client}

/-- What clients know agrees with the cache. -/
structure Seen (s : Cache) (c : Client) : Prop where
  tracked : Tracked s c.touched
  memory : ∀ id, id ≠ 0 → c.memory id = s.content id

/-- What clients know after a single step. -/
def see (s : Cache) (c : Client) (m : Step) : Client where
  memory :=
    match s.written m with
    | some (i, data) => Function.update c.memory i data
    | none => c.memory
  touched := touch c.touched m

theorem Seen.apply (h : Seen s c) (hok : Ok s) {m : Step} (hcan : s.Can m)
    (hfair : s.Fair c.touched m) : Seen (s.apply m) (see s c m) where
  tracked := h.tracked.apply hok hcan hfair
  memory := by
    intro id hid
    rw [h.tracked.content_apply hok hcan hid, see]
    rcases s.written m with _ | ⟨i, data⟩
    · exact h.memory id hid
    · by_cases hi : id = i
      · simp [hi]
      · simp [hi, h.memory id hid]

/-- What clients know after a run of steps, and that all of them are
fair. -/
def seeAll : List Step → Cache → Client → Client
  | [], _, c => c
  | m :: ms, s, c => seeAll ms (s.apply m) (see s c m)

def FairAll : List Step → Cache → Client → Prop
  | [], _, _ => True
  | m :: ms, s, c => s.Fair c.touched m ∧ FairAll ms (s.apply m) (see s c m)

theorem Seen.steps (h : Seen s c) (hok : Ok s) {ms : List Step} (hcan : CanAll ms s)
    (hfair : FairAll ms s c) : Seen (Cache.steps ms s) (seeAll ms s c) := by
  induction ms generalizing s c with
  | nil => exact h
  | cons m ms ih => exact ih (h.apply hok hcan.1 hfair.1) (hok.apply hcan.1) hcan.2 hfair.2

/-- Flushing tells clients nothing. -/
theorem seeAll_flushes (ids : List Nat) (s : Cache) (c : Client) :
    FairAll (ids.map .flush) s c ∧ seeAll (ids.map .flush) s c = c := by
  induction ids generalizing s with
  | nil => exact ⟨trivial, rfl⟩
  | cons id ids ih =>
    obtain ⟨hfair, hall⟩ := ih (s.apply (.flush id))
    exact ⟨⟨trivial, hfair⟩, hall⟩

/-- Only an eviction or a release takes a page out of the cache. -/
theorem isSome_frame_apply {id : Nat} (h : (s.frame id).isSome) {m : Step} (hevict : m ≠ .evict id)
    (hfree : m ≠ .free id) : ((s.apply m).frame id).isSome := by
  have hput (s : Cache) (i : Nat) (x : Cached) (hs : (s.frame id).isSome) :
      ((s.withFrame i (some x)).frame id).isSome := by
    rw [withFrame_frame]
    split
    · rfl
    · exact hs
  have hdrop (s : Cache) (i : Nat) (hi : id ≠ i) (hs : (s.frame id).isSome) :
      ((s.withFrame i none).frame id).isSome := by
    rw [withFrame_frame_of_ne _ _ hi]
    exact hs
  cases m with
  | tick => exact h
  | pin i =>
    simp only [Cache.apply]
    split
    · exact h
    · exact hput _ _ _ h
  | load i => exact hput _ _ _ h
  | evict i =>
    simp only [Cache.apply]
    split
    · exact h
    · exact hdrop _ _ (fun heq => hevict (by rw [heq])) (by rw [writeBack_frame]; exact h)
  | unpin i dirty =>
    simp only [Cache.apply]
    split
    · exact h
    · exact hput _ _ _ h
  | set i data =>
    simp only [Cache.apply]
    split
    · exact h
    · exact hput _ _ _ h
  | flush i =>
    simp only [Cache.apply]
    split
    · exact h
    · exact hput _ _ _ (by rw [writeBack_frame]; exact h)
  | rollback i =>
    simp only [Cache.apply]
    split
    · exact h
    · split
      · exact h
      · exact hput _ _ _ h
  | grow => exact h
  | pop => exact h
  | free i => exact hdrop _ _ (fun heq => hfree (by rw [heq])) h
  | append type txnID => simpa [Cache.apply] using h
  | setRoot i => exact h
  | setTxn txnID => exact h

theorem isSome_frame_steps {id : Nat} (h : (s.frame id).isSome) {ms : List Step}
    (hms : ∀ m ∈ ms, m ≠ .evict id ∧ m ≠ .free id) : ((Cache.steps ms s).frame id).isSome := by
  induction ms generalizing s with
  | nil => exact h
  | cons m ms ih =>
    obtain ⟨hevict, hfree⟩ := hms m List.mem_cons_self
    exact ih (isSome_frame_apply h hevict hfree) fun m' hm' => hms m' (List.mem_cons_of_mem _ hm')

end Cache

namespace BufferPool

variable {bp : BufferPool} {c : Client}

variable {o : PoolOp} {s : BufferPool × Client} {id : Nat}

/-- A permitted operation makes fair steps, and the steps tell clients
what the operation tells them. -/
theorem fair_of_permitted {r : PoolI.Resp o} {ms : List Step} (hout : Outcome bp.abs o r ms)
    (hperm : c.Permitted bp o) :
    Cache.FairAll ms bp.abs c ∧ Cache.seeAll ms bp.abs c = c.after bp o := by
  have hlookup (id : Nat) : (bp.abs.frame id).isSome = (bp.frames.lookup id).isSome := by
    simp [abs]
  have hpinned {id n : Nat} (h : ∃ page, bp.frames.lookup id = some page ∧ n < page.pinCount) :
      ∃ c, bp.abs.frame id = some c ∧ n < c.pins := by
    obtain ⟨page, hpage, hpins⟩ := h
    exact ⟨_, abs_frame_of_lookup hpage, hpins⟩
  cases o with
  | data o =>
    cases o with
    | fetchPage id => cases hout <;> exact ⟨by simp [Cache.FairAll, Cache.Fair], rfl⟩
    | unpinPage id dirty =>
      rcases hout with ⟨hnone, -, rfl⟩ | ⟨hsome, -, rfl⟩
      · have hno : (bp.frames.lookup id).isSome = false := by rw [← hlookup, hnone]; rfl
        cases dirty <;> simp [Cache.FairAll, Cache.seeAll, Client.after, hno]
      · rw [hlookup] at hsome
        cases dirty with
        | true => exact ⟨⟨trivial, trivial⟩, by rw [Client.after, if_pos hsome]; rfl⟩
        | false => exact ⟨⟨fun ht => hpinned (hperm ht), trivial⟩, rfl⟩
    | setData id data =>
      have hsome : (bp.frames.lookup id).isSome := by
        obtain ⟨page, hpage, -⟩ := hperm
        simp [hpage]
      rcases hout with ⟨hnone, -⟩ | ⟨-, rfl⟩
      · rw [← hlookup, hnone] at hsome
        cases hsome
      · exact ⟨⟨hpinned hperm, trivial⟩, by rw [Client.after, if_pos hsome]; rfl⟩
    | allocatePage =>
      cases hout with
      | full hfree hfull =>
        exact ⟨trivial, by rw [Client.after, if_neg (fun h => Nat.not_le.mpr h.2 hfull)]; rfl⟩
      | grown hfree hroom =>
        exact ⟨⟨trivial, trivial⟩, by rw [Client.after, if_pos ⟨hfree, hroom⟩]; rfl⟩
      | badLink hfree hbad =>
        exact ⟨trivial, by rw [Client.after, if_neg (fun h => hfree h.1)]; rfl⟩
      | popped hfree hok =>
        exact ⟨⟨trivial, trivial⟩, by rw [Client.after, if_neg (fun h => hfree h.1)]; rfl⟩
    | freePage id =>
      rcases hout with ⟨hid, -, rfl⟩ | ⟨hid, -, rfl⟩ <;> rw [abs_pager] at hid
      · exact ⟨trivial, by rw [Client.after, if_neg (Nat.not_lt.mpr hid)]; rfl⟩
      · exact ⟨⟨trivial, trivial⟩, by rw [Client.after, if_pos hid]; rfl⟩
  | flushAll =>
    obtain ⟨-, ids, -, -, rfl⟩ := hout
    obtain ⟨hfair, hall⟩ := Cache.seeAll_flushes ids (bp.abs.apply .tick) c
    exact ⟨⟨trivial, hfair⟩, hall⟩
  | setTxnID t =>
    cases hout
    exact ⟨⟨trivial, trivial⟩, rfl⟩
  | rollbackTxn t => exact hperm.elim
  | writeRecord type t =>
    rcases hout with ⟨-, -, rfl⟩ | ⟨-, -, rfl⟩
    · exact ⟨trivial, rfl⟩
    · exact ⟨⟨trivial, trivial⟩, rfl⟩
  | setCatalogRootPageID id =>
    obtain ⟨-, rfl⟩ := hout
    exact ⟨⟨trivial, trivial⟩, rfl⟩
  | order =>
    cases hout
    exact ⟨⟨trivial, trivial⟩, rfl⟩

/-- The invariant of a disciplined run. -/
structure Transparent (s : BufferPool × Client) : Prop where
  ok : Ok s.1
  seen : Cache.Seen s.1.abs s.2

theorem Transparent.step (h : Transparent s) (hperm : s.2.Permitted s.1 o) :
    Transparent ((handler o s.1).2, s.2.after s.1 o) ∧
      (handler o s.1).2.capacity = s.1.capacity := by
  obtain ⟨ms, hout, hcan, habs, hok⟩ := h.ok.handler_refines o
  obtain ⟨hfair, hsee⟩ := fair_of_permitted hout hperm
  have hseen := h.seen.steps h.ok.cache hcan hfair
  rw [hsee, ← habs] at hseen
  refine ⟨⟨hok, hseen⟩, ?_⟩
  have hcapacity : ∀ (ms : List Step) (s : Cache), (Cache.steps ms s).capacity = s.capacity := by
    intro ms
    induction ms with
    | nil => exact fun _ => rfl
    | cons m ms ih => exact fun s => (ih _).trans (s.apply_poolCapacity m)
  exact (congrArg Cache.capacity habs).trans (hcapacity ms _)

theorem Transparent.run (h : Transparent s) {os : List PoolOp} (hos : Disciplined os s) :
    Transparent (clientRun os s) ∧ (clientRun os s).1.capacity = s.1.capacity := by
  induction os generalizing s with
  | nil => exact ⟨h, rfl⟩
  | cons o os ih =>
    obtain ⟨hstep, hcap⟩ := h.step hos.1
    obtain ⟨hrun, hcap'⟩ := ih hstep hos.2
    exact ⟨hrun, hcap'.trans hcap⟩

/-- A fetched page has the contents clients know. -/
theorem Transparent.fetch (h : Transparent s) (hid : id ≠ 0) {data : PageData} {bp' : BufferPool}
    (hrun : (BufferPool.fetchPage id).run s.1 = (.ok data, bp')) : data = s.2.memory id := by
  obtain ⟨ms, hout, -, -, -⟩ := h.ok.handler_refines (.data (.fetchPage id))
  rw [h.seen.memory id hid]
  have hanswer : (handler (.data (.fetchPage id)) s.1).1 = .ok data := congrArg Prod.fst hrun
  rw [hanswer] at hout
  cases hout with
  | hit hc => exact (Cache.content_of_frame hc).symm
  | loaded hnone hlt => exact (Cache.content_of_none hnone).symm
  | replaced hnone hlt hne => exact (Cache.content_of_none hnone).symm

theorem MapsOk.frames_length (h : MapsOk bp) :
    bp.frames.keys.length = bp.lruMap.keys.length := by
  apply List.Perm.length_eq
  rw [List.perm_ext_iff_of_nodup bp.frames.keys_nodup bp.lruMap.keys_nodup]
  intro id
  rw [← AList.mem_keys, ← AList.mem_keys, ← AList.lookup_isSome, ← AList.lookup_isSome,
    h.cached_iff]

/-- A pinned page stays cached, unless it is freed. -/
theorem Ok.pinned_stays (h : Ok bp) {page : Page} (hpage : bp.frames.lookup id = some page)
    (hpins : 0 < page.pinCount) (hfree : o ≠ .data (.freePage id)) :
    ((handler o bp).2.frames.lookup id).isSome := by
  obtain ⟨ms, hout, hcan, habs, -⟩ := h.handler_refines o
  have hframe := abs_frame_of_lookup hpage
  suffices hsome : ((Cache.steps ms bp.abs).frame id).isSome by
    rw [← habs] at hsome
    simpa [abs] using hsome
  -- The victim of an eviction is not pinned, so it is another page.
  have hvictim {v : Nat} (hv : bp.abs.Can (.evict v)) : v ≠ id := by
    rintro rfl
    obtain ⟨c, hc, hzero⟩ := hv
    rw [hframe] at hc
    cases hc
    exact absurd hzero (Nat.pos_iff_ne_zero.mp hpins)
  apply Cache.isSome_frame_steps (by simp [hframe])
  generalize (handler o bp).1 = r at hout
  cases o with
  | data o =>
    cases o with
    | fetchPage i =>
      cases hout with
      | hit hc => simp
      | loaded hnone hid => simp
      | replaced hnone hid hne => simp [hvictim hcan.1]
      | missing hnone hid => simp
      | missingEvicted hnone hid => simp [hvictim hcan.1]
      | noRoom hnone hpinned => simp
    | unpinPage i dirty => rcases hout with ⟨-, -, rfl⟩ | ⟨-, -, rfl⟩ <;> simp
    | setData i data => rcases hout with ⟨-, rfl⟩ | ⟨-, rfl⟩ <;> simp
    | allocatePage => cases hout <;> simp
    | freePage i =>
      have hne : i ≠ id := fun heq => hfree (by rw [heq])
      rcases hout with ⟨-, -, rfl⟩ | ⟨-, -, rfl⟩ <;> simp [hne]
  | flushAll =>
    obtain ⟨-, ids, -, -, rfl⟩ := hout
    simp
  | setTxnID t =>
    cases hout
    simp
  | rollbackTxn t =>
    obtain ⟨-, ids, -, -, rfl⟩ := hout
    simp
  | writeRecord type t => rcases hout with ⟨-, -, rfl⟩ | ⟨-, -, rfl⟩ <;> simp
  | setCatalogRootPageID i =>
    obtain ⟨-, rfl⟩ := hout
    simp
  | order =>
    cases hout
    simp

/-- A fetch that finds no room finds every cached page pinned. -/
theorem Ok.pinned_of_no_room (h : Ok bp) {bp' : BufferPool}
    (hrun : (fetchPage id).run bp = (.error .allPagesArePinned, bp')) {i : Nat} {page : Page}
    (hpage : bp.frames.lookup i = some page) : 0 < page.pinCount := by
  obtain ⟨ms, hout, -, -, -⟩ := h.handler_refines (.data (.fetchPage id))
  have hanswer : (handler (.data (.fetchPage id)) bp).1 = .error .allPagesArePinned :=
    congrArg Prod.fst hrun
  rw [hanswer] at hout
  cases hout with
  | noRoom hnone hpinned => exact Nat.pos_of_ne_zero (hpinned i _ (abs_frame_of_lookup hpage))

/-- A pool with or without a log attached. -/
def withWAL (bp : BufferPool) (w : Option WAL) : BufferPool := { bp with walFile := w }

/-- An empty pool over a pager whose file is at least as long as its page
count says is in order. -/
theorem ok_new {p : Pager} (hf : p.disk.NoFaults) (hlt : p.disk.capacity < 2 ^ 32)
    (hcap : p.pageCount ≤ p.disk.capacity) (hsize : p.pageCount ≤ p.disk.size) {capacity : Nat}
    (hpos : 0 < capacity)
    (w : Option WAL) : Ok ((new p capacity).withWAL w) where
  maps :=
    { capacity_pos := hpos
      values_nodup := List.nodup_nil
      lruMap_iff := by simp [withWAL, new]
      cached_iff := by simp [withWAL, new]
      length_le := Nat.zero_le _
      page_id := by simp [withWAL, new]
      snapshot := by simp [withWAL, new]
      dirty := by simp [withWAL, new]
      clean := by simp [withWAL, new]
      absent := by simp [withWAL, new] }
  cache :=
    { noFaults := hf
      capacity_lt := hlt
      count_le := hcap
      count_le_size := hsize
      cached_lt := by simp [BufferPool.abs, withWAL, new]
      snapshot_eq := by simp [BufferPool.abs, withWAL, new]
      before_eq := by simp [BufferPool.abs, withWAL, new] }

end BufferPool

open BufferPool in
/-- The pool is transparent. For every pager, every positive capacity and
every disciplined sequence of operations: a page other than the header
page that is fetched next has the bytes last written to it, at most
`capacity` frames are cached, the next operation does not take a pinned
page out of the cache (unless it frees it), and a fetch that finds no room
finds every frame pinned. -/
theorem pool_transparent {p : Pager} (hf : p.disk.NoFaults) (hlt : p.disk.capacity < 2 ^ 32)
    (hcap : p.pageCount ≤ p.disk.capacity) (hsize : p.pageCount ≤ p.disk.size)
    {capacity : Nat} (hpos : 1 ≤ capacity) (w : Option WAL) (os : List PoolOp)
    (hos : Disciplined os ((new p capacity).withWAL w, ⟨p.disk.pages, fun _ => false⟩)) :
    let s := clientRun os ((new p capacity).withWAL w, ⟨p.disk.pages, fun _ => false⟩)
    (∀ id data bp', id ≠ 0 → (BufferPool.fetchPage id).run s.1 = (.ok data, bp') →
        data = s.2.memory id) ∧
      s.1.frames.keys.length ≤ capacity ∧
      (∀ o id page, s.1.frames.lookup id = some page → 0 < page.pinCount →
        o ≠ .data (.freePage id) → ((handler o s.1).2.frames.lookup id).isSome) ∧
      (∀ id bp', (BufferPool.fetchPage id).run s.1 = (.error .allPagesArePinned, bp') →
        ∀ i page, s.1.frames.lookup i = some page → 0 < page.pinCount) := by
  intro s
  have hinit : Transparent ((new p capacity).withWAL w, ⟨p.disk.pages, fun _ => false⟩) :=
    { ok := ok_new hf hlt hcap hsize hpos w
      seen :=
        { tracked :=
            { clean := by
                intro id _ _ c hc
                simp [BufferPool.abs, withWAL, new] at hc
              pinned := by
                intro id h
                cases h }
          memory := fun _ _ => rfl } }
  obtain ⟨hs, hcapacity⟩ := hinit.run hos
  refine ⟨?_, ?_, ?_, ?_⟩
  · intro id data bp' hid hrun
    exact hs.fetch hid hrun
  · rw [hs.ok.maps.frames_length]
    exact hs.ok.maps.length_le.trans (le_of_eq hcapacity)
  · intro o id page hpage hpins hfree
    exact hs.ok.pinned_stays hpage hpins hfree
  · intro id bp' hrun i page hpage
    exact hs.ok.pinned_of_no_room hrun hpage

/-- A file of one page of zeros on a device of four. -/
def onePager : Pager where
  disk :=
    { basePages := fun _ => PageData.zero, baseSize := 1, baseLog := [], journal := [],
      capacity := 4, capacity_le := Disk.four_le, faults := fun _ => false, orders := fun _ => 0,
      clock := 0 }
  freeListHead := 0
  pageCount := 1
  catalogRootPageID := 0

/-- A pool of one frame over that file. -/
def oneFrame : BufferPool × Client :=
  ((BufferPool.new onePager 1).withWAL none, ⟨onePager.disk.pages, fun _ => false⟩)

/-- A client fills a new page, and another new page takes its frame. -/
def replacedOps (data : PageData) : List PoolOp :=
  [.data .allocatePage, .data (.fetchPage 1), .data (.setData 1 data), .data (.unpinPage 1 true),
   .data .allocatePage, .data (.fetchPage 2), .data (.unpinPage 2 false)]

/-- The replaced page comes back with what the client wrote. -/
theorem pool_transparent_at_replacedOps :
    Disciplined (replacedOps (Pager.linkPage 7)) oneFrame ∧
      ∀ data bp', (BufferPool.fetchPage 1).run
          (clientRun (replacedOps (Pager.linkPage 7)) oneFrame).1 = (.ok data, bp') →
        data = Pager.linkPage 7 := by
  have hos : Disciplined (replacedOps (Pager.linkPage 7)) oneFrame := by
    refine ⟨trivial, trivial, ⟨_, rfl, Nat.one_pos⟩, trivial, trivial, trivial, ?_, trivial⟩
    intro h
    cases h
  refine ⟨hos, ?_⟩
  intro data bp' hrun
  have hmemory := (pool_transparent (p := onePager) (fun _ => rfl) (by decide) (by decide)
    (by decide) (Nat.le_refl 1) none _ hos).1 1 data bp' (by decide) hrun
  exact hmemory

/-! ### The header page -/

/-- A client writes zeros to page zero; later page zero is evicted and the
file grows. -/
def headerOps : List PoolOp :=
  [.data (.fetchPage 0), .data (.setData 0 PageData.zero), .data (.unpinPage 0 true),
   .data .allocatePage, .data (.fetchPage 1), .data (.unpinPage 1 false), .data .allocatePage]

set_option maxRecDepth 200000 in
theorem header_page_not_transparent :
    Disciplined headerOps oneFrame ∧
      (clientRun headerOps oneFrame).2.memory 0 = PageData.zero ∧
      ((BufferPool.fetchPage 0).run (clientRun headerOps oneFrame).1).1 =
        .ok (PageData.zero.patch 11 (be 4 3)) ∧
      PageData.zero.patch 11 (be 4 3) ≠ PageData.zero := by
  refine ⟨?_, ?_, ?_, ?_⟩
  · refine ⟨trivial, ⟨_, rfl, Nat.one_pos⟩, trivial, trivial, trivial, ?_, trivial, trivial⟩
    intro h
    cases h
  · decide +kernel
  · decide +kernel
  · decide +kernel

end MySQLight.Storage
