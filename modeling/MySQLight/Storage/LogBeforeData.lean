import MySQLight.Effect.Runs
import MySQLight.Storage.PoolLog
import MySQLight.Storage.PoolRefinement

/-!
Log before data.

Before a page goes to the database file, on eviction or in `FlushAll`, an
update record goes to the log, with what the file held and what it will
hold. This module shows that it does in every run in which the append of
the record succeeds, whatever else fails. A failed append goes unnoticed
(`writeWALUpdate` has no result), and the last part shows what becomes of
the page then.

The before-image is the file's content because the pool's snapshots are:
nobody but the pool writes a page that is cached, except the pager, which
writes fields of the header page. Runs that fetch the header page through
the pool are therefore left out.
-/

namespace MySQLight.Storage

open MySQLight.Data MySQLight.Effect MySQLight.Wal Fallible

/-! ### The records that are due -/

/-- The log holds an update record of the page with this after-image and
the content of the page as before-image. -/
def Disk.Logged (d : Disk) (id : Nat) (data : PageData) : Prop :=
  ∃ r ∈ d.log, r.type = .recordUpdate ∧ r.pageID = id ∧ r.afterImage = data.bytes ∧
    r.beforeImage = (d.pages id).bytes

/-- On the way from `d` to `d'` every page was logged before it was
written. -/
structure Disk.LoggedWrites (d d' : Disk) : Prop where
  basePages : d'.basePages = d.basePages
  baseLog : d'.baseLog = d.baseLog
  journal : ∃ delta, d'.journal = delta ++ d.journal ∧
    ∀ later id data earlier, delta = later ++ .page id data :: earlier →
      Logged { d with journal := earlier ++ d.journal } id data

namespace Disk.LoggedWrites

variable {d d' d'' : Disk}

theorem of_journal_eq (hpages : d'.basePages = d.basePages) (hlog : d'.baseLog = d.baseLog)
    (hjournal : d'.journal = d.journal) : LoggedWrites d d' :=
  ⟨hpages, hlog, [], hjournal, by simp⟩

theorem trans (h : LoggedWrites d d') (h' : LoggedWrites d' d'') : LoggedWrites d d'' := by
  obtain ⟨delta, hjournal, hlogged⟩ := h.journal
  obtain ⟨delta', hjournal', hlogged'⟩ := h'.journal
  refine ⟨h'.basePages.trans h.basePages, h'.baseLog.trans h.baseLog, delta' ++ delta, ?_, ?_⟩
  · rw [hjournal', hjournal, List.append_assoc]
  · intro later id data earlier heq
    obtain ⟨mid, rfl, hmid⟩ | ⟨mid, rfl, hmid⟩ := List.append_eq_append_iff.mp heq
    · exact hlogged mid id data earlier hmid
    · cases mid with
      | nil => exact hlogged [] id data earlier hmid.symm
      | cons w mid =>
        rw [List.cons_append, List.cons.injEq] at hmid
        obtain ⟨rfl, rfl⟩ := hmid
        obtain ⟨r, hr, htype, hpage, hafter, hbefore⟩ := hlogged' later id data mid rfl
        have hsame : ({ d' with journal := mid ++ d'.journal } : Disk).log =
              ({ d with journal := mid ++ delta ++ d.journal } : Disk).log ∧
            ({ d' with journal := mid ++ d'.journal } : Disk).pages =
              ({ d with journal := mid ++ delta ++ d.journal } : Disk).pages := by
          simp only [Disk.log, Disk.pages, hjournal, h.baseLog, h.basePages, List.append_assoc,
            and_self]
        rw [hsame.1] at hr
        rw [hsame.2] at hbefore
        exact ⟨r, hr, htype, hpage, hafter, hbefore⟩

end Disk.LoggedWrites

namespace BufferPool

/-! ### Snapshots are fresh -/

/-- What the pool remembers of a page is what the file holds. -/
structure Fresh (bp : BufferPool) : Prop where
  capacity_lt : bp.pager.disk.capacity < 2 ^ 32
  count_le : bp.pager.pageCount ≤ bp.pager.disk.capacity
  lru : ∀ id, (bp.frames.lookup id).isSome → (bp.lruMap.lookup id).isSome
  frame : ∀ id page, bp.frames.lookup id = some page →
    page.id = id ∧ id ≠ 0 ∧ id < bp.pager.pageCount ∧ (bp.cleanSnapshots.lookup id).isSome
  snapshot : ∀ id data, bp.cleanSnapshots.lookup id = some data →
    (bp.frames.lookup id).isSome ∧ data = bp.pager.disk.pages id
  before : ∀ id data, bp.beforeImages.lookup id = some data →
    (bp.frames.lookup id).isSome ∧ data = bp.pager.disk.pages id

namespace Fresh

variable {bp : BufferPool}

variable {id : Nat}

theorem pos_of_cached (h : Fresh bp) (hid : (bp.frames.lookup id).isSome) :
    id ≠ 0 ∧ id < bp.pager.pageCount := by
  obtain ⟨page, hpage⟩ := Option.isSome_iff_exists.mp hid
  exact ⟨(h.frame id page hpage).2.1, (h.frame id page hpage).2.2.1⟩

/-- The files change, but no page that is cached. -/
theorem withPager (h : Fresh bp) {p : Pager} {w : Option WAL}
    (hcapacity : p.disk.capacity = bp.pager.disk.capacity) (hcount : p.pageCount ≤ p.disk.capacity)
    (hle : bp.pager.pageCount ≤ p.pageCount)
    (hpages : ∀ id, (bp.frames.lookup id).isSome → p.disk.pages id = bp.pager.disk.pages id) :
    Fresh { bp with pager := p, walFile := w } where
  capacity_lt := hcapacity ▸ h.capacity_lt
  count_le := hcount
  lru := h.lru
  frame := by
    intro id page hpage
    obtain ⟨hid, hne, hlt, hsnap⟩ := h.frame id page hpage
    exact ⟨hid, hne, hlt.trans_le hle, hsnap⟩
  snapshot := by
    intro id data hdata
    obtain ⟨hcached, heq⟩ := h.snapshot id data hdata
    exact ⟨hcached, heq.trans (hpages id hcached).symm⟩
  before := by
    intro id data hdata
    obtain ⟨hcached, heq⟩ := h.before id data hdata
    exact ⟨hcached, heq.trans (hpages id hcached).symm⟩

/-- A change at one page is checked there. -/
theorem of_change (h : Fresh bp) {bp' : BufferPool} {k : Nat}
    (hsame : ∀ i, i ≠ k → SameAt bp bp' i)
    (hpages : ∀ i, i ≠ k → bp'.pager.disk.pages i = bp.pager.disk.pages i)
    (hcapacity : bp'.pager.disk.capacity = bp.pager.disk.capacity)
    (hcount : bp'.pager.pageCount = bp.pager.pageCount)
    (hlru : (bp'.frames.lookup k).isSome → (bp'.lruMap.lookup k).isSome)
    (hframe : ∀ page, bp'.frames.lookup k = some page →
      page.id = k ∧ k ≠ 0 ∧ k < bp.pager.pageCount ∧ (bp'.cleanSnapshots.lookup k).isSome)
    (hsnapshot : ∀ data, bp'.cleanSnapshots.lookup k = some data →
      (bp'.frames.lookup k).isSome ∧ data = bp'.pager.disk.pages k)
    (hbefore : ∀ data, bp'.beforeImages.lookup k = some data →
      (bp'.frames.lookup k).isSome ∧ data = bp'.pager.disk.pages k) : Fresh bp' := by
  refine ⟨hcapacity ▸ h.capacity_lt, by rw [hcapacity, hcount]; exact h.count_le, fun i => ?_,
    fun i => ?_, fun i => ?_, fun i => ?_⟩
  all_goals
    by_cases hi : i = k
    · subst hi
      first | exact hlru | exact hcount ▸ hframe | exact hsnapshot | exact hbefore
  · rw [(hsame i hi).frames, (hsame i hi).lruMap]
    exact h.lru i
  · rw [(hsame i hi).frames, (hsame i hi).cleanSnapshots, hcount]
    exact h.frame i
  · rw [(hsame i hi).frames, (hsame i hi).cleanSnapshots, hpages i hi]
    exact h.snapshot i
  · rw [(hsame i hi).frames, (hsame i hi).beforeImages, hpages i hi]
    exact h.before i

theorem forget (h : Fresh bp) (id : Nat) (element : Element) : Fresh (bp.forget id element) := by
  refine h.of_change (fun _ => sameAt_forget element) (fun _ _ => rfl) rfl rfl ?_ ?_ ?_ ?_
  all_goals simp [BufferPool.forget]

/-- A page that was just read gets a frame. -/
theorem addFrame (h : Fresh bp) (hne : id ≠ 0) (hlt : id < bp.pager.pageCount) :
    Fresh (bp.addFrame id (bp.pager.disk.pages id)) := by
  refine h.of_change (fun _ => sameAt_addFrame _) (fun _ _ => rfl) rfl rfl ?_ ?_ ?_
    fun data hdata => ⟨by simp [BufferPool.addFrame], (h.before id data hdata).2⟩
  all_goals simp [BufferPool.addFrame, hne, hlt]

/-- The snapshot of a cached page. -/
theorem snapshot_of_frame (h : Fresh bp) {page : Page} (hpage : bp.frames.lookup id = some page) :
    bp.cleanSnapshots.lookup id = some (bp.pager.disk.pages id) := by
  obtain ⟨data, hdata⟩ := Option.isSome_iff_exists.mp (h.frame id page hpage).2.2.2
  rw [hdata, (h.snapshot id data hdata).2]

/-- The frame of a cached page changes. Its before-image may be taken now. -/
theorem changeFrame (h : Fresh bp) {page page' : Page} (hpage : bp.frames.lookup id = some page)
    (hid : page'.id = page.id) (elements : List Element) {images : Table PageData}
    (txns : Table Nat)
    (himages : images = bp.beforeImages ∨
      images = bp.beforeImages.insert id (bp.pager.disk.pages id))
    (htxns : ∀ i, i ≠ id → txns.lookup i = bp.dirtyTxn.lookup i) :
    Fresh { bp with
      lruList := elements
      frames := bp.frames.insert id page'
      beforeImages := images
      dirtyTxn := txns } := by
  obtain ⟨hpid, hframe⟩ := h.frame id page hpage
  have hbefore (i : Nat) (hi : i ≠ id) : images.lookup i = bp.beforeImages.lookup i := by
    rcases himages with rfl | rfl
    · rfl
    · exact AList.lookup_insert_ne hi
  refine h.of_change (k := id)
    (fun i hi => ⟨AList.lookup_insert_ne hi, rfl, rfl, hbefore i hi, htxns i hi⟩) (fun _ _ => rfl)
    rfl rfl (fun _ => h.lru id (by simp [hpage])) ?_ ?_ ?_
  · intro q hq
    cases (AList.lookup_insert _).symm.trans hq
    exact ⟨hid.trans hpid, hframe⟩
  · exact fun data hdata => ⟨by simp, (h.snapshot id data hdata).2⟩
  · refine fun data hdata => ⟨by simp, ?_⟩
    rcases himages with rfl | rfl
    · exact (h.before id data hdata).2
    · cases (AList.lookup_insert _).symm.trans hdata
      rfl

/-- A page gets a new snapshot, which is what the file holds now. -/
theorem clean (h : Fresh bp) {page page' : Page} {data : PageData} {p : Pager} {w : Option WAL}
    (hpage : bp.frames.lookup id = some page) (hid : page'.id = page.id)
    (hcapacity : p.disk.capacity = bp.pager.disk.capacity)
    (hcount : p.pageCount = bp.pager.pageCount)
    (hpages : p.disk.pages = Function.update bp.pager.disk.pages id data) :
    Fresh { bp with
      pager := p
      walFile := w
      frames := bp.frames.insert id page'
      cleanSnapshots := bp.cleanSnapshots.insert id data
      beforeImages := bp.beforeImages.erase id
      dirtyTxn := bp.dirtyTxn.erase id } := by
  obtain ⟨hpid, hne, hlt, -⟩ := h.frame id page hpage
  have hself : p.disk.pages id = data := by rw [hpages, Function.update_self]
  refine h.of_change (k := id)
    (fun i hi => ⟨AList.lookup_insert_ne hi, rfl, AList.lookup_insert_ne hi,
      AList.lookup_erase_ne hi, AList.lookup_erase_ne hi⟩)
    (fun i hi => (congrFun hpages i).trans (Function.update_of_ne hi _ _)) hcapacity hcount
    (fun _ => h.lru id (by simp [hpage])) ?_ ?_ ?_
  · simp [hid, hpid, hne, hlt]
  · simp [hself]
  · simp

end Fresh

/-! ### Writing a page back -/

/-- The record of a page with the number it gets. Its before-image is the
page in the file. -/
def appended (bp : BufferPool) (w : WAL) (id : Nat) (data : PageData) : Record :=
  { updateRecord id ((bp.dirtyTxn.lookup id).getD 0) (bp.pager.disk.pages id) data with
    lsn := w.nextLSN }

variable {bp : BufferPool}

variable {id : Nat}

/-- The append succeeds, so the record is in the log. -/
theorem Fresh.writeWALUpdate_run (h : Fresh bp) {w : WAL} (hwal : bp.walFile = some w)
    (hcached : (bp.frames.lookup id).isSome)
    (hfault : bp.pager.disk.faults bp.pager.disk.clock = false) (data : PageData) :
    (writeWALUpdate id data).run bp =
      (.ok (), bp.logged w (bp.pager.disk.tick.record (.append (bp.appended w id data)))) := by
  obtain ⟨page, hpage⟩ := Option.isSome_iff_exists.mp hcached
  have hsome : (bp.beforeImages.lookup id).or (bp.cleanSnapshots.lookup id) =
      some (bp.pager.disk.pages id) := by
    cases hbefore : bp.beforeImages.lookup id with
    | some image => rw [Option.some_or, (h.before id image hbefore).2]
    | none => rw [Option.none_or, h.snapshot_of_frame hpage]
  have hrun := writeRecord_run hwal
    (updateRecord id ((bp.dirtyTxn.lookup id).getD 0) (bp.pager.disk.pages id) data)
  rw [hfault] at hrun
  simp [writeWALUpdate, run_bind, run_tryCatch, hwal, hsome, hrun, appended]

theorem writeAt_cases (p : Pager) (id : Nat) (data : PageData) :
    (∃ q, (Pager.onDisk (Disk.writeAt id data)).run p = (.error .io, q) ∧ (q = p ∨ q = p.ticked)) ∨
      id < p.disk.capacity ∧
        (Pager.onDisk (Disk.writeAt id data)).run p = (.ok (), p.wrote (.page id data)) := by
  rw [Pager.onDisk_writeAt_run]
  split_ifs with hcap
  · exact .inl ⟨p, rfl, .inl rfl⟩
  · exact .inl ⟨p.ticked, rfl, .inr rfl⟩
  · exact .inr ⟨not_le.mp hcap, rfl⟩

theorem writePage_cases (p : Pager) (id : Nat) (data : PageData) :
    (∃ e q, (Pager.writePage id data.bytes).run p = (.error e, q) ∧ (q = p ∨ q = p.ticked)) ∨
      (Pager.writePage id data.bytes).run p = (.ok (), p.wrote (.page id data)) := by
  rw [Pager.writePage_run_eq]
  by_cases hcount : p.pageCount ≤ id
  · exact .inl ⟨_, p, by rw [if_pos hcount], .inl rfl⟩
  · rw [if_neg hcount, dif_pos data.length_eq]
    obtain ⟨q, hrun, hq⟩ | ⟨-, hrun⟩ := writeAt_cases p id data
    · exact .inl ⟨.io, q, hrun, hq⟩
    · exact .inr hrun

/-- How a write-back ends when its append succeeds. The page may or may not
be written, but its record is in the log. -/
theorem Fresh.writeBack_cases (h : Fresh bp) (hattached : bp.walFile.isSome)
    (hcached : (bp.frames.lookup id).isSome)
    (hfault : bp.pager.disk.faults bp.pager.disk.clock = false) (data : PageData) :
    ∃ w r d, bp.pager.disk.LoggedWrites d ∧ d.capacity = bp.pager.disk.capacity ∧
      d.faults = bp.pager.disk.faults ∧ (writeBack id data).run bp = (r, bp.logged w d) ∧
      (r = .ok () ∧ d.pages = Function.update bp.pager.disk.pages id data ∧
          d.clock = bp.pager.disk.clock + 2 ∨
        r ≠ .ok () ∧ d.pages = bp.pager.disk.pages) := by
  obtain ⟨w, hwal⟩ := Option.isSome_iff_exists.mp hattached
  let r := bp.appended w id data
  let d₁ := bp.pager.disk.tick.record (.append r)
  have hrun₁ := h.writeWALUpdate_run hwal hcached hfault data
  have hlogged : bp.pager.disk.LoggedWrites d₁ := by
    refine ⟨rfl, rfl, [.append r], rfl, ?_⟩
    intro later id' data' earlier heq
    cases later with
    | nil => cases heq
    | cons w' later => simp at heq
  obtain ⟨e, q, hrun₂, hq⟩ | hrun₂ := writePage_cases { bp.pager with disk := d₁ } id data
  · refine ⟨w, .error e, q.disk, ?_, ?_, ?_, ?_, .inr ⟨by simp, ?_⟩⟩
    · rcases hq with rfl | rfl
      · exact hlogged
      · exact ⟨hlogged.basePages, hlogged.baseLog, hlogged.journal⟩
    · rcases hq with rfl | rfl <;> rfl
    · rcases hq with rfl | rfl <;> rfl
    · have hq' : { bp.pager with disk := q.disk } = q := by rcases hq with rfl | rfl <;> rfl
      rw [writeBack, run_bind_of_ok hrun₁]
      change (Fallible.zoom _ _ _).run _ = _
      simp only [run_zoom, logged]
      rw [hrun₂]
      simp [hq']
    · rcases hq with rfl | rfl <;> rfl
  · refine ⟨w, .ok (), d₁.tick.record (.page id data), ?_, rfl, rfl, ?_, .inl ⟨rfl, rfl, rfl⟩⟩
    · refine ⟨rfl, rfl, [.page id data, .append r], rfl, ?_⟩
      intro later id' data' earlier heq
      -- the only page is the last write, and the record is right before it
      cases later with
      | nil =>
        simp only [List.nil_append, List.cons.injEq, Write.page.injEq] at heq
        obtain ⟨⟨rfl, rfl⟩, rfl⟩ := heq
        refine ⟨r, ?_, rfl, rfl, rfl, rfl⟩
        change r ∈ bp.pager.disk.log ++ [r]
        simp
      | cons w' later =>
        simp only [List.cons_append, List.cons.injEq] at heq
        cases later with
        | nil => simp at heq
        | cons w'' later => simp at heq
    · rw [writeBack, run_bind_of_ok hrun₁]
      change (Fallible.zoom _ _ _).run _ = _
      simp only [run_zoom, logged]
      rw [hrun₂]
      rfl

/-- What an operation that writes pages back leaves behind. -/
structure WroteBack (bp bp' : BufferPool) : Prop where
  fresh : Fresh bp'
  logged : bp.pager.disk.LoggedWrites bp'.pager.disk

theorem WroteBack.refl (h : Fresh bp) : WroteBack bp bp := ⟨h, .of_journal_eq rfl rfl rfl⟩

/-- The pool after a write-back that failed: the page is as it was. -/
theorem Fresh.logged_same (h : Fresh bp) {w : WAL} {d : Disk}
    (hcapacity : d.capacity = bp.pager.disk.capacity) (hpages : d.pages = bp.pager.disk.pages) :
    Fresh (bp.logged w d) :=
  h.withPager hcapacity (hcapacity ▸ h.count_le) le_rfl fun id _ => congrFun hpages id

/-- A page was written and leaves the pool, so it does not matter that the
file changed. -/
theorem Fresh.forget_written (h : Fresh bp) {data : PageData} {p : Pager} {w : Option WAL}
    (element : Element) (hcapacity : p.disk.capacity = bp.pager.disk.capacity)
    (hcount : p.pageCount = bp.pager.pageCount)
    (hpages : p.disk.pages = Function.update bp.pager.disk.pages id data) :
    Fresh ({ bp with pager := p, walFile := w }.forget id element) := by
  have hcount_le : p.pageCount ≤ p.disk.capacity := by
    rw [hcount, hcapacity]
    exact h.count_le
  refine (h.forget id element).withPager hcapacity hcount_le hcount.ge fun i hi => ?_
  have hne : i ≠ id := by
    rintro rfl
    simp [BufferPool.forget] at hi
  rw [hpages, Function.update_of_ne hne]
  rfl

/-- A page was written and gets a new snapshot. -/
theorem Fresh.markClean_written (h : Fresh bp) {page : Page} {p : Pager} {w : Option WAL}
    (hpage : bp.frames.lookup id = some page) (hcapacity : p.disk.capacity = bp.pager.disk.capacity)
    (hcount : p.pageCount = bp.pager.pageCount)
    (hpages : p.disk.pages = Function.update bp.pager.disk.pages id page.data) :
    Fresh ({ bp with pager := p, walFile := w }.markClean id page) :=
  h.clean hpage (by rfl) hcapacity hcount hpages

/-- The append of an eviction that is due succeeds. -/
def EvictionLogs (bp : BufferPool) : Prop :=
  ∀ element page, bp.victim = .ok element → bp.frames.lookup element.value = some page →
    page.dirty = true → bp.pager.disk.faults bp.pager.disk.clock = false

theorem Fresh.evict_wroteBack (h : Fresh bp) (hattached : bp.walFile.isSome)
    (hlogs : EvictionLogs bp) : WroteBack bp (evict.run bp).2 := by
  obtain ⟨e, hrun⟩ | ⟨element, page, hvictim, hpage, ⟨-, hrun⟩ | ⟨hdirty, hrun⟩⟩ := evict_cases bp
  · rw [hrun]
    exact .refl h
  · rw [hrun]
    exact ⟨h.forget _ _, .of_journal_eq rfl rfl rfl⟩
  · obtain ⟨w, r, d, hlogged, hcapacity, -, hwrite, hcases⟩ := h.writeBack_cases hattached
      (by rw [hpage]; rfl) (hlogs element page hvictim hpage hdirty) page.data
    rw [hrun, run_bind, hwrite]
    obtain ⟨rfl, hpages, -⟩ | ⟨hne, hpages⟩ := hcases
    · exact ⟨h.forget_written (p := { bp.pager with disk := d }) element hcapacity rfl hpages,
        hlogged⟩
    · cases r with
      | ok u => exact absurd rfl hne
      | error e => exact ⟨h.logged_same hcapacity hpages, hlogged⟩

theorem readPage_cases (p : Pager) (id : Nat) :
    (∃ e q, (Pager.readPage id).run p = (.error e, q) ∧ (q = p ∨ q = p.ticked)) ∨
      id < p.pageCount ∧ (Pager.readPage id).run p = (.ok (p.disk.pages id), p.ticked) := by
  rw [Pager.readPage_run_eq]
  split_ifs with hcount
  · exact .inl ⟨_, p, rfl, .inl rfl⟩
  · exact .inl ⟨_, p.ticked, rfl, .inr rfl⟩
  · exact .inr ⟨not_le.mp hcount, rfl⟩

theorem Fresh.ticked (h : Fresh bp) : Fresh { bp with pager := bp.pager.ticked } :=
  h.withPager rfl h.count_le le_rfl fun _ _ => rfl

theorem Fresh.load_wroteBack (h : Fresh bp) (hid : id ≠ 0) : WroteBack bp ((load id).run bp).2 := by
  rw [load]
  obtain ⟨e, q, hrun, hq⟩ | ⟨hlt, hrun⟩ := readPage_cases bp.pager id
  · have hload : (onPager (Pager.readPage id)).run bp = (.error e, { bp with pager := q }) := by
      simp [onPager, hrun]
    rw [run_bind_of_error hload]
    rcases hq with rfl | rfl
    · exact .refl h
    · exact ⟨h.ticked, .of_journal_eq rfl rfl rfl⟩
  · have hload : (onPager (Pager.readPage id)).run bp =
        (.ok (bp.pager.disk.pages id), { bp with pager := bp.pager.ticked }) := by
      simp [onPager, hrun]
    rw [run_bind_of_ok hload]
    exact ⟨h.ticked.addFrame hid hlt, .of_journal_eq rfl rfl rfl⟩

/-- The append `FetchPage` makes, if it makes one, succeeds. -/
def FetchLogs (bp : BufferPool) (id : Nat) : Prop :=
  bp.frames.lookup id = none → bp.capacity ≤ bp.lruMap.keys.length → EvictionLogs bp

theorem Fresh.pin_frame (h : Fresh bp) {page : Page} (hpage : bp.frames.lookup id = some page)
    (elem : Element) :
    Fresh { bp with
      lruList := elem :: bp.lruList.erase elem
      frames := bp.frames.insert id { page with pinCount := page.pinCount + 1 } } :=
  h.changeFrame hpage (by rfl) _ _ (.inl rfl) fun _ _ => rfl

theorem Fresh.fetchPage_wroteBack (h : Fresh bp) (hattached : bp.walFile.isSome) (hid : id ≠ 0)
    (hlogs : FetchLogs bp id) : WroteBack bp ((fetchPage id).run bp).2 := by
  obtain ⟨-, -, hrun⟩ | ⟨page, elem, hpage, -, hrun⟩ | ⟨hpage, ⟨hfull, hrun⟩ | ⟨-, hrun⟩⟩ :=
    fetchPage_cases bp id
  · rw [hrun]
    exact .refl h
  · rw [hrun]
    exact ⟨h.pin_frame hpage elem, .of_journal_eq rfl rfl rfl⟩
  · have hevict := h.evict_wroteBack hattached (hlogs hpage hfull)
    rw [hrun, run_bind]
    rcases hresult : evict.run bp with ⟨r, bp₁⟩
    rw [hresult] at hevict
    cases r with
    | error e => exact hevict
    | ok u =>
      have hload := hevict.fresh.load_wroteBack hid
      exact ⟨hload.fresh, hevict.logged.trans hload.logged⟩
  · rw [hrun]
    exact h.load_wroteBack hid

/-! ### `FlushAll` -/

/-- How a round of the loop ends. A round that writes makes two calls. -/
theorem Fresh.flushPage_wroteBack (h : Fresh bp) (hattached : bp.walFile.isSome) (id : Nat)
    (hlogs : bp.isDirty id → bp.pager.disk.faults bp.pager.disk.clock = false) :
    ∃ r bp', (flushPage id).run bp = (r, bp') ∧ WroteBack bp bp' ∧
      (r = .ok () → bp'.pager.disk.faults = bp.pager.disk.faults ∧
        bp'.pager.disk.clock = bp.pager.disk.clock + (if bp.isDirty id then 2 else 0) ∧
        ∀ i, i ≠ id → bp'.isDirty i = bp.isDirty i) := by
  obtain ⟨hclean, hrun⟩ | ⟨page, hpage, hdirty, hrun⟩ :=
    flushPage_cases bp fun page hpage => (h.frame id page hpage).1
  · exact ⟨.ok (), bp, hrun, .refl h, fun _ => by simp [hclean]⟩
  · have hisDirty : bp.isDirty id = true := by simp [isDirty, hpage, hdirty]
    obtain ⟨w, r, d, hlogged, hcapacity, hfaults, hwrite, hcases⟩ := h.writeBack_cases hattached
      (by rw [hpage]; rfl) (hlogs hisDirty) page.data
    rw [run_bind, hwrite] at hrun
    obtain ⟨rfl, hpages, hclock⟩ | ⟨hne, hpages⟩ := hcases
    · refine ⟨_, _, hrun, ⟨?_, hlogged⟩, fun _ => ⟨hfaults, ?_, ?_⟩⟩
      · exact h.markClean_written (p := { bp.pager with disk := d }) hpage hcapacity rfl hpages
      · rw [if_pos hisDirty]
        exact hclock
      · intro i hi
        simp only [isDirty, markClean, logged, lookup_insert_ite, if_neg hi]
    · cases r with
      | ok u => exact absurd rfl hne
      | error e => exact ⟨_, _, hrun, ⟨h.logged_same hcapacity hpages, hlogged⟩, by simp⟩

/-- The appends of the rounds succeed: the `k`-th page that is written is
logged `2 * k` calls after the first. -/
def FlushLogs (bp : BufferPool) (ids : List Nat) : Prop :=
  ∀ k < (ids.filter bp.isDirty).length,
    bp.pager.disk.faults (bp.pager.disk.clock + 2 * k) = false

theorem Fresh.flushPages_wroteBack (h : Fresh bp) (hattached : bp.walFile.isSome) {ids : List Nat}
    (hnodup : ids.Nodup) (hlogs : FlushLogs bp ids) :
    WroteBack bp ((forEach flushPage ids).run bp).2 := by
  induction ids generalizing bp with
  | nil => exact .refl h
  | cons id ids ih =>
    obtain ⟨hid, hnodup⟩ := List.nodup_cons.mp hnodup
    have hfirst : bp.isDirty id → bp.pager.disk.faults bp.pager.disk.clock = false := by
      intro hdirty
      exact hlogs 0 (by simp [hdirty])
    obtain ⟨r, bp₁, hrun, hround, hok⟩ := h.flushPage_wroteBack hattached id hfirst
    have hattached₁ := (keeps_flushPage id bp).attached
    rw [hrun] at hattached₁
    rw [forEach, run_bind, hrun]
    cases r with
    | error e => exact hround
    | ok u =>
      obtain ⟨hfaults, hclock, hdirty⟩ := hok rfl
      have hfilter : ids.filter bp₁.isDirty = ids.filter bp.isDirty := by
        refine List.filter_congr fun i hi => hdirty i ?_
        rintro rfl
        exact hid hi
      have hrest : FlushLogs bp₁ ids := by
        intro k hk
        rw [hfilter] at hk
        rw [hfaults, hclock]
        by_cases hisDirty : bp.isDirty id = true
        · have := hlogs (k + 1) (by simpa [hisDirty] using hk)
          rw [if_pos hisDirty, Nat.add_assoc]
          rwa [Nat.mul_add, Nat.add_comm (2 * k)] at this
        · have := hlogs k (by simpa [hisDirty] using hk)
          rwa [if_neg hisDirty]
      have hloop := ih hround.fresh (hattached₁.trans hattached) hnodup hrest
      exact ⟨hloop.fresh, hround.logged.trans hloop.logged⟩

theorem Fresh.flushAll_wroteBack (h : Fresh bp) (hattached : bp.walFile.isSome)
    (hlogs : FlushLogs { bp with pager := bp.pager.ticked } bp.frames.keys) :
    WroteBack bp (flushAll.run bp).2 := by
  let bp₀ : BufferPool := { bp with pager := bp.pager.ticked }
  let ids := permute (bp.pager.disk.orders bp.pager.disk.clock) bp.frames.keys
  have hrun : flushAll.run bp = (forEach flushPage ids).run bp₀ := rfl
  have hlogs' : FlushLogs bp₀ ids := by
    intro k hk
    rw [((permute_perm _ _).filter _).length_eq] at hk
    exact hlogs k hk
  have hloop := h.ticked.flushPages_wroteBack hattached (nodup_permute bp.frames.keys_nodup) hlogs'
  rw [hrun]
  have htick : bp.pager.disk.LoggedWrites bp₀.pager.disk := .of_journal_eq rfl rfl rfl
  exact ⟨hloop.fresh, htick.trans hloop.logged⟩

end BufferPool

/-! ### The other operations -/

namespace Pager

/-- The page count and the pages of `S` are as before. -/
structure Untouched (S : Nat → Prop) (p q : Pager) : Prop where
  capacity : q.disk.capacity = p.disk.capacity
  pageCount : q.pageCount = p.pageCount
  pages : ∀ id, S id → q.disk.pages id = p.disk.pages id

variable {S : Nat → Prop}

instance : Std.Refl (Untouched S) := ⟨fun _ => ⟨rfl, rfl, fun _ _ => rfl⟩⟩

instance : IsTrans Pager (Untouched S) :=
  ⟨fun _ _ _ h h' => ⟨h'.capacity.trans h.capacity, h'.pageCount.trans h.pageCount,
    fun id hid => (h'.pages id hid).trans (h.pages id hid)⟩⟩

theorem untouched_write {w : Write} (hw : ∀ pages id, S id → w.onPages pages id = pages id) :
    Keeps (Untouched S) (onDisk (Disk.write w)) := by
  intro p
  by_cases hfault : p.disk.faults p.disk.clock = true
  · simp only [onDisk, run_zoom, Disk.write, run_bind, run_get,
      run_set, hfault, if_true]
    exact ⟨rfl, rfl, fun _ _ => rfl⟩
  · simp only [onDisk, run_zoom, Disk.write, run_bind, run_get,
      run_set, hfault]
    exact ⟨rfl, rfl, fun id hid => hw _ id hid⟩

theorem untouched_header (hS : ¬ S 0) (off : Nat) (src : Bytes) :
    Keeps (Untouched S) (onDisk (Disk.write (.header off src))) :=
  untouched_write fun pages id hid => by
    have hne : id ≠ 0 := by
      rintro rfl
      exact hS hid
    exact Function.update_of_ne hne _ pages

theorem untouched_readPage (id : Nat) : Keeps (Untouched S) (readPage id) := by
  intro p
  obtain ⟨e, q, hrun, hq⟩ | ⟨-, hrun⟩ := BufferPool.readPage_cases p id
  · rw [hrun]
    rcases hq with rfl | rfl <;> exact ⟨rfl, rfl, fun _ _ => rfl⟩
  · rw [hrun]
    exact ⟨rfl, rfl, fun _ _ => rfl⟩

theorem untouched_writePage {id : Nat} (hS : ¬ S id) (data : Bytes) :
    Keeps (Untouched S) (writePage id data) := by
  intro p
  rw [writePage_run_eq]
  split
  · exact refl_of _ p
  · split
    · rename_i hlen
      have hwrite : Keeps (Untouched S) (onDisk (Disk.write (.page id ⟨data, hlen⟩))) :=
        untouched_write fun pages i hi => by
          have hne : i ≠ id := by
            rintro rfl
            exact hS hi
          exact Function.update_of_ne hne _ pages
      by_cases hcap : p.disk.capacity ≤ id
      · simp only [onDisk, run_zoom, Disk.writeAt, run_bind, run_get,
          hcap, if_true]
        exact refl_of _ p
      · simp only [onDisk, run_zoom, Disk.writeAt, run_bind, run_get,
          hcap, if_false]
        exact hwrite p
    · exact refl_of _ p

theorem untouched_writeFreeListHead (hS : ¬ S 0) : Keeps (Untouched S) writeFreeListHead :=
  .bind .get fun _ => untouched_header hS _ _

theorem untouched_freePage {id : Nat} (hS : ¬ S 0) (hid : ¬ S id) :
    Keeps (Untouched S) (freePage id) := by
  refine .bind .get fun p => .bind (untouched_writePage hid _) fun _ => ?_
  exact .bind (.modify fun _ => ⟨rfl, rfl, fun _ _ => rfl⟩) fun _ => untouched_writeFreeListHead hS

theorem untouched_setCatalogRootPageID (hS : ¬ S 0) (id : Nat) :
    Keeps (Untouched S) (setCatalogRootPageID id) :=
  .bind (untouched_header hS _ _) fun _ => .modify fun _ => ⟨rfl, rfl, fun _ _ => rfl⟩

/-- An allocation may add a page at the end; the others stay. -/
theorem allocatePage_pages {p : Pager} (hlt : p.disk.capacity < 2 ^ 32)
    (hcount : p.pageCount ≤ p.disk.capacity) :
    let q := (allocatePage.run p).2
    q.disk.capacity = p.disk.capacity ∧ p.pageCount ≤ q.pageCount ∧
      q.pageCount ≤ q.disk.capacity ∧
      ∀ id, id ≠ 0 → id < p.pageCount → q.disk.pages id = p.disk.pages id := by
  intro q
  by_cases hhead : p.freeListHead = 0
  · have hrun : allocatePage.run p = (do
        onDisk (Disk.writeAt p.pageCount PageData.zero)
        modify fun p' => { p' with pageCount := (p.pageCount + 1) % 2 ^ 32 }
        onDisk (Disk.write (.header 11 (be 4 ((p.pageCount + 1) % 2 ^ 32))))
        return p.pageCount : Fallible Pager Err Nat).run p := by
      simp only [allocatePage, run_bind, run_get, hhead, ne_eq, not_true_eq_false,
        if_false]
    obtain ⟨q', hwrite, hq'⟩ | ⟨hcap, hwrite⟩ :=
      BufferPool.writeAt_cases p p.pageCount PageData.zero
    · have hq : q = q' := by
        simp only [q, hrun, run_bind_of_error hwrite]
      rw [hq]
      rcases hq' with rfl | rfl
      · exact ⟨rfl, le_rfl, hcount, fun _ _ _ => rfl⟩
      · exact ⟨rfl, le_rfl, hcount, fun _ _ _ => rfl⟩
    · have hmod : (p.pageCount + 1) % 2 ^ 32 = p.pageCount + 1 := Nat.mod_eq_of_lt (by omega)
      rw [hmod] at hrun
      -- the page is there; whether its count reaches the header does not matter
      let p₁ : Pager :=
        { p.wrote (.page p.pageCount PageData.zero) with pageCount := p.pageCount + 1 }
      have hheader : Untouched (· ≠ 0) p₁ q := by
        have hkeeps : Keeps (Untouched (· ≠ 0)) (do
            onDisk (Disk.write (.header 11 (be 4 (p.pageCount + 1))))
            return p.pageCount : Fallible Pager Err Nat) :=
          .bind (untouched_header (by simp) _ _) fun _ => .pure _
        have hq : q = ((do
            onDisk (Disk.write (.header 11 (be 4 (p.pageCount + 1))))
            return p.pageCount : Fallible Pager Err Nat).run p₁).2 := by
          simp only [q, hrun, run_bind_of_ok hwrite]
          rfl
        rw [hq]
        exact hkeeps p₁
      refine ⟨hheader.capacity, ?_, ?_, fun id hne hid => ?_⟩
      · rw [hheader.pageCount]
        exact Nat.le_succ _
      · rw [hheader.pageCount, hheader.capacity]
        exact hcap
      · rw [hheader.pages id hne]
        exact Function.update_of_ne hid.ne _ _
  · have hkeeps : Keeps (Untouched (· ≠ 0)) (do
        let buffer ← readPage p.freeListHead
        modify fun p => { p with freeListHead := beNat (slice buffer.bytes 0 4) }
        writeFreeListHead
        return p.freeListHead : Fallible Pager Err Nat) := by
      refine .bind (untouched_readPage _) fun _ => ?_
      refine .bind (.modify fun _ => ⟨rfl, rfl, fun _ _ => rfl⟩) fun _ => ?_
      exact .bind (untouched_writeFreeListHead (by simp)) fun _ => .pure _
    have hq : Untouched (· ≠ 0) p q := by
      have h := hkeeps p
      simp only [q, allocatePage, run_bind, run_get, hhead, ne_eq,
        not_false_eq_true, if_true] at h ⊢
      exact h
    exact ⟨hq.capacity, hq.pageCount.ge, by rw [hq.pageCount, hq.capacity]; exact hcount,
      fun id hne _ => hq.pages id hne⟩

end Pager

namespace BufferPool

variable {bp : BufferPool}

/-- A call of the pager that leaves the cached pages alone. -/
theorem Fresh.onPager (h : Fresh bp) {α : Type} {x : Fallible Pager Err α}
    (hx : bp.pager.Untouched (fun id => (bp.frames.lookup id).isSome) (x.run bp.pager).2) :
    Fresh ((BufferPool.onPager x).run bp).2 := by
  have hcount : (x.run bp.pager).2.pageCount ≤ (x.run bp.pager).2.disk.capacity := by
    rw [hx.pageCount, hx.capacity]
    exact h.count_le
  exact h.withPager hx.capacity hcount hx.pageCount.ge hx.pages

theorem Fresh.zero_not_cached (h : Fresh bp) : ¬ (bp.frames.lookup 0).isSome :=
  fun h0 => (h.pos_of_cached h0).1 rfl

theorem Fresh.unpinPage (h : Fresh bp) (id : Nat) (dirty : Bool) :
    Fresh ((unpinPage id dirty).run bp).2 := by
  obtain ⟨-, hrun⟩ | ⟨page, hpage, ⟨-, hrun⟩ | ⟨-, hrun⟩⟩ := unpinPage_cases bp id dirty
  · rw [hrun]
    exact h
  · rw [hrun]
    exact h.changeFrame hpage (by rfl) _ _ (.inl rfl) fun _ _ => rfl
  · rw [hrun _ (h.snapshot_of_frame hpage)]
    exact h.changeFrame hpage (by rfl) _ _ (.inr rfl) fun _ hi => AList.lookup_insert_ne hi

theorem Fresh.setData (h : Fresh bp) (id : Nat) (data : PageData) : Fresh (bp.setData id data) := by
  cases hpage : bp.frames.lookup id with
  | none => simpa only [BufferPool.setData, hpage] using h
  | some page =>
    simp only [BufferPool.setData, hpage]
    exact h.changeFrame hpage (by rfl) _ _ (.inl rfl) fun _ _ => rfl

theorem Fresh.allocatePage (h : Fresh bp) : Fresh (allocatePage.run bp).2 := by
  obtain ⟨hcapacity, hle, hcount, hpages⟩ := Pager.allocatePage_pages h.capacity_lt h.count_le
  refine h.withPager hcapacity hcount hle fun id hid => ?_
  obtain ⟨hne, hlt⟩ := h.pos_of_cached hid
  exact hpages id hne hlt

/-- The page is out of the pool before the pager writes it. -/
theorem Fresh.freePage_run (h : Fresh bp) (id : Nat) :
    ∃ bp', (freePage id).run bp = (BufferPool.onPager (Pager.freePage id)).run bp' ∧ Fresh bp' ∧
      ¬ (bp'.frames.lookup id).isSome ∧ bp'.pager = bp.pager ∧ bp'.walFile = bp.walFile := by
  obtain ⟨helem, hrun⟩ | ⟨element, -, hrun⟩ := freePage_cases bp id
  · refine ⟨bp, hrun, h, fun hid => ?_, rfl, rfl⟩
    have hsome := h.lru id hid
    rw [helem] at hsome
    cases hsome
  · exact ⟨_, hrun, h.forget id element, by simp [BufferPool.forget], rfl, rfl⟩

theorem Fresh.freePage (h : Fresh bp) (id : Nat) : Fresh ((freePage id).run bp).2 := by
  obtain ⟨bp', hrun, hfresh, hid, -⟩ := h.freePage_run id
  rw [hrun]
  exact hfresh.onPager (Pager.untouched_freePage hfresh.zero_not_cached hid bp'.pager)

/-- A round of the loop of `RollbackTxn` restores a cached page, in memory. -/
theorem Fresh.rollbackPage_run (h : Fresh bp) (txnID id : Nat) :
    ∃ bp', (rollbackPage txnID id).run bp = (.ok (), bp') ∧ Fresh bp' ∧ bp'.pager = bp.pager ∧
      bp'.walFile = bp.walFile := by
  by_cases htxn : bp.dirtyTxn.lookup id ≠ some txnID
  · refine ⟨bp, ?_, h, rfl, rfl⟩
    simp only [rollbackPage, run_bind, run_get, if_pos htxn]
    rfl
  · cases hbefore : bp.beforeImages.lookup id with
    | none =>
      refine ⟨bp, ?_, h, rfl, rfl⟩
      simp only [rollbackPage, run_bind, run_get, if_neg htxn, hbefore]
      rfl
    | some image =>
      obtain ⟨hcached, heq⟩ := h.before id image hbefore
      obtain ⟨page, hpage⟩ := Option.isSome_iff_exists.mp hcached
      refine ⟨{ bp with
          frames := bp.frames.insert id { page with data := image, dirty := false }
          cleanSnapshots := bp.cleanSnapshots.insert id image
          beforeImages := bp.beforeImages.erase id
          dirtyTxn := bp.dirtyTxn.erase id }, ?_, ?_, rfl, rfl⟩
      · simp only [rollbackPage, run_bind, run_get, if_neg htxn, hbefore, hpage]
        rfl
      · exact h.clean hpage (by rfl) rfl rfl (by rw [heq, Function.update_eq_self])

/-- `RollbackTxn` leaves the files as they are. -/
theorem Fresh.rollbackTxn_run (h : Fresh bp) (txnID : Nat) :
    ∃ bp', (rollbackTxn txnID).run bp = (.ok (), bp') ∧ Fresh bp' ∧
      bp'.pager = bp.pager.ticked ∧ bp'.walFile = bp.walFile := by
  let inv : List Nat → BufferPool → Prop := fun _ bp' =>
    Fresh bp' ∧ bp'.pager = bp.pager.ticked ∧ bp'.walFile = bp.walFile
  have hstart : inv (permute (bp.pager.disk.orders bp.pager.disk.clock) bp.dirtyTxn.keys)
      { bp with pager := bp.pager.ticked } := ⟨h.ticked, rfl, rfl⟩
  exact forEach_invariant inv (rollbackPage txnID) hstart (by
    rintro id ids bp₁ ⟨hfresh, hpager, hwal⟩
    obtain ⟨bp₂, hrun, hfresh', hpager', hwal'⟩ := hfresh.rollbackPage_run txnID id
    exact ⟨bp₂, hrun, hfresh', hpager'.trans hpager, hwal'.trans hwal⟩)

theorem Fresh.writeRecord (h : Fresh bp) (r : Record) : Fresh ((writeRecord r).run bp).2 := by
  cases hwal : bp.walFile with
  | none =>
    have hrun : (BufferPool.writeRecord r).run bp = (.error .panic, bp) := by
      simp [BufferPool.writeRecord, run_bind, hwal]
    rw [hrun]
    exact h
  | some w =>
    rw [writeRecord_run hwal]
    split
    · exact h.logged_same rfl rfl
    · exact h.logged_same rfl rfl

/-! ### Runs -/

/-- The appends of the operation succeed: the one of an eviction, and those
of the rounds of `FlushAll`. -/
def AppendsSucceed (bp : BufferPool) : PoolOp → Prop
  | .data (.fetchPage id) => FetchLogs bp id
  | .flushAll => FlushLogs { bp with pager := bp.pager.ticked } bp.frames.keys
  | _ => True

/-- The operation does not fetch the header page, and its appends
succeed. -/
def Careful (bp : BufferPool) (o : PoolOp) : Prop :=
  o ≠ .data (.fetchPage 0) ∧ AppendsSucceed bp o

/-- Run one operation. -/
def poolStep (bp : BufferPool) (o : PoolOp) : BufferPool := (handler o bp).2

/-- No operation attaches or detaches the log. -/
theorem attached_poolStep (bp : BufferPool) (o : PoolOp) :
    (bp.poolStep o).walFile.isSome = bp.walFile.isSome := by
  cases o with
  | data o => exact (logs_dataHandler o bp).attached
  | flushAll => exact (keeps_flushAll bp).attached
  | setTxnID txnID => rfl
  | rollbackTxn txnID => exact (keeps_rollbackTxn txnID bp).attached
  | writeRecord type txnID =>
    let r : Record := { lsn := 0, txnID := txnID, type := type }
    change ((BufferPool.writeRecord r).run bp).2.walFile.isSome = _
    cases hwal : bp.walFile with
    | none => simp [BufferPool.writeRecord, run_bind, hwal]
    | some w =>
      rw [writeRecord_run hwal]
      split <;> rfl
  | setCatalogRootPageID id => rfl
  | order => rfl

theorem Fresh.poolStep (h : Fresh bp) (hattached : bp.walFile.isSome) {o : PoolOp}
    (ho : Careful bp o) : Fresh (bp.poolStep o) := by
  cases o with
  | data o =>
    cases o with
    | fetchPage id =>
      have hid : id ≠ 0 := by
        rintro rfl
        exact ho.1 rfl
      exact (h.fetchPage_wroteBack hattached hid ho.2).fresh
    | unpinPage id dirty => exact h.unpinPage id dirty
    | setData id data => exact h.setData id data
    | allocatePage => exact h.allocatePage
    | freePage id => exact h.freePage id
  | flushAll => exact (h.flushAll_wroteBack hattached ho.2).fresh
  | setTxnID txnID =>
    exact ⟨h.capacity_lt, h.count_le, h.lru, h.frame, h.snapshot, h.before⟩
  | rollbackTxn txnID =>
    obtain ⟨bp', hrun, hfresh, -⟩ := h.rollbackTxn_run txnID
    change Fresh ((rollbackTxn txnID).run bp).2
    rw [hrun]
    exact hfresh
  | writeRecord type txnID => exact h.writeRecord _
  | setCatalogRootPageID id =>
    exact h.onPager (Pager.untouched_setCatalogRootPageID h.zero_not_cached id bp.pager)
  | order => exact h.ticked

/-- The state a run is in while its log is attached. -/
def Ready (bp : BufferPool) : Prop := Fresh bp ∧ bp.walFile.isSome

theorem Ready.poolStep (h : Ready bp) {o : PoolOp} (ho : Careful bp o) : Ready (bp.poolStep o) :=
  ⟨h.1.poolStep h.2 ho, (attached_poolStep bp o).trans h.2⟩

theorem fresh_new {p : Pager} (hlt : p.disk.capacity < 2 ^ 32)
    (hcap : p.pageCount ≤ p.disk.capacity) (capacity : Nat) : Fresh (new p capacity) :=
  ⟨hlt, hcap, by simp [new], by simp [new], by simp [new], by simp [new]⟩

theorem Fresh.setWAL (h : Fresh bp) (w : WAL) : Fresh (bp.setWAL w) :=
  ⟨h.capacity_lt, h.count_le, h.lru, h.frame, h.snapshot, h.before⟩

/-- In every run in which the appends succeed and the header page is not
fetched, whatever else fails, every page that is written back was logged
before. -/
theorem pages_logged_before_written {p : Pager} (hlt : p.disk.capacity < 2 ^ 32)
    (hcap : p.pageCount ≤ p.disk.capacity) (capacity : Nat) (w : WAL) (ops : List PoolOp)
    (hops : Along BufferPool.poolStep Careful ops ((new p capacity).setWAL w)) (o : PoolOp)
    (hwrites : o = .flushAll ∨ ∃ id, o = .data (.fetchPage id)) :
    let bp := ops.foldl BufferPool.poolStep ((new p capacity).setWAL w)
    Careful bp o → bp.pager.disk.LoggedWrites (bp.poolStep o).pager.disk := by
  intro bp ho
  obtain ⟨h, hattached⟩ : Ready bp :=
    hops.invariant (fun _ _ hbp ho => hbp.poolStep ho)
      ⟨(fresh_new hlt hcap capacity).setWAL w, rfl⟩
  rcases hwrites with rfl | ⟨id, rfl⟩
  · exact (h.flushAll_wroteBack hattached ho.2).logged
  · have hid : id ≠ 0 := by
      rintro rfl
      exact ho.1 rfl
    exact (h.fetchPage_wroteBack hattached hid ho.2).logged

/-- A file of one page; the calls `faults` names fail. -/
def faultyPager (faults : Nat → Bool) : Pager :=
  ⟨{ basePages := fun _ => PageData.zero, baseSize := 1, baseLog := [], journal := [],
     capacity := 4, capacity_le := Disk.four_le, faults := faults, orders := fun _ => 0,
     clock := 0 }, 0, 1, 0⟩

/-- Two pages are allocated, and the first is changed; it is evicted when
the second is fetched. -/
def changeOps : List PoolOp :=
  [.data .allocatePage, .data .allocatePage, .data (.fetchPage 1),
   .data (.setData 1 (Pager.linkPage 7)), .data (.unpinPage 1 true)]

theorem changed_page_logged :
    (changeOps.foldl BufferPool.poolStep
        ((new (faultyPager fun _ => false) 1).setWAL ⟨0⟩)).pager.disk.LoggedWrites
      ((changeOps.foldl BufferPool.poolStep
        ((new (faultyPager fun _ => false) 1).setWAL ⟨0⟩)).poolStep
          (.data (.fetchPage 2))).pager.disk := by
  have hfree : Careful ((changeOps.take 2).foldl BufferPool.poolStep
      ((new (faultyPager fun _ => false) 1).setWAL ⟨0⟩)) (.data (.fetchPage 1)) := by
    refine ⟨by simp, fun _ hfull => absurd hfull ?_⟩
    decide +kernel
  have hops : Along BufferPool.poolStep Careful changeOps
      ((new (faultyPager fun _ => false) 1).setWAL ⟨0⟩) :=
    ⟨⟨by simp, trivial⟩, ⟨by simp, trivial⟩, hfree, ⟨by simp, trivial⟩, ⟨by simp, trivial⟩, trivial⟩
  have hlogs : Careful (changeOps.foldl BufferPool.poolStep
      ((new (faultyPager fun _ => false) 1).setWAL ⟨0⟩)) (.data (.fetchPage 2)) := by
    refine ⟨by simp, fun _ _ element page _ _ _ => ?_⟩
    decide +kernel
  have h := pages_logged_before_written (p := faultyPager fun _ => false) (by decide) (by decide) 1
    ⟨0⟩ changeOps hops (.data (.fetchPage 2)) (.inr ⟨2, rfl⟩)
  exact h hlogs

set_option maxRecDepth 200000 in
/-- The append of the eviction fails (it is the sixth call), and the page
goes to the file without a record. -/
theorem changed_page_not_logged :
    let bp := changeOps.foldl BufferPool.poolStep
      ((new (faultyPager fun n => n == 5) 1).setWAL ⟨0⟩)
    (bp.poolStep (.data (.fetchPage 2))).pager.disk.journal =
        .page 1 (Pager.linkPage 7) :: bp.pager.disk.journal ∧
      bp.pager.disk.log = [] := by
  refine ⟨?_, ?_⟩
  · decide +kernel
  · decide +kernel

end BufferPool

end MySQLight.Storage
