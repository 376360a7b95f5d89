import MySQLight.Storage.BufferPool

/-!
The buffer pool without its bookkeeping.

`Cache` keeps what the pool is for and drops how it finds things: a page
is cached or not, and a cached page has its contents, its pins, the
contents last known to be clean, and, once it is dirty, its before-image
and the transaction that dirtied it. The recency list is gone, so which
page an eviction picks is no longer determined. `Step` lists what can
happen to a cache, one page at a time; an operation of the pool is a short
sequence of such steps.

`Cache.Ok` is the invariant all later arguments rest on: away from the
header page, the clean snapshot and the before-image of every cached page
are the page as it is in the file. It holds because only the pool writes
pages, and it forgets a page or renews the snapshot whenever it does.
-/

namespace MySQLight.Storage

open MySQLight.Data MySQLight.Effect MySQLight.Wal

/-- A cached page. `dirt` is there once the page is dirty: its
before-image and the transaction that was current when it became dirty. -/
structure Cached where
  data : PageData
  pins : Nat
  snapshot : PageData
  dirt : Option (PageData × Nat)

/-- The pool as a partial map from pages to cached contents. -/
structure Cache where
  capacity : Nat
  pager : Pager
  wal : Option WAL
  txn : Nat
  frame : Nat → Option Cached

/-- What can happen to a cache. -/
inductive Step
  | tick
  | pin (id : Nat)
  | load (id : Nat)
  | evict (id : Nat)
  | unpin (id : Nat) (dirty : Bool)
  | set (id : Nat) (data : PageData)
  | flush (id : Nat)
  | rollback (id : Nat)
  | grow
  | pop
  | free (id : Nat)
  | append (type : RecordType) (txnID : Nat)
  | setRoot (id : Nat)
  | setTxn (txnID : Nat)

namespace Cache

/-- The bytes a client sees on a page: the cached ones, else those in the
file. -/
def content (s : Cache) (id : Nat) : PageData :=
  match s.frame id with
  | some c => c.data
  | none => s.pager.disk.pages id

/-- Append a record to the log, if there is one. -/
def logged (s : Cache) (r : Record) : Cache :=
  match s.wal with
  | none => s
  | some w =>
    { s with
      wal := some ⟨(w.nextLSN + 1) % 2 ^ 64⟩
      pager := s.pager.wrote (.append { r with lsn := w.nextLSN }) }

/-- Write a dirty page to the log and then to the file. -/
def writeBack (s : Cache) (id : Nat) (c : Cached) : Cache :=
  match c.dirt with
  | none => s
  | some (before, txnID) =>
    let s := s.logged (BufferPool.updateRecord id txnID before c.data)
    { s with pager := s.pager.wrote (.page id c.data) }

/-- Replace what is cached of a page. -/
def withFrame (s : Cache) (id : Nat) (c : Option Cached) : Cache :=
  { s with frame := Function.update s.frame id c }

/-- The pin count drops and, on the first dirty unpin, the snapshot
becomes the before-image. -/
def unpinned (c : Cached) (dirty : Bool) (txn : Nat) : Cached :=
  { c with
    pins := c.pins - 1
    dirt := if dirty && c.dirt.isNone then some (c.snapshot, txn) else c.dirt }

/-- The cache after a step. A step about a page that is not cached does
nothing. -/
def apply (s : Cache) : Step → Cache
  | .tick => { s with pager := s.pager.ticked }
  | .pin id =>
    match s.frame id with
    | none => s
    | some c => s.withFrame id (some { c with pins := c.pins + 1 })
  | .load id =>
    let data := s.pager.disk.pages id
    { s with pager := s.pager.ticked }.withFrame id (some ⟨data, 1, data, none⟩)
  | .evict id =>
    match s.frame id with
    | none => s
    | some c => (s.writeBack id c).withFrame id none
  | .unpin id dirty =>
    match s.frame id with
    | none => s
    | some c => s.withFrame id (some (unpinned c dirty s.txn))
  | .set id data =>
    match s.frame id with
    | none => s
    | some c => s.withFrame id (some { c with data := data })
  | .flush id =>
    match s.frame id with
    | none => s
    | some c =>
      (s.writeBack id c).withFrame id (some { c with snapshot := c.data, dirt := none })
  | .rollback id =>
    match s.frame id with
    | none => s
    | some c =>
      match c.dirt with
      | none => s
      | some (before, _) =>
        s.withFrame id (some { c with data := before, snapshot := before, dirt := none })
  | .grow =>
    let count := (s.pager.pageCount + 1) % 2 ^ 32
    { s with
      pager :=
        { s.pager.wrote (.page s.pager.pageCount PageData.zero) with pageCount := count }.wrote
          (.header 11 (be 4 count)) }
  | .pop =>
    let next := Pager.link (s.pager.disk.pages s.pager.freeListHead)
    { s with
      pager := { s.pager.ticked with freeListHead := next }.wrote (.header 27 (be 4 next)) }
  | .free id =>
    { s with
      pager :=
        { s.pager.wrote (.page id (Pager.linkPage s.pager.freeListHead)) with
          freeListHead := id }.wrote (.header 27 (be 4 id)) }.withFrame id none
  | .append type txnID => s.logged { lsn := 0, txnID := txnID, type := type }
  | .setRoot id =>
    { s with pager := { s.pager.wrote (.header 15 (be 4 id)) with catalogRootPageID := id } }
  | .setTxn txnID => { s with txn := txnID }

/-- When a step is possible. -/
def Can (s : Cache) : Step → Prop
  | .tick => True
  | .pin id => ∃ c, s.frame id = some c
  | .load id => s.frame id = none ∧ id < s.pager.pageCount
  | .evict id => ∃ c, s.frame id = some c ∧ c.pins = 0
  | .unpin id _ => ∃ c, s.frame id = some c
  | .set id _ => ∃ c, s.frame id = some c
  | .flush id => ∃ c, s.frame id = some c ∧ c.dirt.isSome
  | .rollback id => ∃ c, s.frame id = some c ∧ c.dirt.isSome
  | .grow => s.pager.freeListHead = 0 ∧ s.pager.pageCount < s.pager.disk.capacity
  | .pop => s.pager.freeListHead ≠ 0 ∧ s.pager.freeListHead < s.pager.pageCount
  | .free id => id < s.pager.pageCount
  | .append _ _ => s.wal.isSome
  | .setRoot _ => True
  | .setTxn _ => True

/-- The invariant of a cache. -/
structure Ok (s : Cache) : Prop where
  noFaults : s.pager.disk.NoFaults
  capacity_lt : s.pager.disk.capacity < 2 ^ 32
  count_le : s.pager.pageCount ≤ s.pager.disk.capacity
  count_le_size : s.pager.pageCount ≤ s.pager.disk.size
  cached_lt : ∀ {id c}, s.frame id = some c → id < s.pager.pageCount
  snapshot_eq : ∀ {id c}, id ≠ 0 → s.frame id = some c → c.snapshot = s.pager.disk.pages id
  before_eq : ∀ {id c b t}, id ≠ 0 → s.frame id = some c → c.dirt = some (b, t) →
    b = s.pager.disk.pages id

/-- A run of steps, each possible where it is made. -/
def steps : List Step → Cache → Cache
  | [], s => s
  | m :: ms, s => steps ms (s.apply m)

/-- Every step of the run is possible. -/
def CanAll : List Step → Cache → Prop
  | [], _ => True
  | m :: ms, s => s.Can m ∧ CanAll ms (s.apply m)

@[simp] theorem steps_nil (s : Cache) : steps [] s = s := rfl

@[simp] theorem steps_cons (m : Step) (ms : List Step) (s : Cache) :
    steps (m :: ms) s = steps ms (s.apply m) := rfl

theorem steps_append (ms ms' : List Step) (s : Cache) :
    steps (ms ++ ms') s = steps ms' (steps ms s) := by
  induction ms generalizing s with
  | nil => rfl
  | cons m ms ih => exact ih _

@[simp] theorem canAll_nil (s : Cache) : CanAll [] s := trivial

@[simp] theorem canAll_cons (m : Step) (ms : List Step) (s : Cache) :
    CanAll (m :: ms) s ↔ s.Can m ∧ CanAll ms (s.apply m) := Iff.rfl

theorem canAll_append (ms ms' : List Step) (s : Cache) :
    CanAll (ms ++ ms') s ↔ CanAll ms s ∧ CanAll ms' (steps ms s) := by
  induction ms generalizing s with
  | nil => simp
  | cons m ms ih => simp [ih, and_assoc]

/-- What every possible step preserves, every run preserves. -/
theorem steps_invariant {inv : Cache → Prop}
    (hstep : ∀ m s, inv s → s.Can m → inv (s.apply m)) {ms : List Step} {s : Cache}
    (hs : inv s) (hms : CanAll ms s) : inv (steps ms s) := by
  induction ms generalizing s with
  | nil => exact hs
  | cons m ms ih => exact ih (hstep m s hs hms.1) hms.2

/-! ### Writing back -/

section logged

variable (s : Cache) (r : Record)

@[simp] theorem logged_frame : (s.logged r).frame = s.frame := by
  unfold logged
  split <;> rfl

@[simp] theorem logged_poolCapacity : (s.logged r).capacity = s.capacity := by
  unfold logged
  split <;> rfl

@[simp] theorem logged_pages : (s.logged r).pager.disk.pages = s.pager.disk.pages := by
  unfold logged
  split <;> rfl

@[simp] theorem logged_size : (s.logged r).pager.disk.size = s.pager.disk.size := by
  unfold logged
  split <;> rfl

@[simp] theorem logged_capacity : (s.logged r).pager.disk.capacity = s.pager.disk.capacity := by
  unfold logged
  split <;> rfl

@[simp] theorem logged_noFaults : (s.logged r).pager.disk.NoFaults ↔ s.pager.disk.NoFaults := by
  unfold logged
  split <;> exact Iff.rfl

@[simp] theorem logged_pageCount : (s.logged r).pager.pageCount = s.pager.pageCount := by
  unfold logged
  split <;> rfl

end logged

section wrote

variable (p : Pager) (w : Write)

@[simp] theorem wrote_pages : (p.wrote w).disk.pages = w.onPages p.disk.pages := rfl

@[simp] theorem wrote_size : (p.wrote w).disk.size = w.onSize p.disk.size := rfl

@[simp] theorem wrote_capacity : (p.wrote w).disk.capacity = p.disk.capacity := rfl

@[simp] theorem wrote_noFaults : (p.wrote w).disk.NoFaults ↔ p.disk.NoFaults := Iff.rfl

@[simp] theorem wrote_pageCount : (p.wrote w).pageCount = p.pageCount := rfl

@[simp] theorem wrote_freeListHead : (p.wrote w).freeListHead = p.freeListHead := rfl

@[simp] theorem ticked_pages : p.ticked.disk.pages = p.disk.pages := rfl

@[simp] theorem ticked_size : p.ticked.disk.size = p.disk.size := rfl

@[simp] theorem ticked_capacity : p.ticked.disk.capacity = p.disk.capacity := rfl

@[simp] theorem ticked_noFaults : p.ticked.disk.NoFaults ↔ p.disk.NoFaults := Iff.rfl

@[simp] theorem ticked_pageCount : p.ticked.pageCount = p.pageCount := rfl

@[simp] theorem ticked_freeListHead : p.ticked.freeListHead = p.freeListHead := rfl

end wrote

@[simp] theorem withFrame_pager (s : Cache) (id : Nat) (c : Option Cached) :
    (s.withFrame id c).pager = s.pager := rfl

@[simp] theorem withFrame_txn (s : Cache) (id : Nat) (c : Option Cached) :
    (s.withFrame id c).txn = s.txn := rfl

@[simp] theorem withFrame_wal (s : Cache) (id : Nat) (c : Option Cached) :
    (s.withFrame id c).wal = s.wal := rfl

theorem withFrame_frame (s : Cache) (id : Nat) (c : Option Cached) (id' : Nat) :
    (s.withFrame id c).frame id' = if id' = id then c else s.frame id' := by
  simp [withFrame, Function.update_apply]

@[simp] theorem withFrame_frame_self (s : Cache) (id : Nat) (c : Option Cached) :
    (s.withFrame id c).frame id = c := by
  simp [withFrame]

variable {id : Nat} {c : Cached}

theorem withFrame_frame_of_ne (s : Cache) {id' : Nat} (c : Option Cached) (h : id' ≠ id) :
    (s.withFrame id c).frame id' = s.frame id' := by
  simp [withFrame, Function.update_of_ne h]

theorem writeBack_pages (s : Cache) (id : Nat) (c : Cached) :
    (s.writeBack id c).pager.disk.pages =
      if c.dirt.isSome then Function.update s.pager.disk.pages id c.data
      else s.pager.disk.pages := by
  unfold writeBack
  cases h : c.dirt with
  | none => simp
  | some bt => simp [Write.onPages]

@[simp] theorem writeBack_frame (s : Cache) (id : Nat) (c : Cached) :
    (s.writeBack id c).frame = s.frame := by
  unfold writeBack
  split <;> simp

@[simp] theorem writeBack_pageCount (s : Cache) (id : Nat) (c : Cached) :
    (s.writeBack id c).pager.pageCount = s.pager.pageCount := by
  unfold writeBack
  split <;> simp

@[simp] theorem writeBack_capacity (s : Cache) (id : Nat) (c : Cached) :
    (s.writeBack id c).pager.disk.capacity = s.pager.disk.capacity := by
  unfold writeBack
  split <;> simp

@[simp] theorem writeBack_noFaults (s : Cache) (id : Nat) (c : Cached) :
    (s.writeBack id c).pager.disk.NoFaults ↔ s.pager.disk.NoFaults := by
  unfold writeBack
  split <;> simp

theorem writeBack_size_le (s : Cache) (id : Nat) (c : Cached) :
    s.pager.disk.size ≤ (s.writeBack id c).pager.disk.size := by
  unfold writeBack
  split
  · exact Nat.le_refl _
  · simp [Write.onSize]

@[simp] theorem writeBack_poolCapacity (s : Cache) (id : Nat) (c : Cached) :
    (s.writeBack id c).capacity = s.capacity := by
  unfold writeBack
  split <;> simp

theorem apply_poolCapacity (s : Cache) (m : Step) : (s.apply m).capacity = s.capacity := by
  cases m <;> simp only [apply] <;> (repeat' split) <;> simp [withFrame]

/-! ### The invariant -/

variable {s : Cache}

/-- Replacing one cached page keeps the invariant if its snapshot and its
before-image still are the page in the file. -/
theorem Ok.withFrame (h : Ok s) (hid : id < s.pager.pageCount)
    (hsnapshot : id ≠ 0 → c.snapshot = s.pager.disk.pages id)
    (hbefore : ∀ b t, id ≠ 0 → c.dirt = some (b, t) → b = s.pager.disk.pages id) :
    Ok (s.withFrame id (some c)) where
  noFaults := h.noFaults
  capacity_lt := h.capacity_lt
  count_le := h.count_le
  count_le_size := h.count_le_size
  cached_lt := by
    intro id' c' hc'
    rw [withFrame_frame] at hc'
    split at hc'
    · rename_i heq
      rw [heq]
      exact hid
    · exact h.cached_lt hc'
  snapshot_eq := by
    intro id' c' hne hc'
    rw [withFrame_frame] at hc'
    split at hc'
    · rename_i heq
      cases hc'
      rw [heq]
      exact hsnapshot (heq ▸ hne)
    · exact h.snapshot_eq hne hc'
  before_eq := by
    intro id' c' b t hne hc' hdirt
    rw [withFrame_frame] at hc'
    split at hc'
    · rename_i heq
      cases hc'
      rw [heq]
      exact hbefore b t (heq ▸ hne) hdirt
    · exact h.before_eq hne hc' hdirt

/-- A change of the pager keeps the invariant if it leaves the cached
pages alone, the header page apart. -/
theorem Ok.withPager (h : Ok s) {p : Pager} (hf : p.disk.NoFaults)
    (hcapacity : p.disk.capacity = s.pager.disk.capacity)
    (hcount : p.pageCount ≤ p.disk.capacity) (hsize : p.pageCount ≤ p.disk.size)
    (hle : s.pager.pageCount ≤ p.pageCount)
    (hpages : ∀ id c, id ≠ 0 → s.frame id = some c → p.disk.pages id = s.pager.disk.pages id) :
    Ok { s with pager := p } where
  noFaults := hf
  capacity_lt := hcapacity ▸ h.capacity_lt
  count_le := hcount
  count_le_size := hsize
  cached_lt := fun hc => (h.cached_lt hc).trans_le hle
  snapshot_eq := fun hne hc => (h.snapshot_eq hne hc).trans (hpages _ _ hne hc).symm
  before_eq := fun hne hc hd => (h.before_eq hne hc hd).trans (hpages _ _ hne hc).symm

theorem Ok.dropFrame (h : Ok s) (id : Nat) : Ok (s.withFrame id none) where
  noFaults := h.noFaults
  capacity_lt := h.capacity_lt
  count_le := h.count_le
  count_le_size := h.count_le_size
  cached_lt := by
    intro id' c' hc'
    rw [withFrame_frame] at hc'
    split at hc'
    · cases hc'
    · exact h.cached_lt hc'
  snapshot_eq := by
    intro id' c' hne hc'
    rw [withFrame_frame] at hc'
    split at hc'
    · cases hc'
    · exact h.snapshot_eq hne hc'
  before_eq := by
    intro id' c' b t hne hc' hdirt
    rw [withFrame_frame] at hc'
    split at hc'
    · cases hc'
    · exact h.before_eq hne hc' hdirt

theorem Ok.logged (h : Ok s) (r : Record) : Ok (s.logged r) where
  noFaults := by simpa using h.noFaults
  capacity_lt := by simpa using h.capacity_lt
  count_le := by simpa using h.count_le
  count_le_size := by simpa using h.count_le_size
  cached_lt := by
    intro id c hc
    rw [logged_frame] at hc
    simpa using h.cached_lt hc
  snapshot_eq := by
    intro id c hne hc
    rw [logged_frame] at hc
    simpa using h.snapshot_eq hne hc
  before_eq := by
    intro id c b t hne hc hdirt
    rw [logged_frame] at hc
    simpa using h.before_eq hne hc hdirt

/-- Writing a page back keeps the invariant for what is cached of it
afterwards: nothing, or a clean copy. -/
theorem Ok.writeBack (h : Ok s) (hc : s.frame id = some c) {c' : Option Cached}
    (hc' : ∀ x, c' = some x → x.snapshot = (s.writeBack id c).pager.disk.pages id ∧ x.dirt = none) :
    Ok ((s.writeBack id c).withFrame id c') where
  noFaults := by simpa using h.noFaults
  capacity_lt := by simpa using h.capacity_lt
  count_le := by simpa using h.count_le
  count_le_size := by
    have hsize := s.writeBack_size_le id c
    simpa using h.count_le_size.trans hsize
  cached_lt := by
    intro id' x hx
    rw [withFrame_frame, writeBack_frame] at hx
    simp only [withFrame_pager, writeBack_pageCount]
    split at hx
    · rename_i heq
      rw [heq]
      exact h.cached_lt hc
    · exact h.cached_lt hx
  snapshot_eq := by
    intro id' x hne hx
    rw [withFrame_frame, writeBack_frame] at hx
    split at hx
    · rename_i heq
      rw [heq]
      exact (hc' x hx).1
    · rename_i hid
      rw [h.snapshot_eq hne hx, withFrame_pager, writeBack_pages]
      split
      · rw [Function.update_of_ne hid]
      · rfl
  before_eq := by
    intro id' x b t hne hx hdirt
    rw [withFrame_frame, writeBack_frame] at hx
    split at hx
    · rw [(hc' x hx).2] at hdirt
      cases hdirt
    · rename_i hid
      rw [h.before_eq hne hx hdirt, withFrame_pager, writeBack_pages]
      split
      · rw [Function.update_of_ne hid]
      · rfl

/-- Away from the header page, a header write changes nothing. -/
theorem onPages_header_of_ne (off : Nat) (src : Bytes) (pages : Nat → PageData) (h : id ≠ 0) :
    (Write.header off src).onPages pages id = pages id := by
  simp [Write.onPages, Function.update_of_ne h]

/-- Every possible step keeps the invariant. -/
theorem Ok.apply (h : Ok s) {m : Step} (hcan : s.Can m) : Ok (s.apply m) := by
  cases m with
  | tick =>
    exact ⟨h.noFaults, h.capacity_lt, h.count_le, h.count_le_size, h.cached_lt, h.snapshot_eq,
      h.before_eq⟩
  | pin id =>
    obtain ⟨c, hc⟩ := hcan
    simp only [Cache.apply, hc]
    exact h.withFrame (h.cached_lt hc) (fun hne => (h.snapshot_eq hne hc : c.snapshot = _))
      (fun b t hne (hdirt : c.dirt = _) => h.before_eq hne hc hdirt)
  | load id =>
    obtain ⟨-, hid⟩ := hcan
    have hticked : Ok { s with pager := s.pager.ticked } :=
      h.withPager h.noFaults rfl h.count_le h.count_le_size (Nat.le_refl _) (fun _ _ _ _ => rfl)
    exact hticked.withFrame hid (fun _ => rfl) (fun b t _ hdirt => by cases hdirt)
  | evict id =>
    obtain ⟨c, hc, -⟩ := hcan
    simp only [Cache.apply, hc]
    exact h.writeBack hc (fun x hx => by cases hx)
  | unpin id dirty =>
    obtain ⟨c, hc⟩ := hcan
    simp only [Cache.apply, hc]
    refine h.withFrame (h.cached_lt hc)
      (fun hne => (h.snapshot_eq hne hc : c.snapshot = _)) ?_
    intro b t hne hdirt
    simp only [unpinned] at hdirt
    split at hdirt
    · cases hdirt
      exact h.snapshot_eq hne hc
    · exact h.before_eq hne hc hdirt
  | set id data =>
    obtain ⟨c, hc⟩ := hcan
    simp only [Cache.apply, hc]
    exact h.withFrame (h.cached_lt hc) (fun hne => (h.snapshot_eq hne hc : c.snapshot = _))
      (fun b t hne (hdirt : c.dirt = _) => h.before_eq hne hc hdirt)
  | flush id =>
    obtain ⟨c, hc, hdirt⟩ := hcan
    simp only [Cache.apply, hc]
    refine h.writeBack hc (fun x hx => ?_)
    cases hx
    rw [writeBack_pages, if_pos hdirt, Function.update_self]
    exact ⟨rfl, rfl⟩
  | rollback id =>
    obtain ⟨c, hc, hdirt⟩ := hcan
    obtain ⟨⟨b, t⟩, hbt⟩ := Option.isSome_iff_exists.mp hdirt
    simp only [Cache.apply, hc, hbt]
    exact h.withFrame (h.cached_lt hc) (fun hne => h.before_eq hne hc hbt)
      (fun b' t' _ hd => by cases hd)
  | grow =>
    obtain ⟨-, hlt⟩ := hcan
    have hmod : (s.pager.pageCount + 1) % 2 ^ 32 = s.pager.pageCount + 1 :=
      Nat.mod_eq_of_lt (by have := h.capacity_lt; omega)
    simp only [Cache.apply, hmod]
    refine h.withPager h.noFaults rfl ?_ ?_ ?_ ?_
    · exact hlt
    · simp [Write.onSize]
    · simp
    · intro id c hne hc
      have hid := h.cached_lt hc
      simp only [wrote_pages, onPages_header_of_ne _ _ _ hne]
      simp [Write.onPages, Function.update_of_ne hid.ne]
  | pop =>
    refine h.withPager h.noFaults rfl h.count_le ?_ (Nat.le_refl _) ?_
    · exact h.count_le_size.trans (by simp [Write.onSize])
    · intro id c hne hc
      simp only [wrote_pages, onPages_header_of_ne _ _ _ hne]
      rfl
  | free id =>
    -- The page leaves the cache, so it does not matter that its file contents change.
    have hdrop := h.dropFrame id
    have hpager := hdrop.withPager
      (p := { s.pager.wrote (.page id (Pager.linkPage s.pager.freeListHead)) with
          freeListHead := id }.wrote (.header 27 (be 4 id)))
      h.noFaults rfl h.count_le ?_ (Nat.le_refl _) ?_
    · exact hpager
    · exact h.count_le_size.trans (by simp [Write.onSize])
    · intro id' c hne hc
      have hid : id' ≠ id := by
        rintro rfl
        simp at hc
      simp only [wrote_pages, onPages_header_of_ne _ _ _ hne]
      simp [Write.onPages, Function.update_of_ne hid]
  | append type txnID => exact h.logged _
  | setRoot id =>
    refine h.withPager h.noFaults rfl h.count_le ?_ (Nat.le_refl _) ?_
    · exact h.count_le_size.trans (by simp [Write.onSize])
    · intro id' c hne hc
      exact onPages_header_of_ne _ _ _ hne
  | setTxn txnID =>
    exact ⟨h.noFaults, h.capacity_lt, h.count_le, h.count_le_size, h.cached_lt, h.snapshot_eq,
      h.before_eq⟩

theorem Ok.steps (h : Ok s) {ms : List Step} (hms : CanAll ms s) : Ok (Cache.steps ms s) :=
  steps_invariant (fun _ _ hs hcan => hs.apply hcan) h hms

/-! ### What clients see -/

/-- The page a step gives new contents, as clients see them, and these
contents. All other steps only move contents between memory and file. -/
def written (s : Cache) : Step → Option (Nat × PageData)
  | .set id data => some (id, data)
  | .rollback id => (s.frame id).bind fun c => c.dirt.map fun bt => (id, bt.1)
  | .grow => some (s.pager.pageCount, PageData.zero)
  | .free id => some (id, Pager.linkPage s.pager.freeListHead)
  | _ => none

/-- A page that is cached and not dirty holds what the file holds. -/
def CleanAt (s : Cache) (id : Nat) : Prop :=
  ∀ c, s.frame id = some c → c.dirt = none → c.data = s.pager.disk.pages id

theorem content_of_frame (h : s.frame id = some c) : s.content id = c.data := by
  simp [content, h]

theorem content_of_none (h : s.frame id = none) : s.content id = s.pager.disk.pages id := by
  simp [content, h]

theorem content_withFrame (s : Cache) (id : Nat) (c : Option Cached) (id' : Nat) :
    (s.withFrame id c).content id' =
      if id' = id then (match c with | some c => c.data | none => s.pager.disk.pages id)
      else s.content id' := by
  by_cases h : id' = id
  · subst h
    simp [content]
  · simp [content, withFrame_frame, h]

theorem content_congr {s' : Cache} (hframe : s'.frame id = s.frame id)
    (hpages : s'.pager.disk.pages id = s.pager.disk.pages id) : s'.content id = s.content id := by
  simp only [content, hframe, hpages]

theorem content_writeBack (s : Cache) {id' : Nat} (c : Cached) (h : id' ≠ id) :
    (s.writeBack id c).content id' = s.content id' := by
  apply content_congr
  · rw [writeBack_frame]
  · rw [writeBack_pages]
    split
    · rw [Function.update_of_ne h]
    · rfl

/-- The effect of a step on the contents of the pages, the header page
apart. An evicted page must not carry changes the pool does not know of. -/
theorem content_apply (h : Ok s) {m : Step} (hcan : s.Can m) (hid : id ≠ 0)
    (hclean : m = .evict id → s.CleanAt id) :
    (s.apply m).content id =
      match s.written m with
      | some (i, data) => if id = i then data else s.content id
      | none => s.content id := by
  cases m with
  | tick => rfl
  | pin i =>
    obtain ⟨c, hc⟩ := hcan
    simp only [Cache.apply, hc, written, content_withFrame]
    split
    · rename_i heq
      rw [heq, content_of_frame hc]
    · rfl
  | load i =>
    obtain ⟨hnone, -⟩ := hcan
    simp only [Cache.apply, written, content_withFrame]
    split
    · rename_i heq
      rw [heq, content_of_none hnone]
    · rfl
  | evict i =>
    obtain ⟨c, hc, -⟩ := hcan
    simp only [Cache.apply, hc, written, content_withFrame]
    split
    · rename_i heq
      rw [heq, content_of_frame hc, writeBack_pages]
      split
      · simp
      · rename_i hdirt
        exact (heq ▸ hclean (by rw [heq]) c (by rw [heq]; exact hc) (by simpa using hdirt)).symm
    · rename_i hne
      exact s.content_writeBack c hne
  | unpin i dirty =>
    obtain ⟨c, hc⟩ := hcan
    simp only [Cache.apply, hc, written, content_withFrame]
    split
    · rename_i heq
      rw [heq, content_of_frame hc]
      rfl
    · rfl
  | set i data =>
    obtain ⟨c, hc⟩ := hcan
    simp only [Cache.apply, hc, written, content_withFrame]
  | flush i =>
    obtain ⟨c, hc, -⟩ := hcan
    simp only [Cache.apply, hc, written, content_withFrame]
    split
    · rename_i heq
      rw [heq, content_of_frame hc]
    · rename_i hne
      exact s.content_writeBack c hne
  | rollback i =>
    obtain ⟨c, hc, hdirt⟩ := hcan
    obtain ⟨⟨b, t⟩, hbt⟩ := Option.isSome_iff_exists.mp hdirt
    simp only [Cache.apply, hc, hbt, written, content_withFrame, Option.bind_some,
      Option.map_some]
  | grow =>
    simp only [Cache.apply, written]
    split
    · rename_i heq
      have hnone : s.frame s.pager.pageCount = none := by
        cases hc : s.frame s.pager.pageCount with
        | none => rfl
        | some c => exact absurd (h.cached_lt hc) (Nat.lt_irrefl _)
      rw [content_of_none (heq ▸ hnone)]
      simp only [wrote_pages, onPages_header_of_ne _ _ _ hid]
      simp [Write.onPages, heq]
    · rename_i hne
      refine content_congr rfl ?_
      simp only [wrote_pages, onPages_header_of_ne _ _ _ hid]
      simp [Write.onPages, Function.update_of_ne hne]
  | pop =>
    simp only [Cache.apply, written]
    refine content_congr rfl ?_
    simp only [wrote_pages, onPages_header_of_ne _ _ _ hid]
    rfl
  | free i =>
    simp only [Cache.apply, written, content_withFrame]
    split
    · rename_i heq
      rw [heq] at hid
      simp only [wrote_pages, onPages_header_of_ne _ _ _ hid]
      simp [Write.onPages]
    · rename_i hne
      refine content_congr rfl ?_
      simp only [wrote_pages, onPages_header_of_ne _ _ _ hid]
      simp [Write.onPages, Function.update_of_ne hne]
  | append type txnID => exact content_congr (by simp [Cache.apply]) (by simp [Cache.apply])
  | setRoot i => exact content_congr rfl (onPages_header_of_ne _ _ _ hid)
  | setTxn txnID => rfl

end Cache

end MySQLight.Storage
