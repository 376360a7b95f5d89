import MySQLight.Wal.Recovery
import MySQLight.Effect.Prog

/-!
The buffer pool (`storage/buffer_pool.go`).

The pool caches pages of the database file in frames. A frame in use is
pinned; when the pool is full, the least recently used frame that is not
pinned makes room, after its log record and its page have been written if
it was modified. The recency order is a linked list, and a second map
leads from a page to its list element, so the pool keeps three structures
over the same set of pages.

For undo the pool remembers, per cached page, the contents last known to
be clean, and from the moment a page first becomes dirty, its before-image
and the transaction that was current then.

Clients change a page in place, through the byte slice of a pinned frame.
`setData` is that assignment. All functions are state transformers whose
state on failure is the one the Go code leaves behind.
-/

namespace MySQLight.Storage

open MySQLight.Data MySQLight.Effect MySQLight.Wal Fallible

/-- A Go map keyed by page numbers. -/
abbrev Table (β : Type) : Type := AList fun _ : Nat => β

/-- A frame. -/
structure Page where
  id : Nat
  data : PageData
  dirty : Bool
  pinCount : Nat

/-- An element of the recency list. The handle is its address: two
elements with the same value are different elements. -/
structure Element where
  handle : Nat
  value : Nat
deriving DecidableEq

/-- The pool. The front of `lruList` is the most recently used page;
`nextHandle` is the address the next list element gets. -/
structure BufferPool where
  pager : Pager
  capacity : Nat
  frames : Table Page
  lruList : List Element
  lruMap : Table Element
  walFile : Option WAL
  currentTxnID : Nat
  cleanSnapshots : Table PageData
  beforeImages : Table PageData
  dirtyTxn : Table Nat
  nextHandle : Nat

namespace BufferPool

/-- `NewBufferPool`. -/
def new (pager : Pager) (capacity : Nat) : BufferPool where
  pager := pager
  capacity := capacity
  frames := ∅
  lruList := []
  lruMap := ∅
  walFile := none
  currentTxnID := 0
  cleanSnapshots := ∅
  beforeImages := ∅
  dirtyTxn := ∅
  nextHandle := 0

def setWAL (bp : BufferPool) (walFile : WAL) : BufferPool := { bp with walFile := some walFile }

def setTxnID (bp : BufferPool) (txnID : Nat) : BufferPool := { bp with currentTxnID := txnID }

/-- Run a call of the pager. -/
def onPager {α : Type} (x : Fallible Pager Err α) : Fallible BufferPool Err α :=
  Fallible.zoom BufferPool.pager (fun bp p => { bp with pager := p }) x

/-- Append a record to the log attached to the pool. -/
def writeRecord (r : Record) : Fallible BufferPool Err Unit := do
  match (← get).walFile with
  | none => throw .panic
  | some w =>
    let _ ← Fallible.zoom (fun bp : BufferPool => (w, bp.pager.disk))
      (fun bp s => { bp with walFile := some s.1, pager := { bp.pager with disk := s.2 } })
      (WAL.writeRecord r)

/-- The record that is appended for a dirty page, before it gets its
number. -/
def updateRecord (pageID txnID : Nat) (beforeImage afterImage : PageData) : Record :=
  { lsn := 0, txnID := txnID, type := .recordUpdate, pageID := pageID,
    beforeImage := beforeImage.bytes, afterImage := afterImage.bytes }

/-- `writeWALUpdate`: nothing without a log or without a before-image, and
a failed append goes unnoticed. -/
def writeWALUpdate (pageID : Nat) (afterImage : PageData) : Fallible BufferPool Err Unit := do
  let bp ← get
  if bp.walFile.isNone then return
  match bp.beforeImages.lookup pageID <|> bp.cleanSnapshots.lookup pageID with
  | none => return
  | some beforeImage =>
    tryCatch
      (writeRecord
        (updateRecord pageID ((bp.dirtyTxn.lookup pageID).getD 0) beforeImage afterImage))
      fun _ => pure ()

/-- The list walk of the eviction: the first unpinned page from the
back. -/
def findUnpinned (frames : Table Page) : List Element → Except Err Element
  | [] => .error .allPagesArePinned
  | element :: rest =>
    match frames.lookup element.value with
    | none => .error .panic
    | some page => if page.pinCount ≠ 0 then findUnpinned frames rest else .ok element

/-- The page to evict; with an empty list the code reads through a nil
element. -/
def victim (bp : BufferPool) : Except Err Element :=
  match bp.lruList.reverse with
  | [] => .error .panic
  | elements => findUnpinned bp.frames elements

/-- Remove everything the pool knows about a page. -/
def forget (bp : BufferPool) (pageID : Nat) (element : Element) : BufferPool :=
  { bp with
    lruList := bp.lruList.erase element
    lruMap := bp.lruMap.erase pageID
    frames := bp.frames.erase pageID
    beforeImages := bp.beforeImages.erase pageID
    dirtyTxn := bp.dirtyTxn.erase pageID
    cleanSnapshots := bp.cleanSnapshots.erase pageID }

/-- The eviction in `FetchPage`. -/
def evict : Fallible BufferPool Err Unit := do
  let bp ← get
  let element ← Fallible.ofExcept bp.victim
  match bp.frames.lookup element.value with
  | none => throw .panic
  | some evicted =>
    if evicted.dirty then
      writeWALUpdate element.value evicted.data
      onPager (Pager.writePage element.value evicted.data.bytes)
    modify fun bp => bp.forget element.value element

/-- The second half of `FetchPage`: a frame for a page just read. -/
def addFrame (bp : BufferPool) (pageID : Nat) (data : PageData) : BufferPool :=
  { bp with
    frames := bp.frames.insert pageID ⟨pageID, data, false, 1⟩
    lruList := ⟨bp.nextHandle, pageID⟩ :: bp.lruList
    lruMap := bp.lruMap.insert pageID ⟨bp.nextHandle, pageID⟩
    cleanSnapshots := bp.cleanSnapshots.insert pageID data
    nextHandle := bp.nextHandle + 1 }

/-- `FetchPage`. The answer is the contents of the frame. -/
def fetchPage (pageID : Nat) : Fallible BufferPool Err PageData := do
  let bp ← get
  match bp.frames.lookup pageID with
  | some page =>
    match bp.lruMap.lookup pageID with
    | none => throw .panic
    | some elem =>
      set { bp with
        lruList := elem :: bp.lruList.erase elem
        frames := bp.frames.insert pageID { page with pinCount := page.pinCount + 1 } }
      return page.data
  | none =>
    if bp.capacity ≤ bp.lruMap.keys.length then evict
    let loadedPage ← onPager (Pager.readPage pageID)
    modify fun bp => bp.addFrame pageID loadedPage
    return loadedPage

/-- The assignment a client makes through the slice of a frame. On a page
that is not cached it changes memory nobody else sees. -/
def setData (bp : BufferPool) (pageID : Nat) (data : PageData) : BufferPool :=
  match bp.frames.lookup pageID with
  | none => bp
  | some page => { bp with frames := bp.frames.insert pageID { page with data := data } }

/-- `UnpinPage`. -/
def unpinPage (pageID : Nat) (dirty : Bool) : Fallible BufferPool Err Unit := do
  let bp ← get
  match bp.frames.lookup pageID with
  | none => throw .pageNotFoundToUnpin
  | some page =>
    let page' := { page with pinCount := page.pinCount - 1 }
    if dirty && !page.dirty then
      let beforeImages :=
        match bp.cleanSnapshots.lookup pageID with
        | some cleanSnapshot => bp.beforeImages.insert pageID cleanSnapshot
        | none => bp.beforeImages
      set { bp with
        beforeImages := beforeImages
        dirtyTxn := bp.dirtyTxn.insert pageID bp.currentTxnID
        frames := bp.frames.insert pageID { page' with dirty := true } }
    else
      set { bp with frames := bp.frames.insert pageID page' }

/-- One round of the loop of `FlushAll`. -/
def flushPage (pageID : Nat) : Fallible BufferPool Err Unit := do
  match (← get).frames.lookup pageID with
  | none => return
  | some page =>
    if page.dirty then
      writeWALUpdate page.id page.data
      onPager (Pager.writePage page.id page.data.bytes)
      modify fun bp =>
        { bp with
          frames := bp.frames.insert pageID { page with dirty := false }
          cleanSnapshots := bp.cleanSnapshots.insert page.id page.data
          beforeImages := bp.beforeImages.erase page.id
          dirtyTxn := bp.dirtyTxn.erase page.id }

/-- An enumeration of a map in the order the environment picks. -/
def enumerate (keys : List Nat) : Fallible BufferPool Err (List Nat) :=
  onPager (Pager.onDisk (Disk.enumerate keys))

/-- `FlushAll`. -/
def flushAll : Fallible BufferPool Err Unit := do
  let ids ← enumerate (← get).frames.keys
  forEach flushPage ids

/-- One round of the loop of `RollbackTxn`. -/
def rollbackPage (txnID pageID : Nat) : Fallible BufferPool Err Unit := do
  let bp ← get
  if bp.dirtyTxn.lookup pageID ≠ some txnID then return
  match bp.beforeImages.lookup pageID with
  | none => return
  | some beforeImage =>
    match bp.frames.lookup pageID with
    | some page =>
      set { bp with
        frames := bp.frames.insert pageID { page with data := beforeImage, dirty := false }
        cleanSnapshots := bp.cleanSnapshots.insert pageID beforeImage }
    | none => onPager (Pager.writePage pageID beforeImage.bytes)
    modify fun bp =>
      { bp with
        beforeImages := bp.beforeImages.erase pageID
        dirtyTxn := bp.dirtyTxn.erase pageID }

/-- `RollbackTxn`. -/
def rollbackTxn (txnID : Nat) : Fallible BufferPool Err Unit := do
  let ids ← enumerate (← get).dirtyTxn.keys
  forEach (rollbackPage txnID) ids

def allocatePage : Fallible BufferPool Err Nat := onPager Pager.allocatePage

/-- `FreePage`. -/
def freePage (pageID : Nat) : Fallible BufferPool Err Unit := do
  let bp ← get
  match bp.lruMap.lookup pageID with
  | some element => set (bp.forget pageID element)
  | none => pure ()
  onPager (Pager.freePage pageID)

/-! ### The operations case by case -/

/-- The two writes of an eviction and of a round of `FlushAll`. -/
def writeBack (id : Nat) (data : PageData) : Fallible BufferPool Err Unit := do
  writeWALUpdate id data
  onPager (Pager.writePage id data.bytes)

/-- The second half of `FetchPage`. -/
def load (id : Nat) : Fallible BufferPool Err PageData := do
  let loadedPage ← onPager (Pager.readPage id)
  modify fun bp => bp.addFrame id loadedPage
  return loadedPage

/-- What a round of `FlushAll` does to the maps. -/
def markClean (bp : BufferPool) (id : Nat) (page : Page) : BufferPool :=
  { bp with
    frames := bp.frames.insert id { page with dirty := false }
    cleanSnapshots := bp.cleanSnapshots.insert id page.data
    beforeImages := bp.beforeImages.erase id
    dirtyTxn := bp.dirtyTxn.erase id }

/-- The page is cached and dirty. -/
def isDirty (bp : BufferPool) (id : Nat) : Bool := (bp.frames.lookup id).any (·.dirty)

theorem onPager_of_run {bp : BufferPool} {α : Type} {x : Fallible Pager Err α} {r : Except Err α}
    {p : Pager} (h : x.run bp.pager = (r, p)) :
    (onPager x).run bp = (r, { bp with pager := p }) := by
  rw [onPager, run_zoom, h]

theorem writeBack_bind_run (id : Nat) (data : PageData) (f : Fallible BufferPool Err Unit)
    (bp : BufferPool) :
    (do
      writeWALUpdate id data
      onPager (Pager.writePage id data.bytes)
      f : Fallible BufferPool Err Unit).run bp = (writeBack id data >>= fun _ => f).run bp := by
  rw [writeBack, Fallible.bind_assoc]

theorem evict_run_of_victim {bp : BufferPool} {element : Element} {page : Page}
    (hvictim : bp.victim = .ok element) (hpage : bp.frames.lookup element.value = some page) :
    page.dirty = false ∧ evict.run bp = (.ok (), bp.forget element.value element) ∨
      page.dirty = true ∧ evict.run bp = (writeBack element.value page.data >>= fun _ =>
        modify fun bp => bp.forget element.value element).run bp := by
  cases hdirty : page.dirty with
  | false => exact .inl ⟨rfl, by simp [evict, run_bind, hvictim, hpage, hdirty]⟩
  | true =>
    refine .inr ⟨rfl, ?_⟩
    rw [← writeBack_bind_run]
    simp [evict, run_bind, hvictim, hpage, hdirty]

theorem evict_cases (bp : BufferPool) :
    (∃ e, evict.run bp = (.error e, bp)) ∨
      ∃ element page, bp.victim = .ok element ∧ bp.frames.lookup element.value = some page ∧
        (page.dirty = false ∧ evict.run bp = (.ok (), bp.forget element.value element) ∨
          page.dirty = true ∧ evict.run bp = (writeBack element.value page.data >>= fun _ =>
            modify fun bp => bp.forget element.value element).run bp) := by
  cases hvictim : bp.victim with
  | error e => exact .inl ⟨e, by simp [evict, run_bind, hvictim]⟩
  | ok element =>
    cases hpage : bp.frames.lookup element.value with
    | none => exact .inl ⟨.panic, by simp [evict, run_bind, hvictim, hpage]⟩
    | some page => exact .inr ⟨element, page, rfl, hpage, evict_run_of_victim hvictim hpage⟩

theorem fetchPage_cases (bp : BufferPool) (id : Nat) :
    ((bp.frames.lookup id).isSome ∧ bp.lruMap.lookup id = none ∧
        (fetchPage id).run bp = (.error .panic, bp)) ∨
      (∃ page elem, bp.frames.lookup id = some page ∧ bp.lruMap.lookup id = some elem ∧
        (fetchPage id).run bp = (.ok page.data, { bp with
          lruList := elem :: bp.lruList.erase elem
          frames := bp.frames.insert id { page with pinCount := page.pinCount + 1 } })) ∨
      bp.frames.lookup id = none ∧
        (bp.capacity ≤ bp.lruMap.keys.length ∧
            (fetchPage id).run bp = (evict >>= fun _ => load id).run bp ∨
          bp.lruMap.keys.length < bp.capacity ∧ (fetchPage id).run bp = (load id).run bp) := by
  cases hpage : bp.frames.lookup id with
  | some page =>
    cases helem : bp.lruMap.lookup id with
    | none => exact .inl ⟨rfl, rfl, by simp [fetchPage, run_bind, hpage, helem]⟩
    | some elem =>
      exact .inr (.inl ⟨page, elem, rfl, rfl,
        by simp [fetchPage, run_bind, hpage, helem]⟩)
  | none =>
    refine .inr (.inr ⟨rfl, ?_⟩)
    by_cases hfull : bp.capacity ≤ bp.lruMap.keys.length
    · refine .inl ⟨hfull, ?_⟩
      simp only [fetchPage, load, run_bind, run_get, hpage, hfull, if_true]
    · refine .inr ⟨not_le.mp hfull, ?_⟩
      simp only [fetchPage, load, run_bind, run_get, hpage, hfull, if_false]

theorem unpinPage_cases (bp : BufferPool) (id : Nat) (dirty : Bool) :
    bp.frames.lookup id = none ∧
        (unpinPage id dirty).run bp = (.error .pageNotFoundToUnpin, bp) ∨
      ∃ page, bp.frames.lookup id = some page ∧
        ((dirty && !page.dirty) = false ∧ (unpinPage id dirty).run bp = (.ok (), { bp with
            frames := bp.frames.insert id { page with pinCount := page.pinCount - 1 } }) ∨
          (dirty && !page.dirty) = true ∧ ∀ snapshot, bp.cleanSnapshots.lookup id = some snapshot →
            (unpinPage id dirty).run bp = (.ok (), { bp with
              beforeImages := bp.beforeImages.insert id snapshot
              dirtyTxn := bp.dirtyTxn.insert id bp.currentTxnID
              frames := bp.frames.insert id
                { page with pinCount := page.pinCount - 1, dirty := true } })) := by
  cases hpage : bp.frames.lookup id with
  | none => exact .inl ⟨rfl, by simp [unpinPage, run_bind, hpage]⟩
  | some page =>
    refine .inr ⟨page, rfl, ?_⟩
    cases hfirst : dirty && !page.dirty with
    | false =>
      refine .inl ⟨rfl, ?_⟩
      simp only [unpinPage, run_bind, run_get, hpage, hfirst]
      rfl
    | true =>
      refine .inr ⟨rfl, fun snapshot hsnapshot => ?_⟩
      simp only [unpinPage, run_bind, run_get, hpage, hfirst, if_true,
        hsnapshot]
      rfl

theorem flushPage_cases (bp : BufferPool) {id : Nat}
    (hid : ∀ page, bp.frames.lookup id = some page → page.id = id) :
    bp.isDirty id = false ∧ (flushPage id).run bp = (.ok (), bp) ∨
      ∃ page, bp.frames.lookup id = some page ∧ page.dirty = true ∧
        (flushPage id).run bp =
          (writeBack id page.data >>= fun _ => modify fun bp => bp.markClean id page).run bp := by
  cases hpage : bp.frames.lookup id with
  | none =>
    exact .inl ⟨by simp [isDirty, hpage], by simp [flushPage, run_bind, hpage]⟩
  | some page =>
    cases hdirty : page.dirty with
    | false =>
      exact .inl ⟨by simp [isDirty, hpage, hdirty],
        by simp [flushPage, run_bind, hpage, hdirty]⟩
    | true =>
      refine .inr ⟨page, rfl, hdirty, ?_⟩
      rw [← writeBack_bind_run]
      simp [flushPage, run_bind, hpage, hdirty, hid page hpage, markClean]

theorem freePage_cases (bp : BufferPool) (id : Nat) :
    bp.lruMap.lookup id = none ∧ (freePage id).run bp = (onPager (Pager.freePage id)).run bp ∨
      ∃ element, bp.lruMap.lookup id = some element ∧
        (freePage id).run bp = (onPager (Pager.freePage id)).run (bp.forget id element) := by
  cases helem : bp.lruMap.lookup id with
  | none =>
    refine .inl ⟨rfl, ?_⟩
    simp only [freePage, run_bind, run_get, helem]
  | some element =>
    refine .inr ⟨element, rfl, ?_⟩
    simp only [freePage, run_bind, run_get, helem]
    rfl

end BufferPool

/-! ### The pool as a handler -/

/-- What a client does to single pages. -/
inductive DataOp
  | fetchPage (pageID : Nat)
  | unpinPage (pageID : Nat) (dirty : Bool)
  | setData (pageID : Nat) (data : PageData)
  | allocatePage
  | freePage (pageID : Nat)

/-- The client side of the pool. -/
def DataI : Interface where
  Op := DataOp
  Resp
    | .fetchPage _ => Except Err PageData
    | .unpinPage _ _ => Except Err Unit
    | .setData _ _ => Unit
    | .allocatePage => Except Err Nat
    | .freePage _ => Except Err Unit

/-- What the layers above the trees do as well: flush, switch and roll
back transactions, write transaction records and the catalog root, and
draw an enumeration order. -/
inductive PoolOp
  | data (o : DataOp)
  | flushAll
  | setTxnID (txnID : Nat)
  | rollbackTxn (txnID : Nat)
  | writeRecord (type : RecordType) (txnID : Nat)
  | setCatalogRootPageID (id : Nat)
  | order

/-- All operations of the pool. -/
def PoolI : Interface where
  Op := PoolOp
  Resp
    | .data o => DataI.Resp o
    | .flushAll => Except Err Unit
    | .setTxnID _ => Unit
    | .rollbackTxn _ => Except Err Unit
    | .writeRecord _ _ => Except Err Unit
    | .setCatalogRootPageID _ => Except Err Unit
    | .order => Nat

namespace BufferPool

/-- The pool answers the operations on pages. -/
def dataHandler : Prog.Handler DataI BufferPool
  | .fetchPage id => (fetchPage id).run
  | .unpinPage id dirty => (unpinPage id dirty).run
  | .setData id data => fun bp => ((), bp.setData id data)
  | .allocatePage => allocatePage.run
  | .freePage id => (freePage id).run

/-- The pool answers all operations. -/
def handler : Prog.Handler PoolI BufferPool
  | .data o => dataHandler o
  | .flushAll => flushAll.run
  | .setTxnID t => fun bp => ((), bp.setTxnID t)
  | .rollbackTxn t => (rollbackTxn t).run
  | .writeRecord type t => (writeRecord { lsn := 0, txnID := t, type := type }).run
  | .setCatalogRootPageID id => (onPager (Pager.setCatalogRootPageID id)).run
  | .order => fun bp =>
    (bp.pager.disk.orders bp.pager.disk.clock, { bp with pager := bp.pager.ticked })

end BufferPool

end MySQLight.Storage
