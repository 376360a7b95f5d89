import MySQLight.Storage.Disk

/-!
The pager (`storage/pager.go`): reads and writes whole pages of the
database file, hands out new pages and takes freed ones back.

Page zero is the header. Its fields are cached in the `Pager` record and
every change is written straight to the file. Freed pages form a list: the
header holds the first, and the first four bytes of each free page hold
the next, zero ending the list.

The second half states what each call does, as one equation per call.
-/

namespace MySQLight.Storage

open MySQLight.Data MySQLight.Effect Fallible

/-- The pager of an open database file. -/
structure Pager where
  disk : Disk
  freeListHead : Nat
  pageCount : Nat
  catalogRootPageID : Nat

namespace Pager

/-- The magic bytes `MYSQLIGHT`. -/
def magicByte : Bytes := [77, 89, 83, 81, 76, 73, 71, 72, 84]

/-- A fresh header page. -/
def createHeader (pageCount cataLogID walLSN freeListHead : Nat) : PageData :=
  PageData.zero
    |>.patch 0 magicByte
    |>.patch 9 (be 2 PageSize)
    |>.patch 11 (be 4 pageCount)
    |>.patch 15 (be 4 cataLogID)
    |>.patch 19 (be 8 walLSN)
    |>.patch 27 (be 4 freeListHead)

/-- Run a call to the operating system on the pager's files. -/
def onDisk {α : Type} (x : Fallible Disk Err α) : Fallible Pager Err α :=
  Fallible.zoom Pager.disk (fun p d => { p with disk := d }) x

/-- `Open`: an empty file gets a fresh header, an existing one has its
header checked and read. -/
def «open» (d : Disk) : Except Err Pager × Disk :=
  if d.size = 0 then
    match (Disk.write (.page 0 (createHeader 1 0 0 0))).run d with
    | (.ok (), d') => (.ok ⟨d', 0, 1, 0⟩, d')
    | (.error e, d') => (.error e, d')
  else
    match (Disk.readAt 0).run d with
    | (.error e, d') => (.error e, d')
    | (.ok buffer, d') =>
      if slice buffer.bytes 0 9 ≠ magicByte then (.error .invalidDatabaseFile, d')
      else
        (.ok
          { disk := d'
            freeListHead := beNat (slice buffer.bytes 27 31)
            pageCount := beNat (slice buffer.bytes 11 15)
            catalogRootPageID := beNat (slice buffer.bytes 15 19) }, d')

def readPage (pageID : Nat) : Fallible Pager Err PageData := do
  if (← get).pageCount ≤ pageID then throw .pageIDTooBig
  onDisk (Disk.readAt pageID)

def writePage (pageID : Nat) (data : Bytes) : Fallible Pager Err Unit := do
  if (← get).pageCount ≤ pageID then throw .pageIDDoesNotExist
  if h : data.length = PageSize then
    onDisk (Disk.writeAt pageID ⟨data, h⟩)
  else
    throw .invalidLengthOfData

def writeFreeListHead : Fallible Pager Err Unit := do
  onDisk (Disk.write (.header 27 (be 4 (← get).freeListHead)))

/-- `AllocatePage`: the first free page if there is one, else a new page
of zeros at the end of the file. -/
def allocatePage : Fallible Pager Err Nat := do
  let p ← get
  if p.freeListHead ≠ 0 then
    let buffer ← readPage p.freeListHead
    modify fun p => { p with freeListHead := beNat (slice buffer.bytes 0 4) }
    writeFreeListHead
    return p.freeListHead
  else
    onDisk (Disk.writeAt p.pageCount PageData.zero)
    let count := (p.pageCount + 1) % 2 ^ 32
    modify fun p => { p with pageCount := count }
    onDisk (Disk.write (.header 11 (be 4 count)))
    return p.pageCount

/-- The contents `FreePage` gives a page: a link to the next free page. -/
def linkPage (next : Nat) : PageData := PageData.zero.patch 0 (be 4 next)

def freePage (pageID : Nat) : Fallible Pager Err Unit := do
  writePage pageID (linkPage (← get).freeListHead).bytes
  modify fun p => { p with freeListHead := pageID }
  writeFreeListHead

def setCatalogRootPageID (id : Nat) : Fallible Pager Err Unit := do
  onDisk (Disk.write (.header 15 (be 4 id)))
  modify fun p => { p with catalogRootPageID := id }

/-- The link a page holds when it is on the free list. -/
def link (data : PageData) : Nat := beNat (slice data.bytes 0 4)

theorem link_linkPage {next : Nat} (h : next < 2 ^ 32) : link (linkPage next) = next := by
  have hslice : slice (copyAt PageData.zero.bytes 0 (be 4 next)) 0 (0 + (be 4 next).length) =
      be 4 next := by
    apply slice_copyAt_self
    rw [length_be, PageData.zero.length_eq]
    decide
  rw [length_be] at hslice
  rw [link, linkPage, PageData.patch, hslice]
  exact beNat_be_of_lt h

/-- The pager after a completed write. -/
def wrote (p : Pager) (w : Write) : Pager := { p with disk := p.disk.tick.record w }

/-- The pager after a read or a map enumeration. -/
def ticked (p : Pager) : Pager := { p with disk := p.disk.tick }

variable {p : Pager}

/-! ### The calls, one equation each

A call to the operating system that fails leaves the files as they are. -/

theorem onDisk_write_run (p : Pager) (w : Write) :
    (onDisk (Disk.write w)).run p =
      if p.disk.faults p.disk.clock then (.error .io, p.ticked) else (.ok (), p.wrote w) := by
  by_cases hfault : p.disk.faults p.disk.clock = true <;>
    simp [onDisk, Disk.write, run_bind, hfault, ticked, wrote]

theorem onDisk_writeAt_run (p : Pager) (id : Nat) (data : PageData) :
    (onDisk (Disk.writeAt id data)).run p =
      if p.disk.capacity ≤ id then (.error .io, p)
      else if p.disk.faults p.disk.clock then (.error .io, p.ticked)
      else (.ok (), p.wrote (.page id data)) := by
  by_cases hcap : p.disk.capacity ≤ id
  · simp [onDisk, Disk.writeAt, run_bind, hcap]
  · simpa [onDisk, Disk.writeAt, run_bind, hcap] using onDisk_write_run p (.page id data)

theorem readPage_run_eq (p : Pager) (id : Nat) :
    (readPage id).run p =
      if p.pageCount ≤ id then (.error .pageIDTooBig, p)
      else if p.disk.faults p.disk.clock ∨ p.disk.size ≤ id then (.error .io, p.ticked)
      else (.ok (p.disk.pages id), p.ticked) := by
  by_cases hcount : p.pageCount ≤ id
  · simp [readPage, run_bind, hcount]
  · by_cases hfault : p.disk.faults p.disk.clock = true ∨ p.disk.size ≤ id <;>
      simp [readPage, run_bind, onDisk, Disk.readAt, hcount, hfault, ticked]

theorem writePage_run_eq (p : Pager) (id : Nat) (data : Bytes) :
    (writePage id data).run p =
      if p.pageCount ≤ id then (.error .pageIDDoesNotExist, p)
      else if h : data.length = PageSize then (onDisk (Disk.writeAt id ⟨data, h⟩)).run p
      else (.error .invalidLengthOfData, p) := by
  by_cases hcount : p.pageCount ≤ id
  · simp [writePage, run_bind, hcount]
  · by_cases hlen : data.length = PageSize
    · simp [writePage, run_bind, hcount, hlen]
    · simp [writePage, run_bind, hcount, hlen]

/-- Whether the call after a read fails. -/
theorem faults_ticked (p : Pager) :
    p.ticked.disk.faults p.ticked.disk.clock = p.disk.faults (p.disk.clock + 1) := rfl

/-- Allocation from the free list. The head is changed in memory before it
is written to the header. -/
theorem allocatePage_run_pop (hfree : p.freeListHead ≠ 0) (hcount : p.freeListHead < p.pageCount)
    (hsize : p.freeListHead < p.disk.size) :
    allocatePage.run p =
      let q := { p.ticked with freeListHead := link (p.disk.pages p.freeListHead) }
      if p.disk.faults p.disk.clock then (.error .io, p.ticked)
      else if p.disk.faults (p.disk.clock + 1) then (.error .io, q.ticked)
      else (.ok p.freeListHead, q.wrote (.header 27 (be 4 q.freeListHead))) := by
  by_cases hfault : p.disk.faults p.disk.clock = true
  · simp [allocatePage, run_bind, hfree, readPage_run_eq, hcount.not_ge, hfault]
  · by_cases hheader : p.disk.faults (p.disk.clock + 1) = true <;>
      simp [allocatePage, run_bind, hfree, readPage_run_eq, hcount.not_ge, hsize.not_ge, hfault,
        writeFreeListHead, onDisk_write_run, faults_ticked, hheader, link]

theorem faults_wrote (p : Pager) (w : Write) :
    (p.wrote w).disk.faults (p.wrote w).disk.clock = p.disk.faults (p.disk.clock + 1) := rfl

/-- Allocation at the end of the file. The page count is changed in memory
before it is written to the header. -/
theorem allocatePage_run_grow (hfree : p.freeListHead = 0) :
    allocatePage.run p =
      let q := { p.wrote (.page p.pageCount PageData.zero) with
        pageCount := (p.pageCount + 1) % 2 ^ 32 }
      if p.disk.capacity ≤ p.pageCount then (.error .io, p)
      else if p.disk.faults p.disk.clock then (.error .io, p.ticked)
      else if p.disk.faults (p.disk.clock + 1) then (.error .io, q.ticked)
      else (.ok p.pageCount, q.wrote (.header 11 (be 4 q.pageCount))) := by
  by_cases hcap : p.disk.capacity ≤ p.pageCount
  · simp [allocatePage, run_bind, hfree, onDisk_writeAt_run, hcap]
  · by_cases hfault : p.disk.faults p.disk.clock = true
    · simp [allocatePage, run_bind, hfree, onDisk_writeAt_run, hcap, hfault]
    · by_cases hheader : p.disk.faults (p.disk.clock + 1) = true <;>
        simp [allocatePage, run_bind, hfree, onDisk_writeAt_run, hcap, hfault, onDisk_write_run,
          faults_wrote, hheader]

theorem freePage_run_eq (p : Pager) (id : Nat) :
    (freePage id).run p =
      let q := { p.wrote (.page id (linkPage p.freeListHead)) with freeListHead := id }
      if p.pageCount ≤ id then (.error .pageIDDoesNotExist, p)
      else if p.disk.capacity ≤ id then (.error .io, p)
      else if p.disk.faults p.disk.clock then (.error .io, p.ticked)
      else if p.disk.faults (p.disk.clock + 1) then (.error .io, q.ticked)
      else (.ok (), q.wrote (.header 27 (be 4 id))) := by
  by_cases hcount : p.pageCount ≤ id
  · simp [freePage, run_bind, writePage_run_eq, hcount]
  · have hlen := (linkPage p.freeListHead).length_eq
    by_cases hcap : p.disk.capacity ≤ id
    · simp [freePage, run_bind, writePage_run_eq, hcount, hlen, onDisk_writeAt_run, hcap]
    · by_cases hfault : p.disk.faults p.disk.clock = true
      · simp [freePage, run_bind, writePage_run_eq, hcount, hlen, onDisk_writeAt_run, hcap, hfault]
      · by_cases hheader : p.disk.faults (p.disk.clock + 1) = true <;>
          simp [freePage, run_bind, writePage_run_eq, hcount, hlen, onDisk_writeAt_run, hcap,
            hfault, writeFreeListHead, onDisk_write_run, faults_wrote, hheader]

/-! ### The calls when the operating system does not fail -/

theorem readPage_run (hf : p.disk.NoFaults) (id : Nat) :
    (readPage id).run p =
      if p.pageCount ≤ id then (.error .pageIDTooBig, p)
      else if p.disk.size ≤ id then (.error .io, p.ticked)
      else (.ok (p.disk.pages id), p.ticked) := by
  simp [readPage_run_eq, hf _]

theorem writePage_run (hf : p.disk.NoFaults) (id : Nat) (data : PageData) :
    (writePage id data.bytes).run p =
      if p.pageCount ≤ id then (.error .pageIDDoesNotExist, p)
      else if p.disk.capacity ≤ id then (.error .io, p)
      else (.ok (), p.wrote (.page id data)) := by
  simp [writePage_run_eq, data.length_eq, onDisk_writeAt_run, hf _]

/-- Allocation from the free list. -/
theorem allocatePage_run_of_free (hf : p.disk.NoFaults) (hfree : p.freeListHead ≠ 0) :
    allocatePage.run p =
      if p.pageCount ≤ p.freeListHead then (.error .pageIDTooBig, p)
      else if p.disk.size ≤ p.freeListHead then (.error .io, p.ticked)
      else
        let next := link (p.disk.pages p.freeListHead)
        (.ok p.freeListHead,
          { p.ticked with freeListHead := next }.wrote (.header 27 (be 4 next))) := by
  by_cases hcount : p.pageCount ≤ p.freeListHead
  · simp [allocatePage, run_bind, hfree, readPage_run hf, hcount]
  · by_cases hsize : p.disk.size ≤ p.freeListHead
    · simp [allocatePage, run_bind, hfree, readPage_run hf, hcount, hsize]
    · rw [allocatePage_run_pop hfree (not_le.mp hcount) (not_le.mp hsize)]
      simp [hcount, hsize, hf _]

/-- Allocation at the end of the file. -/
theorem allocatePage_run_of_grow (hf : p.disk.NoFaults) (hfree : p.freeListHead = 0) :
    allocatePage.run p =
      if p.disk.capacity ≤ p.pageCount then (.error .io, p)
      else
        let count := (p.pageCount + 1) % 2 ^ 32
        (.ok p.pageCount,
          { p.wrote (.page p.pageCount PageData.zero) with pageCount := count }.wrote
            (.header 11 (be 4 count))) := by
  simp [allocatePage_run_grow hfree, hf _]

theorem freePage_run (hf : p.disk.NoFaults) (id : Nat) :
    (freePage id).run p =
      if p.pageCount ≤ id then (.error .pageIDDoesNotExist, p)
      else if p.disk.capacity ≤ id then (.error .io, p)
      else
        (.ok (),
          { p.wrote (.page id (linkPage p.freeListHead)) with freeListHead := id }.wrote
            (.header 27 (be 4 id))) := by
  simp [freePage_run_eq, hf _]

end Pager

end MySQLight.Storage
