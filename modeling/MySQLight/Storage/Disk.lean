import MySQLight.Data.Bytes
import MySQLight.Data.Permute
import MySQLight.Effect.Fallible
import Mathlib.Logic.Function.Basic

/-!
The durable state below the storage engine: the database file, the log
file, and the environment that decides which calls to the operating
system fail and in which order a Go map is enumerated.

The two files are kept as a journal, the list of all completed writes with
the newest first, over the contents the files had when the system was
started. A crash loses everything except a journal: the crash points of a
run are exactly the earlier journals of its last state, those between two
writes of one call included (`Disk.before`).

The database file is a sequence of pages. The pager writes whole pages at
page boundaries and three header fields inside page zero, so a write is
one of these two or an append to (or truncation of) the log. A write the
operating system refuses has no effect. The device is finite: a write
past its `capacity` is refused, and a capacity beyond the page numbers
there are would make no difference. Page numbers (`uint32` in the source) and
transaction numbers (`uint64`, zero for autocommit) are natural numbers,
with the wrap-around written where the source computes a new one.
-/

namespace MySQLight.Storage

open MySQLight.Data

/-- Size of a page in bytes. -/
def PageSize : Nat := 4096

/-- The contents of a page: always exactly `PageSize` bytes. -/
structure PageData where
  bytes : Bytes
  length_eq : bytes.length = PageSize
deriving DecidableEq

namespace PageData

/-- The page `make([]byte, PageSize)` gives. -/
def zero : PageData := ⟨List.replicate PageSize 0, by simp⟩

/-- Overwrite part of a page. -/
def patch (p : PageData) (off : Nat) (src : Bytes) : PageData :=
  ⟨copyAt p.bytes off src, by rw [length_copyAt, p.length_eq]⟩

variable {p : PageData} {off a b : Nat} {src : Bytes}

theorem slice_patch_of_le (hb : b ≤ off) (hoff : off ≤ PageSize) :
    slice (p.patch off src).bytes a b = slice p.bytes a b :=
  slice_copyAt_of_le hb (p.length_eq ▸ hoff)

theorem slice_patch_of_ge (ha : off + src.length ≤ a) (h : off + src.length ≤ PageSize) :
    slice (p.patch off src).bytes a b = slice p.bytes a b :=
  slice_copyAt_of_ge ha (p.length_eq ▸ h)

theorem slice_patch_self (hb : b = off + src.length) (h : b ≤ PageSize) :
    slice (p.patch off src).bytes off b = src := by
  subst hb
  exact slice_copyAt_self (p.length_eq ▸ h)

theorem slice_patch_be_of_ge {k x : Nat} (ha : off + k ≤ a) (h : off + k ≤ PageSize) :
    slice (p.patch off (be k x)).bytes a b = slice p.bytes a b :=
  slice_patch_of_ge (by rwa [length_be]) (by rwa [length_be])

theorem slice_patch_be_self {k x : Nat} (hb : b = off + k) (h : b ≤ PageSize) :
    slice (p.patch off (be k x)).bytes off b = be k x :=
  slice_patch_self (by rwa [length_be]) h

end PageData

/-- The errors of the storage engine. `panic` is a Go run-time panic and
`io` any error the operating system returns. -/
inductive Err
  | invalidDatabaseFile
  | pageIDTooBig
  | pageIDDoesNotExist
  | invalidLengthOfData
  | allPagesArePinned
  | pageNotFoundToUnpin
  | dataIsNotANode
  | duplicateKey
  | entryTooLarge
  | notFound
  | io
  | panic
deriving DecidableEq, Repr

end MySQLight.Storage

namespace MySQLight.Wal

open MySQLight.Data MySQLight.Storage

/-- The four kinds of log records. -/
inductive RecordType
  | recordBegin
  | recordCommit
  | recordAbort
  | recordUpdate
deriving DecidableEq, Repr

/-- A record of the write-ahead log. The page number and the two images
are only meaningful in an update record. -/
structure Record where
  lsn : Nat
  txnID : Nat
  type : RecordType
  pageID : Nat := 0
  beforeImage : Bytes := []
  afterImage : Bytes := []
deriving DecidableEq

end MySQLight.Wal

namespace MySQLight.Storage

open MySQLight.Data MySQLight.Effect MySQLight.Wal Fallible

/-- A completed write to the files. -/
inductive Write
  | page (id : Nat) (data : PageData)
  | header (off : Nat) (src : Bytes)
  | append (r : Record)
  | truncate
deriving DecidableEq

/-- The effect of a write on the pages of the database file. -/
def Write.onPages : Write → (Nat → PageData) → Nat → PageData
  | page id data, pages => Function.update pages id data
  | header off src, pages => Function.update pages 0 ((pages 0).patch off src)
  | append _, pages => pages
  | truncate, pages => pages

/-- The effect of a write on the records of the log file. -/
def Write.onLog : Write → List Record → List Record
  | append r, log => log ++ [r]
  | truncate, _ => []
  | page _ _, log => log
  | header _ _, log => log

/-- The effect of a write on the length of the database file, in pages. -/
def Write.onSize : Write → Nat → Nat
  | page id _, size => max size (id + 1)
  | header _ _, size => max size 1
  | append _, size => size
  | truncate, size => size

/-- The files and the environment. `faults n` says whether the `n`-th call
to the operating system fails, `orders n` orders the `n`-th enumeration of
a map, and `clock` counts both kinds of events. -/
structure Disk where
  basePages : Nat → PageData
  baseSize : Nat
  baseLog : List Record
  journal : List Write
  capacity : Nat
  capacity_le : capacity ≤ 2 ^ 32
  faults : Nat → Bool
  orders : Nat → Nat
  clock : Nat

namespace Disk

theorem two_le : 2 ≤ 2 ^ 32 := by decide

theorem four_le : 4 ≤ 2 ^ 32 := by decide

/-- The pages of the database file. -/
def pages (d : Disk) : Nat → PageData := d.journal.foldr Write.onPages d.basePages

/-- The length of the database file in pages. -/
def size (d : Disk) : Nat := d.journal.foldr Write.onSize d.baseSize

/-- The records of the log file, the oldest first. -/
def log (d : Disk) : List Record := d.journal.foldr Write.onLog d.baseLog

/-- The files as they were when `n` writes fewer had been made. -/
def before (d : Disk) (n : Nat) : Disk := { d with journal := d.journal.drop n }

/-- No call to the operating system fails. -/
def NoFaults (d : Disk) : Prop := ∀ n, d.faults n = false

/-- One more event has happened. -/
def tick (d : Disk) : Disk := { d with clock := d.clock + 1 }

/-- Record a completed write. -/
def record (d : Disk) (w : Write) : Disk := { d with journal := w :: d.journal }

/-- Ask the operating system for a write. -/
def write (w : Write) : Fallible Disk Err Unit := do
  let d ← get
  set d.tick
  if d.faults d.clock then throw .io
  modify (·.record w)

/-- Write a whole page at its offset, growing the file where needed. -/
def writeAt (id : Nat) (data : PageData) : Fallible Disk Err Unit := do
  if (← get).capacity ≤ id then throw .io
  write (.page id data)

/-- Read a whole page; reading past the end of the file is an error. -/
def readAt (id : Nat) : Fallible Disk Err PageData := do
  let d ← get
  set d.tick
  if d.faults d.clock || decide (d.size ≤ id) then throw .io
  return d.pages id

/-- Read all records of the log. -/
def readLog : Fallible Disk Err (List Record) := do
  let d ← get
  set d.tick
  if d.faults d.clock then throw .io
  return d.log

/-- Wait until the operating system has flushed its buffers. -/
def sync : Fallible Disk Err Unit := do
  let d ← get
  set d.tick
  if d.faults d.clock then throw .io

/-- The order of the next enumeration of a map with the given keys. -/
def enumerate {ε : Type} (keys : List Nat) : Fallible Disk ε (List Nat) := do
  let d ← get
  set d.tick
  return permute (d.orders d.clock) keys

@[simp] theorem pages_tick (d : Disk) : d.tick.pages = d.pages := rfl

@[simp] theorem size_tick (d : Disk) : d.tick.size = d.size := rfl

@[simp] theorem log_tick (d : Disk) : d.tick.log = d.log := rfl

@[simp] theorem journal_tick (d : Disk) : d.tick.journal = d.journal := rfl

@[simp] theorem capacity_tick (d : Disk) : d.tick.capacity = d.capacity := rfl

@[simp] theorem noFaults_tick (d : Disk) : d.tick.NoFaults ↔ d.NoFaults := Iff.rfl

@[simp] theorem pages_record (d : Disk) (w : Write) :
    (d.record w).pages = w.onPages d.pages := rfl

@[simp] theorem size_record (d : Disk) (w : Write) : (d.record w).size = w.onSize d.size := rfl

@[simp] theorem log_record (d : Disk) (w : Write) : (d.record w).log = w.onLog d.log := rfl

@[simp] theorem journal_record (d : Disk) (w : Write) :
    (d.record w).journal = w :: d.journal := rfl

@[simp] theorem capacity_record (d : Disk) (w : Write) : (d.record w).capacity = d.capacity := rfl

@[simp] theorem noFaults_record (d : Disk) (w : Write) :
    (d.record w).NoFaults ↔ d.NoFaults := Iff.rfl

/-! ### The calls when nothing fails -/

theorem write_run {d : Disk} (h : d.NoFaults) (w : Write) :
    (write w).run d = (.ok (), d.tick.record w) := by
  simp [write, run_bind, h d.clock]

theorem readLog_run {d : Disk} (h : d.NoFaults) : readLog.run d = (.ok d.log, d.tick) := by
  simp [readLog, run_bind, h d.clock]

theorem sync_run {d : Disk} (h : d.NoFaults) : sync.run d = (.ok (), d.tick) := by
  simp [sync, run_bind, h d.clock]

@[simp] theorem enumerate_run {ε : Type} (d : Disk) (keys : List Nat) :
    (enumerate keys : Fallible Disk ε _).run d =
      (.ok (permute (d.orders d.clock) keys), d.tick) := rfl

end Disk

end MySQLight.Storage
