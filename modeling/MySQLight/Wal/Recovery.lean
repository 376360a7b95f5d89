import MySQLight.Storage.Pager
import Mathlib.Data.List.AList

/-!
The write-ahead log (`wal/wal.go`) at the level of whole records, and
crash recovery (`wal/recovery.go`).

Recovery makes two passes. The first goes forward: it writes the
after-image of every update record to the database file and collects the
transactions that began and did not end. The second goes backward and
writes the before-images of the updates of exactly those transactions.

The last section says in two pure functions, `redo` and `undo`, what the
passes leave in the file when no write fails.
-/

namespace MySQLight.Wal

open MySQLight.Data MySQLight.Effect MySQLight.Storage Fallible

/-- An open log. -/
structure WAL where
  nextLSN : Nat
deriving DecidableEq

/-- `Open`, after the records of the file have been read: the next number
follows that of the last record. -/
def WAL.«open» (records : List Record) : WAL :=
  match records.getLast? with
  | none => ⟨0⟩
  | some r => ⟨(r.lsn + 1) % 2 ^ 64⟩

/-- `WriteRecord`: the number is used up even when the append fails. -/
def WAL.writeRecord (r : Record) : Fallible (WAL × Disk) Err Nat := do
  let lsn := (← get).1.nextLSN
  modify fun s => (⟨(lsn + 1) % 2 ^ 64⟩, s.2)
  Fallible.zoom Prod.snd (fun s d => (s.1, d)) (Disk.write (.append { r with lsn := lsn }))
  return lsn

/-- The transactions that began and have not ended, a Go map used as a
set. -/
abbrev ActiveTxns : Type := AList fun _ : Nat => Bool

/-- A page writer, with the disk that the log is on. Writing a page leaves
the log alone. -/
structure PageWriter (σ : Type) where
  writePage : Nat → Bytes → Fallible σ Err Unit
  disk : σ → Disk
  setDisk : σ → Disk → σ
  disk_setDisk : ∀ s d, disk (setDisk s d) = d
  log_writePage : ∀ id data s, (disk ((writePage id data).run s).2).log = (disk s).log

/-- The closing loop of `undoPass`: an abort record for every active
transaction. -/
def abortActive (activeTxns : ActiveTxns) : Fallible (WAL × Disk) Err Unit := do
  let ids ← Fallible.zoom Prod.snd (fun s d => (s.1, d)) (Disk.enumerate activeTxns.keys)
  forEach
    (fun id => do
      let _ ← WAL.writeRecord { lsn := 0, txnID := id, type := .recordAbort })
    ids

namespace PageWriter

variable {σ : Type} (writer : PageWriter σ)

/-- Run a call on the files of the log. -/
def onDisk {α : Type} (x : Fallible Disk Err α) : Fallible σ Err α :=
  Fallible.zoom writer.disk writer.setDisk x

def analysisPass : List Record → ActiveTxns → Fallible σ Err ActiveTxns
  | [], output => pure output
  | record :: records, output =>
    match record.type with
    | .recordAbort => analysisPass records (output.erase record.txnID)
    | .recordBegin => analysisPass records (output.insert record.txnID true)
    | .recordCommit => analysisPass records (output.erase record.txnID)
    | .recordUpdate => do
        writer.writePage record.pageID record.afterImage
        analysisPass records output

/-- One round of the loop of `undoPass`. -/
def undoRecord (activeTxns : ActiveTxns) (record : Record) : Fallible σ Err Unit := do
  if record.type = .recordUpdate then
    if (activeTxns.lookup record.txnID).isSome then
      writer.writePage record.pageID record.beforeImage

def undoPass (records : List Record) (activeTxns : ActiveTxns) (wal : WAL) :
    Fallible σ Err Unit := do
  forEach (writer.undoRecord activeTxns) records.reverse
  Fallible.zoom (fun s => (wal, writer.disk s)) (fun s w => writer.setDisk s w.2)
    (abortActive activeTxns)

/-- `Recover`. The result of the undo pass is dropped, as in the source. -/
def recover : Fallible σ Err Unit := do
  let wal := WAL.open (← writer.onDisk Disk.readLog)
  let records ← writer.onDisk Disk.readLog
  let active ← writer.analysisPass records ∅
  tryCatch (writer.undoPass records active wal) fun _ => pure ()
  writer.onDisk (Disk.write .truncate)
  writer.onDisk Disk.sync

/-- Write pages, up to the first error. -/
def writePages (ws : List (Nat × Bytes)) : Fallible σ Err Unit :=
  forEach (fun w => writer.writePage w.1 w.2) ws

end PageWriter

theorem log_writePage (id : Nat) (data : Bytes) (p : Pager) :
    ((Pager.writePage id data).run p).2.disk.log = p.disk.log := by
  have hwrite (data : PageData) : ((Disk.write (.page id data)).run p.disk).2.log = p.disk.log := by
    cases hfault : p.disk.faults p.disk.clock <;> simp [Disk.write, run_bind, hfault,
      Write.onLog]
  by_cases hcount : p.pageCount ≤ id
  · simp [Pager.writePage, run_bind, hcount]
  · by_cases hlength : data.length = PageSize
    · by_cases hcapacity : p.disk.capacity ≤ id
      · simp [Pager.writePage, run_bind, hcount, hlength, Pager.onDisk, Disk.writeAt,
          hcapacity]
      · simp [Pager.writePage, run_bind, hcount, hlength, Pager.onDisk, Disk.writeAt,
          hcapacity, hwrite]
    · simp [Pager.writePage, run_bind, hcount, hlength]

/-- The pager as `Open` hands it to `Recover`. -/
def pagerWriter : PageWriter Pager where
  writePage := Pager.writePage
  disk := Pager.disk
  setDisk p d := { p with disk := d }
  disk_setDisk _ _ := rfl
  log_writePage := log_writePage

theorem pagerWriter_onDisk {α : Type} : pagerWriter.onDisk (α := α) = Pager.onDisk := rfl

/-- Recovery of the database file. -/
def recover : Fallible Pager Err Unit := pagerWriter.recover

/-! ### The writes of the two passes -/

/-- The after-images, in the order of the log. -/
def redoWrites (records : List Record) : List (Nat × Bytes) :=
  (records.filter fun r => r.type = .recordUpdate).map fun r => (r.pageID, r.afterImage)

/-- The before-images of the transactions in a set, in the order of the
records. -/
def undoWrites (active : ActiveTxns) (records : List Record) : List (Nat × Bytes) :=
  (records.filter fun r => r.type = .recordUpdate ∧ (active.lookup r.txnID).isSome).map
    fun r => (r.pageID, r.beforeImage)

/-- What the analysis pass notes at one record. -/
def noteActive (output : ActiveTxns) (r : Record) : ActiveTxns :=
  match r.type with
  | .recordAbort => output.erase r.txnID
  | .recordBegin => output.insert r.txnID true
  | .recordCommit => output.erase r.txnID
  | .recordUpdate => output

/-- The active transactions as the analysis pass collects them. -/
def collectActive (records : List Record) (output : ActiveTxns) : ActiveTxns :=
  records.foldl noteActive output

namespace PageWriter

variable {σ : Type} (writer : PageWriter σ)

/-- Whatever the writes do, the transactions are collected in the same way. -/
theorem analysisPass_eq (records : List Record) (output : ActiveTxns) :
    writer.analysisPass records output = (do
      writer.writePages (redoWrites records)
      return collectActive records output) := by
  induction records generalizing output with
  | nil => rfl
  | cons r records ih =>
    rw [analysisPass, collectActive, List.foldl_cons, noteActive]
    cases htype : r.type with
    | recordUpdate =>
      have hwrites : redoWrites (r :: records) =
          (r.pageID, r.afterImage) :: redoWrites records := by
        simp [redoWrites, htype]
      dsimp only
      rw [hwrites, writePages, forEach, Fallible.bind_assoc, ih]
      rfl
    | recordAbort | recordBegin | recordCommit =>
      have hwrites : redoWrites (r :: records) = redoWrites records := by
        simp [redoWrites, htype]
      dsimp only
      rw [hwrites, ih]
      rfl

theorem forEach_undoRecord (active : ActiveTxns) (records : List Record) :
    forEach (writer.undoRecord active) records =
      writer.writePages (undoWrites active records) := by
  induction records with
  | nil => rfl
  | cons r records ih =>
    rw [forEach, ih, undoRecord]
    by_cases hloser : r.type = .recordUpdate ∧ (active.lookup r.txnID).isSome
    · have hwrites : undoWrites active (r :: records) =
          (r.pageID, r.beforeImage) :: undoWrites active records := by
        simp [undoWrites, hloser.1, hloser.2]
      rw [hwrites, if_pos hloser.1, if_pos hloser.2]
      rfl
    · have hwrites : undoWrites active (r :: records) = undoWrites active records := by
        rw [undoWrites, List.filter_cons_of_neg (by simpa using hloser), undoWrites]
      rw [hwrites]
      by_cases htype : r.type = .recordUpdate
      · rw [if_pos htype, if_neg fun hactive => hloser ⟨htype, hactive⟩]
        rfl
      · rw [if_neg htype]
        rfl

theorem analysisPass_ok {records : List Record} {output active : ActiveTxns} {s s' : σ}
    (hrun : (writer.analysisPass records output).run s = (.ok active, s')) :
    active = collectActive records output := by
  rw [analysisPass_eq] at hrun
  obtain ⟨_, _, -, hpure⟩ := run_bind_eq_ok.mp hrun
  cases hpure
  rfl

end PageWriter

/-! ### What the passes leave in the file -/

/-- The page image a record holds; an image of another length than a page
is never written. -/
def image (bs : Bytes) : PageData :=
  if h : bs.length = PageSize then ⟨bs, h⟩ else PageData.zero

@[simp] theorem image_bytes (data : PageData) : image data.bytes = data := by
  simp [image, data.length_eq]

theorem bytes_image {bs : Bytes} (h : bs.length = PageSize) : (image bs).bytes = bs := by
  simp [image, h]

/-- The file after writing the after-images of the update records that
`keep` selects, in log order. -/
def redo (keep : Record → Bool) (records : List Record) (pages : Nat → PageData) :
    Nat → PageData :=
  records.foldl
    (fun pages r =>
      if r.type = .recordUpdate ∧ keep r then Function.update pages r.pageID (image r.afterImage)
      else pages)
    pages

/-- The file after writing the before-images of the update records that
`lose` selects, from the last record to the first. -/
def undo (lose : Record → Bool) (records : List Record) (pages : Nat → PageData) :
    Nat → PageData :=
  records.foldr
    (fun r pages =>
      if r.type = .recordUpdate ∧ lose r then Function.update pages r.pageID (image r.beforeImage)
      else pages)
    pages

variable {p : Pager} {records : List Record}

/-- The record can be written back: it is not an update, or its images are
whole pages and its page is in the file. -/
def Writable (p : Pager) (r : Record) : Prop :=
  r.type = .recordUpdate →
    r.pageID < p.pageCount ∧ r.pageID < p.disk.capacity ∧
      r.beforeImage.length = PageSize ∧ r.afterImage.length = PageSize

/-- `q` is `p` after some writes to the files and nothing else. -/
structure SameHeader (p q : Pager) : Prop where
  freeListHead : q.freeListHead = p.freeListHead
  pageCount : q.pageCount = p.pageCount
  catalogRootPageID : q.catalogRootPageID = p.catalogRootPageID
  capacity : q.disk.capacity = p.disk.capacity
  noFaults : q.disk.NoFaults

namespace SameHeader

theorem refl {p : Pager} (hf : p.disk.NoFaults) : SameHeader p p := ⟨rfl, rfl, rfl, rfl, hf⟩

theorem trans {p q r : Pager} (h : SameHeader p q) (h' : SameHeader q r) : SameHeader p r :=
  ⟨h'.1.trans h.1, h'.2.trans h.2, h'.3.trans h.3, h'.4.trans h.4, h'.5⟩

theorem writable {p q : Pager} (h : SameHeader p q) {r : Record} (hr : Writable p r) :
    Writable q r := by
  intro hupdate
  rw [h.pageCount, h.capacity]
  exact hr hupdate

end SameHeader

theorem writePage_image (hf : p.disk.NoFaults) {id : Nat} {bs : Bytes} (hlen : bs.length = PageSize)
    (hcount : id < p.pageCount) (hcap : id < p.disk.capacity) :
    (Pager.writePage id bs).run p = (.ok (), p.wrote (.page id (image bs))) := by
  have hrun := Pager.writePage_run hf id (image bs)
  rw [bytes_image hlen, if_neg (by omega), if_neg (by omega)] at hrun
  exact hrun

/-- The file after these writes. -/
def putPages (ws : List (Nat × Bytes)) (pages : Nat → PageData) : Nat → PageData :=
  ws.foldl (fun pages w => Function.update pages w.1 (image w.2)) pages

theorem putPages_redoWrites (records : List Record) (pages : Nat → PageData) :
    putPages (redoWrites records) pages = redo (fun _ => true) records pages := by
  simp [putPages, redoWrites, redo, List.foldl_map, List.foldl_filter]

theorem putPages_undoWrites (active : ActiveTxns) (records : List Record)
    (pages : Nat → PageData) : putPages (undoWrites active records.reverse) pages =
      undo (fun r => (active.lookup r.txnID).isSome) records pages := by
  simp [putPages, undoWrites, undo, List.foldr_map, List.foldr_filter]

/-- The writes of a pass, when all of them can be made. -/
theorem writePages_run (hf : p.disk.NoFaults) (ws : List (Nat × Bytes))
    (hw : ∀ w ∈ ws, w.1 < p.pageCount ∧ w.1 < p.disk.capacity ∧ w.2.length = PageSize) :
    ∃ q, (pagerWriter.writePages ws).run p = (.ok (), q) ∧ SameHeader p q ∧
      q.disk.pages = putPages ws p.disk.pages ∧ q.disk.log = p.disk.log := by
  induction ws generalizing p with
  | nil => exact ⟨p, rfl, .refl hf, rfl, rfl⟩
  | cons w ws ih =>
    obtain ⟨⟨hcount, hcap, hlen⟩, hrest⟩ := List.forall_mem_cons.mp hw
    obtain ⟨q, hrun, hsame, hpages, hlog⟩ := ih (p := p.wrote (.page w.1 (image w.2))) hf hrest
    have hwrote : SameHeader p (p.wrote (.page w.1 (image w.2))) := ⟨rfl, rfl, rfl, rfl, hf⟩
    refine ⟨q, ?_, hwrote.trans hsame, hpages, hlog⟩
    rw [PageWriter.writePages, forEach]
    exact (run_bind_of_ok (writePage_image hf hlen hcount hcap) _).trans hrun

theorem analysisPass_run (hf : p.disk.NoFaults) (hw : ∀ r ∈ records, Writable p r)
    (output : ActiveTxns) :
    ∃ q, (pagerWriter.analysisPass records output).run p =
        (.ok (collectActive records output), q) ∧
      SameHeader p q ∧ q.disk.pages = redo (fun _ => true) records p.disk.pages ∧
      q.disk.log = p.disk.log := by
  obtain ⟨q, hrun, hsame, hpages, hlog⟩ := writePages_run hf (redoWrites records) (by
    simp only [redoWrites, List.mem_map, List.mem_filter, decide_eq_true_eq]
    rintro _ ⟨r, ⟨hr, htype⟩, rfl⟩
    obtain ⟨hcount, hcap, -, hafter⟩ := hw r hr htype
    exact ⟨hcount, hcap, hafter⟩)
  rw [PageWriter.analysisPass_eq, run_bind_of_ok hrun]
  exact ⟨q, rfl, hsame, hpages.trans (putPages_redoWrites _ _), hlog⟩

theorem undoRecords_run (hf : p.disk.NoFaults) (active : ActiveTxns)
    (hw : ∀ r ∈ records, Writable p r) :
    ∃ q, (forEach (pagerWriter.undoRecord active) records.reverse).run p = (.ok (), q) ∧
      SameHeader p q ∧
      q.disk.pages = undo (fun r => (active.lookup r.txnID).isSome) records p.disk.pages := by
  obtain ⟨q, hrun, hsame, hpages, -⟩ := writePages_run hf
    (undoWrites active records.reverse) (by
      simp only [undoWrites, List.mem_map, List.mem_filter, decide_eq_true_eq, List.mem_reverse]
      rintro _ ⟨r, ⟨hr, htype, -⟩, rfl⟩
      obtain ⟨hcount, hcap, hbefore, -⟩ := hw r hr htype
      exact ⟨hcount, hcap, hbefore⟩)
  rw [PageWriter.forEach_undoRecord]
  exact ⟨q, hrun, hsame, hpages.trans (putPages_undoWrites _ _ _)⟩

theorem writeRecord_run {w : WAL} {d : Disk} (hf : d.NoFaults) (r : Record) :
    (WAL.writeRecord r).run (w, d) =
      (.ok w.nextLSN,
        (⟨(w.nextLSN + 1) % 2 ^ 64⟩, d.tick.record (.append { r with lsn := w.nextLSN }))) := by
  simp [WAL.writeRecord, run_bind, Disk.write_run hf]

/-- The abort records do not touch the database file. -/
theorem abortActive_run {w : WAL} {d : Disk} (hf : d.NoFaults) (active : ActiveTxns) :
    ∃ w' d', (abortActive active).run (w, d) = (.ok (), (w', d')) ∧ d'.pages = d.pages ∧
      d'.capacity = d.capacity ∧ d'.NoFaults := by
  let ids := permute (d.orders d.clock) active.keys
  let inv : List Nat → WAL × Disk → Prop := fun _ s =>
    s.2.pages = d.pages ∧ s.2.capacity = d.capacity ∧ s.2.NoFaults
  have hinit : inv ids (w, d.tick) := ⟨rfl, rfl, hf⟩
  obtain ⟨⟨w', d'⟩, hrun, hinv⟩ := forEach_invariant inv
    (fun id => do
      let _ ← WAL.writeRecord { lsn := 0, txnID := id, type := .recordAbort })
    hinit (by
      rintro id rest ⟨w₁, d₁⟩ ⟨hpages, hcap, hf₁⟩
      refine ⟨_, by simp [run_bind, writeRecord_run hf₁]; rfl, ?_⟩
      exact ⟨by simpa [Write.onPages] using hpages, by simpa using hcap, by simpa using hf₁⟩)
  refine ⟨w', d', ?_, hinv⟩
  simpa [abortActive, run_bind] using hrun

theorem onDisk_readLog_run (hf : p.disk.NoFaults) :
    (Pager.onDisk Disk.readLog).run p = (.ok p.disk.log, p.ticked) := by
  simp [Pager.onDisk, Disk.readLog_run hf, Pager.ticked]

/-- Recovery as a whole: redo everything, undo the active transactions,
empty the log. -/
theorem recover_run (hf : p.disk.NoFaults) (hw : ∀ r ∈ p.disk.log, Writable p r) :
    ∃ q, recover.run p = (.ok (), q) ∧ SameHeader p q ∧ q.disk.log = [] ∧
      q.disk.pages =
        undo (fun r => ((collectActive p.disk.log ∅).lookup r.txnID).isSome) p.disk.log
          (redo (fun _ => true) p.disk.log p.disk.pages) := by
  have hticked : SameHeader p p.ticked.ticked := ⟨rfl, rfl, rfl, rfl, hf⟩
  have hread : (Pager.onDisk Disk.readLog).run p.ticked = (.ok p.disk.log, p.ticked.ticked) :=
    onDisk_readLog_run (p := p.ticked) hf
  obtain ⟨q₁, hrun₁, hsame₁, hpages₁, -⟩ := analysisPass_run (p := p.ticked.ticked) hf
    (fun r hr => hticked.writable (hw r hr)) ∅
  have h₁ := hticked.trans hsame₁
  obtain ⟨q₂, hrun₂, hsame₂, hpages₂⟩ := undoRecords_run h₁.noFaults
    (collectActive p.disk.log ∅) (fun r hr => h₁.writable (hw r hr))
  obtain ⟨w', d', hrun₃, hpages₃, hcap₃, hf₃⟩ := abortActive_run (w := WAL.open p.disk.log)
    hsame₂.noFaults (collectActive p.disk.log ∅)
  have hundo : (pagerWriter.undoPass p.disk.log (collectActive p.disk.log ∅)
      (WAL.open p.disk.log)).run q₁ = (.ok (), { q₂ with disk := d' }) := by
    rw [PageWriter.undoPass, run_bind_of_ok hrun₂]
    simp [pagerWriter, hrun₃]
  have h₃ : SameHeader q₂ { q₂ with disk := d' } := ⟨rfl, rfl, rfl, hcap₃, hf₃⟩
  refine ⟨{ q₂ with disk := (d'.tick.record .truncate).tick }, ?_,
    (h₁.trans hsame₂).trans (h₃.trans ⟨rfl, rfl, rfl, rfl, hf₃⟩), rfl, ?_⟩
  · rw [recover, PageWriter.recover, pagerWriter_onDisk, run_bind_of_ok (onDisk_readLog_run hf),
      run_bind_of_ok hread, run_bind_of_ok hrun₁]
    have hf₄ : (d'.tick.record .truncate).NoFaults := hf₃
    simp [run_bind, run_tryCatch, hundo, pagerWriter_onDisk, Pager.onDisk, Disk.write_run hf₃,
      Disk.sync_run hf₄]
  · have htruncate : (d'.tick.record .truncate).tick.pages = d'.pages := rfl
    rw [htruncate, hpages₃, hpages₂, hpages₁]
    rfl

end MySQLight.Wal
