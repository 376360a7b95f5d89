import MySQLight.Storage.Disk

/-!
The log file byte by byte (`wal/wal.go`).

A record is a header of 21 bytes, for an update two page images, and a
checksum. The file is written and read through one handle with one offset:
`WriteRecord` writes at the offset, `ReadAll` moves it to the start and
reads until the bytes run out or no longer make sense. What a cut record
does to a reader depends on where it is cut, because every part is read by
a call of its own and a short read is an error of its own.

The checksum is an arbitrary function `crc` of the bytes.
-/

namespace MySQLight.Wal

open MySQLight.Data MySQLight.Effect MySQLight.Storage Fallible

/-- What a call on the file reports: `io.EOF`, `io.ErrUnexpectedEOF`, or
an error of the operating system. -/
inductive FileErr
  | eof
  | unexpectedEOF
  | io
deriving DecidableEq, Repr

/-- An open file. `faults n` says whether the `n`-th call fails. -/
structure File where
  bytes : Bytes
  offset : Nat
  faults : Nat → Bool
  clock : Nat

/-- Offsets are `int64`. -/
def maxFileSize : Nat := 2 ^ 63 - 1

namespace File

/-- The part of the file behind the offset. -/
def rest (f : File) : Bytes := f.bytes.drop f.offset

/-- No call fails. -/
def NoFaults (f : File) : Prop := ∀ n, f.faults n = false

/-- Every call may be refused. -/
def call : Fallible File FileErr Unit := do
  let f ← get
  set { f with clock := f.clock + 1 }
  if f.faults f.clock then throw .io

/-- `Seek(offset, 0)`. -/
def seek (offset : Nat) : Fallible File FileErr Unit := do
  call
  modify fun f => { f with offset := offset }

/-- `io.ReadFull` into a buffer of `n` bytes. -/
def readFull (n : Nat) : Fallible File FileErr Bytes := do
  call
  let buffer := (← get).rest.take n
  modify fun f => { f with offset := f.offset + buffer.length }
  if buffer.length = n then return buffer
  else if buffer.isEmpty then throw .eof
  else throw .unexpectedEOF

/-- `Write`: a gap before the offset is filled with zeros. -/
def write (src : Bytes) : Fallible File FileErr Unit := do
  call
  let f ← get
  if maxFileSize < f.offset + src.length then throw .io
  set { f with
    bytes := f.bytes.take f.offset ++ List.replicate (f.offset - f.bytes.length) 0 ++ src ++
      f.bytes.drop (f.offset + src.length)
    offset := f.offset + src.length }

end File

/-- The byte of a record type. -/
def RecordType.code : RecordType → UInt8
  | .recordBegin => 0
  | .recordCommit => 1
  | .recordAbort => 2
  | .recordUpdate => 3

/-- The record type of a byte. -/
def RecordType.decode (b : UInt8) : Option RecordType :=
  if b = 0 then some .recordBegin
  else if b = 1 then some .recordCommit
  else if b = 2 then some .recordAbort
  else if b = 3 then some .recordUpdate
  else none

/-- The log with its open file. -/
structure LogFile where
  file : File
  nextLSN : Nat

namespace LogFile

section Code

variable (crc : Bytes → UInt32)

/-- The fields every record has. -/
def header (r : Record) : Bytes := be 8 r.lsn ++ be 8 r.txnID ++ [r.type.code] ++ be 4 r.pageID

/-- The bytes the checksum is taken over. -/
def body (r : Record) : Bytes :=
  if r.type = .recordUpdate then header r ++ (r.beforeImage ++ r.afterImage) else header r

def encodeRecord (r : Record) : Bytes × UInt32 :=
  (body r ++ be 4 (crc (body r)).toNat, crc (body r))

/-- Run a call on the file. -/
def onFile {α : Type} (x : Fallible File FileErr α) : Fallible LogFile FileErr α :=
  Fallible.zoom LogFile.file (fun w f => { w with file := f }) x

def writeRecord (r : Record) : Fallible LogFile FileErr Nat := do
  let lsn := (← get).nextLSN
  modify fun w => { w with nextLSN := (lsn + 1) % 2 ^ 64 }
  onFile (File.write (encodeRecord crc { r with lsn := lsn }).1)
  return lsn

/-- A part of a record behind its header; a short read ends the log. -/
def readPart (n : Nat) : Fallible LogFile FileErr (Option Bytes) :=
  tryCatch (do return some (← onFile (File.readFull n))) fun e =>
    if e = .io then throw e else pure none

/-- The rest of an update record. -/
def readUpdate (buffer : Bytes) (r : Record) : Fallible LogFile FileErr (Option Record) := do
  let some beforeImage ← readPart PageSize | return none
  let some afterImage ← readPart PageSize | return none
  let some sum ← readPart 4 | return none
  if (crc (buffer ++ (beforeImage ++ afterImage))).toNat ≠ beNat sum then return none
  return some { r with beforeImage := beforeImage, afterImage := afterImage }

/-- The rest of a record without images. -/
def readShort (buffer : Bytes) (r : Record) : Fallible LogFile FileErr (Option Record) := do
  let some sum ← readPart 4 | return none
  if (crc buffer).toNat ≠ beNat sum then return none
  return some r

/-- The fields in a header; nothing if its type byte is none of the
four. -/
def parseHeader (buffer : Bytes) : Option Record := do
  let typed ← RecordType.decode (buffer.getD 16 0)
  return { lsn := beNat (slice buffer 0 8), txnID := beNat (slice buffer 8 16), type := typed,
           pageID := beNat (slice buffer 17 21) }

/-- What follows a header. -/
def readTail (buffer : Bytes) (r : Record) : Fallible LogFile FileErr (Option Record) :=
  if r.type = .recordUpdate then readUpdate crc buffer r else readShort crc buffer r

/-- Every record read moves the next number past its own. -/
def noteLSN (w : LogFile) (r : Record) : LogFile :=
  if w.nextLSN < (r.lsn + 1) % 2 ^ 64 then { w with nextLSN := (r.lsn + 1) % 2 ^ 64 } else w

/-- One round of the loop of `ReadAll`; nothing where the loop ends. -/
def readRecord : Fallible LogFile FileErr (Option Record) := do
  let header ← tryCatch (do return some (← onFile (File.readFull 21))) fun e =>
    if e = .eof then pure none else throw e
  let some buffer := header | return none
  let some r := parseHeader buffer | return none
  let some r ← readTail crc buffer r | return none
  modify (noteLSN · r)
  return some r

/-- The loop of `ReadAll`. Every round but the last reads a header, so the
length of the file bounds their number. -/
def readLoop : Nat → List Record → Fallible LogFile FileErr (List Record)
  | 0, records => pure records
  | fuel + 1, records => do
      match ← readRecord crc with
      | none => return records
      | some r => readLoop fuel (records ++ [r])

/-- `ReadAll`. -/
def readAll : Fallible LogFile FileErr (List Record) := do
  onFile (File.seek 0)
  readLoop crc ((← get).file.bytes.length + 1) []

/-- `Open`, on a file with the given contents. -/
def «open» (f : File) : Except FileErr LogFile × File :=
  match (readAll crc).run ⟨{ f with offset := 0 }, 0⟩ with
  | (.error e, w) => (.error e, w.file)
  | (.ok records, w) =>
    match records.getLast? with
    | none => (.ok w, w.file)
    | some r => (.ok { w with nextLSN := (r.lsn + 1) % 2 ^ 64 }, w.file)

end Code

/-! ### Where a reader stands -/

/-- The handle stands behind `before`, and `rest` is still to come. -/
structure At (before rest : Bytes) (w : LogFile) : Prop where
  bytes : w.file.bytes = before ++ rest
  offset : w.file.offset = before.length
  noFaults : w.file.NoFaults

section Reading

variable {before rest src : Bytes} {w : LogFile} {n : Nat}

/-- The log after a read of `n` bytes. -/
def advance (w : LogFile) (n : Nat) : LogFile :=
  { w with file := { w.file with clock := w.file.clock + 1, offset := w.file.offset + n } }

@[simp] theorem nextLSN_advance (w : LogFile) (n : Nat) : (w.advance n).nextLSN = w.nextLSN := rfl

/-- Reading changes the handle, not the file. -/
structure SameFile (w' w : LogFile) : Prop where
  bytes : w'.file.bytes = w.file.bytes
  faults : w'.file.faults = w.file.faults

theorem At.rest_eq (h : At before rest w) : w.file.rest = rest := by
  rw [File.rest, h.bytes, h.offset, List.drop_left]

theorem At.advance (h : At before (src ++ rest) w) :
    At (before ++ src) rest (w.advance src.length) where
  bytes := by
    change w.file.bytes = _
    rw [h.bytes, List.append_assoc]
  offset := by
    change w.file.offset + src.length = _
    rw [h.offset, List.length_append]
  noFaults := h.noFaults

theorem readFull_run (hf : w.file.faults w.file.clock = false) (n : Nat) :
    (onFile (File.readFull n)).run w =
      (if (w.file.rest.take n).length = n then .ok (w.file.rest.take n)
        else if (w.file.rest.take n).isEmpty then .error .eof else .error .unexpectedEOF,
        w.advance (w.file.rest.take n).length) := by
  have hcall : File.call.run w.file = (.ok (), { w.file with clock := w.file.clock + 1 }) := by
    simp [File.call, run_bind, hf]
  have hrest : File.rest { w.file with clock := w.file.clock + 1 } = w.file.rest := rfl
  simp only [onFile, run_zoom, File.readFull, run_bind, hcall, run_get,
    run_modify, hrest]
  generalize w.file.rest.take n = buffer
  split_ifs <;> rfl

/-- All bytes are there. -/
theorem readFull_of_append (h : At before (src ++ rest) w) :
    (onFile (File.readFull src.length)).run w = (.ok src, w.advance src.length) := by
  rw [readFull_run (h.noFaults _), h.rest_eq, List.take_left, if_pos rfl]

/-- No bytes are there. -/
theorem readFull_of_nil (h : At before [] w) (hn : 0 < n) :
    (onFile (File.readFull n)).run w = (.error .eof, w.advance 0) := by
  rw [readFull_run (h.noFaults _), h.rest_eq, List.take_nil, if_neg (by simp; omega),
    if_pos List.isEmpty_nil]
  rfl

/-- Some bytes are there, but not all. -/
theorem readFull_of_lt (h : At before rest w) (hne : rest ≠ []) (hlt : rest.length < n) :
    (onFile (File.readFull n)).run w = (.error .unexpectedEOF, w.advance rest.length) := by
  rw [readFull_run (h.noFaults _), h.rest_eq, List.take_of_length_le hlt.le, if_neg hlt.ne,
    if_neg (by simpa using hne)]

theorem readPart_of_append (h : At before (src ++ rest) w) :
    (readPart src.length).run w = (.ok (some src), w.advance src.length) := by
  simp [readPart, run_tryCatch, run_bind, readFull_of_append h]

/-- A part that is cut short ends the log, wherever it is cut. -/
theorem readPart_of_lt (h : At before rest w) (hlt : rest.length < n) :
    (readPart n).run w = (.ok none, w.advance rest.length) := by
  by_cases hne : rest = []
  · subst hne
    simp [readPart, run_tryCatch, run_bind,
      readFull_of_nil h (by simpa using hlt)]
  · simp [readPart, run_tryCatch, run_bind, readFull_of_lt h hne hlt]

end Reading

/-! ### One record -/

section Record

variable {crc : Bytes → UInt32} {before rest : Bytes} {w : LogFile} {r : Record}

/-- The record has the sizes of the format: numbers of eight and four
bytes, and two page images in an update and none elsewhere. -/
structure Fits (r : Record) : Prop where
  txnID_lt : r.txnID < 2 ^ 64
  pageID_lt : r.pageID < 2 ^ 32
  update : r.type = .recordUpdate →
    r.beforeImage.length = PageSize ∧ r.afterImage.length = PageSize
  short : r.type ≠ .recordUpdate → r.beforeImage = [] ∧ r.afterImage = []

instance (r : Record) : Decidable (Fits r) :=
  decidable_of_iff (r.txnID < 2 ^ 64 ∧ r.pageID < 2 ^ 32 ∧
      (r.type = .recordUpdate → r.beforeImage.length = PageSize ∧ r.afterImage.length = PageSize) ∧
      (r.type ≠ .recordUpdate → r.beforeImage = [] ∧ r.afterImage = []))
    ⟨fun ⟨htxn, hpage, hupdate, hshort⟩ => ⟨htxn, hpage, hupdate, hshort⟩,
      fun h => ⟨h.txnID_lt, h.pageID_lt, h.update, h.short⟩⟩

@[simp] theorem length_header (r : Record) : (header r).length = 21 := by simp [header]

@[simp] theorem decode_code (t : RecordType) : RecordType.decode t.code = some t := by
  cases t <;> rfl

/-- A header is read back. -/
theorem parseHeader_header (hfit : Fits r) (hlsn : r.lsn < 2 ^ 64) :
    parseHeader (header r) = some { r with beforeImage := [], afterImage := [] } := by
  have htype : (header r).getD 16 0 = r.type.code := by simp [header, be]
  have hlsn' : slice (header r) 0 8 = be 8 r.lsn := by simp [header, slice, be]
  have htxn : slice (header r) 8 16 = be 8 r.txnID := by simp [header, slice, be]
  have hpage : slice (header r) 17 21 = be 4 r.pageID := by simp [header, slice, be]
  rw [parseHeader, htype, hlsn', htxn, hpage, decode_code, beNat_be_of_lt hlsn,
    beNat_be_of_lt hfit.txnID_lt, beNat_be_of_lt hfit.pageID_lt]
  rfl

theorem beNat_sum (sum : UInt32) : beNat (be 4 sum.toNat) = sum.toNat :=
  beNat_be_of_lt sum.toNat_lt

variable (crc) in
theorem readUpdate_of_append {before₀ after₀ : Bytes} (buffer : Bytes)
    (hbefore : before₀.length = PageSize) (hafter : after₀.length = PageSize)
    (h : At before (before₀ ++ (after₀ ++
      (be 4 (crc (buffer ++ (before₀ ++ after₀))).toNat ++ rest))) w) :
    ∃ w', (readUpdate crc buffer r).run w =
        (.ok (some { r with beforeImage := before₀, afterImage := after₀ }), w') ∧
      At (before ++ before₀ ++ after₀ ++ be 4 (crc (buffer ++ (before₀ ++ after₀))).toNat) rest w' ∧
      w'.nextLSN = w.nextLSN := by
  have h₁ := h.advance
  have h₂ := h₁.advance
  have hread := readPart_of_append h
  have hread₁ := readPart_of_append h₁
  have hread₂ := readPart_of_append h₂
  refine ⟨_, ?_, h₂.advance, rfl⟩
  rw [hbefore] at hread hread₁ hread₂ ⊢
  rw [hafter] at hread₁ hread₂ ⊢
  rw [length_be] at hread₂ ⊢
  rw [readUpdate, run_bind_of_ok hread]
  dsimp only
  rw [run_bind_of_ok hread₁]
  dsimp only
  rw [run_bind_of_ok hread₂]
  simp only [beNat_sum, ne_eq, not_true_eq_false, if_false]
  rfl

theorem readShort_of_append (buffer : Bytes)
    (h : At before (be 4 (crc buffer).toNat ++ rest) w) :
    ∃ w', (readShort crc buffer r).run w = (.ok (some r), w') ∧
      At (before ++ be 4 (crc buffer).toNat) rest w' ∧ w'.nextLSN = w.nextLSN := by
  have hread := readPart_of_append h
  refine ⟨_, ?_, h.advance, rfl⟩
  rw [length_be] at hread ⊢
  rw [readShort, run_bind_of_ok hread]
  simp only [beNat_sum, ne_eq, not_true_eq_false, if_false]
  rfl

/-- An update record that ends too early is dropped, whichever of its
three parts is cut. -/
theorem readUpdate_of_lt (buffer : Bytes) (h : At before rest w)
    (hlt : rest.length < PageSize + (PageSize + 4)) :
    ∃ w', (readUpdate crc buffer r).run w = (.ok none, w') ∧ w'.SameFile w := by
  by_cases hbefore : rest.length < PageSize
  · refine ⟨w.advance rest.length, ?_, rfl, rfl⟩
    rw [readUpdate, run_bind_of_ok (readPart_of_lt h hbefore)]
    rfl
  obtain ⟨before₀, rest₁, rfl, hlen⟩ : ∃ b r, rest = b ++ r ∧ b.length = PageSize :=
    ⟨rest.take PageSize, rest.drop PageSize, (List.take_append_drop _ _).symm,
      List.length_take_of_le (not_lt.mp hbefore)⟩
  have hread := readPart_of_append h
  have h₁ := h.advance
  rw [hlen] at hread h₁
  rw [List.length_append, hlen] at hlt
  by_cases hafter : rest₁.length < PageSize
  · refine ⟨(w.advance PageSize).advance rest₁.length, ?_, rfl, rfl⟩
    rw [readUpdate, run_bind_of_ok hread]
    dsimp only
    rw [run_bind_of_ok (readPart_of_lt h₁ hafter)]
    rfl
  obtain ⟨after₀, rest₂, rfl, hlen₁⟩ : ∃ b r, rest₁ = b ++ r ∧ b.length = PageSize :=
    ⟨rest₁.take PageSize, rest₁.drop PageSize, (List.take_append_drop _ _).symm,
      List.length_take_of_le (not_lt.mp hafter)⟩
  have hread₁ := readPart_of_append h₁
  have h₂ := h₁.advance
  rw [hlen₁] at hread₁ h₂
  rw [List.length_append, hlen₁] at hlt
  refine ⟨((w.advance PageSize).advance PageSize).advance rest₂.length, ?_, rfl, rfl⟩
  rw [readUpdate, run_bind_of_ok hread]
  dsimp only
  rw [run_bind_of_ok hread₁]
  dsimp only
  rw [run_bind_of_ok (readPart_of_lt h₂ (by omega))]
  rfl

theorem readShort_of_lt (buffer : Bytes) (h : At before rest w) (hlt : rest.length < 4) :
    ∃ w', (readShort crc buffer r).run w = (.ok none, w') ∧ w'.SameFile w := by
  refine ⟨w.advance rest.length, ?_, rfl, rfl⟩
  rw [readShort, run_bind_of_ok (readPart_of_lt h hlt)]
  rfl

/-- The parts of a record behind its header. -/
def tail (crc : Bytes → UInt32) (r : Record) : Bytes :=
  (if r.type = .recordUpdate then r.beforeImage ++ r.afterImage else []) ++
    be 4 (crc (body r)).toNat

theorem encodeRecord_eq (r : Record) : (encodeRecord crc r).1 = header r ++ tail crc r := by
  rw [encodeRecord, tail]
  by_cases hupdate : r.type = .recordUpdate
  · simp [body, hupdate]
  · simp [body, hupdate]

/-- What follows a header is read back. -/
theorem readTail_of_append (hfit : Fits r) (h : At before (tail crc r ++ rest) w) :
    ∃ w', (readTail crc (header r) { r with beforeImage := [], afterImage := [] }).run w =
        (.ok (some r), w') ∧
      At (before ++ tail crc r) rest w' ∧ w'.nextLSN = w.nextLSN := by
  rw [readTail]
  by_cases hupdate : r.type = .recordUpdate
  · obtain ⟨hbefore, hafter⟩ := hfit.update hupdate
    have htail : tail crc r = r.beforeImage ++ (r.afterImage ++
        be 4 (crc (header r ++ (r.beforeImage ++ r.afterImage))).toNat) := by
      simp [tail, body, hupdate]
    rw [htail] at h ⊢
    rw [if_pos hupdate]
    obtain ⟨w', hrun, hat, hlsn⟩ := readUpdate_of_append crc (header r) hbefore hafter
      (by simpa using h)
    exact ⟨w', hrun, by simpa using hat, hlsn⟩
  · have htail : tail crc r = be 4 (crc (header r)).toNat := by simp [tail, body, hupdate]
    obtain ⟨hbefore, hafter⟩ := hfit.short hupdate
    have hr : { r with beforeImage := [], afterImage := [] } = r := by
      cases r
      simp_all
    rw [htail] at h ⊢
    rw [if_neg hupdate, hr]
    exact readShort_of_append (header r) h

/-- A cut behind the header ends the log. -/
theorem readTail_of_lt (hfit : Fits r) {cut : Bytes} (h : At before cut w)
    (hlt : cut.length < (tail crc r).length) :
    ∃ w', (readTail crc (header r) { r with beforeImage := [], afterImage := [] }).run w =
      (.ok none, w') ∧ w'.SameFile w := by
  rw [readTail]
  by_cases hupdate : r.type = .recordUpdate
  · obtain ⟨hbefore, hafter⟩ := hfit.update hupdate
    rw [if_pos hupdate]
    refine readUpdate_of_lt (header r) h ?_
    simpa [tail, hupdate, hbefore, hafter, Nat.add_assoc] using hlt
  · rw [if_neg hupdate]
    exact readShort_of_lt (header r) h (by simpa [tail, hupdate] using hlt)

/-- A whole record is read back. -/
theorem readRecord_of_append (hfit : Fits r) (hlsn : r.lsn < 2 ^ 64)
    (h : At before ((encodeRecord crc r).1 ++ rest) w) :
    ∃ w', (readRecord crc).run w = (.ok (some r), w') ∧
      At (before ++ (encodeRecord crc r).1) rest w' ∧
      w'.nextLSN = max w.nextLSN ((r.lsn + 1) % 2 ^ 64) := by
  rw [encodeRecord_eq, List.append_assoc] at h
  have hread := readFull_of_append h
  obtain ⟨w', hrun, hat, hnext⟩ := readTail_of_append hfit h.advance
  rw [length_header] at hread hrun
  refine ⟨noteLSN w' r, ?_, ?_, ?_⟩
  · simp [readRecord, run_bind, run_tryCatch, hread,
      parseHeader_header hfit hlsn, hrun]
  · rw [encodeRecord_eq, ← List.append_assoc, noteLSN]
    split <;> exact ⟨hat.bytes, hat.offset, hat.noFaults⟩
  · rw [length_header, nextLSN_advance] at hnext
    rw [noteLSN, hnext]
    split
    · rw [max_eq_right (by omega)]
    · rw [max_eq_left (by omega), hnext]

/-- At the end of the file the log ends. -/
theorem readRecord_of_nil (h : At before [] w) :
    (readRecord crc).run w = (.ok none, w.advance 0) := by
  simp [readRecord, run_bind, run_tryCatch, readFull_of_nil h]

/-- A record that is cut behind its header ends the log. -/
theorem readRecord_of_cut (hfit : Fits r) (hlsn : r.lsn < 2 ^ 64) {cut : Bytes}
    (h : At before (header r ++ cut) w) (hlt : cut.length < (tail crc r).length) :
    ∃ w', (readRecord crc).run w = (.ok none, w') ∧ w'.SameFile w := by
  have hread := readFull_of_append h
  obtain ⟨w', hrun, hsame⟩ := readTail_of_lt hfit h.advance hlt
  rw [length_header] at hread hrun
  refine ⟨w', ?_, hsame.bytes, hsame.faults⟩
  simp [readRecord, run_bind, run_tryCatch, hread, parseHeader_header hfit hlsn,
    hrun]

variable (crc) in
/-- A record that is cut in its header is an error. -/
theorem readRecord_of_short_header (h : At before rest w) (hne : rest ≠ [])
    (hlt : rest.length < 21) :
    (readRecord crc).run w = (.error .unexpectedEOF, w.advance rest.length) := by
  simp [readRecord, run_bind, run_tryCatch, readFull_of_lt h hne hlt]

end Record

end LogFile

end MySQLight.Wal
