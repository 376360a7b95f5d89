import MySQLight.Effect.Keeps
import MySQLight.Wal.RoundTrip

/-!
Writing to a log with a torn tail.

`ReadAll` stops in the tail and leaves the handle there, at least behind the
header it has read, and `WriteRecord` writes at the handle. So the header of
the torn record stays in the file, in front of everything that is written
later, and the next reader meets it again: it stops there as before, or it
takes the header with the bytes behind it for a record that nobody wrote.
-/

namespace MySQLight.Wal.LogFile

open MySQLight.Data MySQLight.Effect MySQLight.Storage Fallible

variable {crc : Bytes → UInt32} {before rest : Bytes} {w w' : LogFile} {rs : List Record}
  {r : Record}

/-! ### The handle moves forward -/

/-- The file is the same and the handle has moved forward in it. -/
structure Forward (w w' : LogFile) : Prop where
  same : w'.SameFile w
  offset : w.file.offset ≤ w'.file.offset
  bound : w.file.offset ≤ w.file.bytes.length → w'.file.offset ≤ w.file.bytes.length

instance : Std.Refl Forward := ⟨fun _ => ⟨⟨rfl, rfl⟩, Nat.le_refl _, id⟩⟩

instance : IsTrans LogFile Forward where
  trans a b c h h' := by
    refine ⟨⟨h'.same.bytes.trans h.same.bytes, h'.same.faults.trans h.same.faults⟩,
      h.offset.trans h'.offset, fun hbound => ?_⟩
    rw [← h.same.bytes]
    exact h'.bound (by rw [h.same.bytes]; exact h.bound hbound)

theorem forward_readFull (n : Nat) : Keeps Forward (onFile (File.readFull n)) := by
  intro w
  have hlength : (w.file.rest.take n).length ≤ w.file.bytes.length - w.file.offset := by
    rw [List.length_take, File.rest, List.length_drop]
    exact Nat.min_le_right _ _
  cases hfault : w.file.faults w.file.clock with
  | true =>
    have hrun : ((onFile (File.readFull n)).run w).2 =
        { w with file := { w.file with clock := w.file.clock + 1 } } := by
      simp [onFile, File.readFull, File.call, run_bind, hfault]
    rw [hrun]
    exact ⟨⟨rfl, rfl⟩, Nat.le_refl _, id⟩
  | false =>
    rw [readFull_run hfault]
    refine ⟨⟨rfl, rfl⟩, Nat.le_add_right _ _, fun hbound => ?_⟩
    show w.file.offset + _ ≤ _
    omega

theorem forward_readPart (n : Nat) : Keeps Forward (readPart n) := by
  refine .tryCatch (.bind (forward_readFull n) fun _ => .pure _) fun e => ?_
  split
  · exact .throw e
  · exact .pure none

theorem forward_readTail (buffer : Bytes) (r : Record) :
    Keeps Forward (readTail crc buffer r) := by
  rw [readTail]
  split
  · refine .bind (forward_readPart PageSize) fun beforeImage => ?_
    cases beforeImage with
    | none => exact .pure none
    | some beforeImage =>
      refine .bind (forward_readPart PageSize) fun afterImage => ?_
      cases afterImage with
      | none => exact .pure none
      | some afterImage =>
        refine .bind (forward_readPart 4) fun sum => ?_
        cases sum with
        | none => exact .pure none
        | some sum =>
          dsimp only
          split <;> exact .pure _
  · refine .bind (forward_readPart 4) fun sum => ?_
    cases sum with
    | none => exact .pure none
    | some sum =>
      dsimp only
      split <;> exact .pure _

/-! ### A header that stays -/

/-- A record keeps the transaction of its header. -/
theorem readTail_txnID {buffer : Bytes} {r' : Record}
    (h : (readTail crc buffer r).run w = (.ok (some r'), w')) : r'.txnID = r.txnID := by
  rw [readTail] at h
  split at h
  · obtain ⟨beforeImage, w₁, -, h⟩ := run_bind_eq_ok.mp h
    cases beforeImage with
    | none => cases h
    | some beforeImage =>
      obtain ⟨afterImage, w₂, -, h⟩ := run_bind_eq_ok.mp h
      cases afterImage with
      | none => cases h
      | some afterImage =>
        obtain ⟨sum, w₃, -, h⟩ := run_bind_eq_ok.mp h
        cases sum with
        | none => cases h
        | some sum =>
          dsimp only at h
          split at h <;> cases h
          rfl
  · obtain ⟨sum, w₁, -, h⟩ := run_bind_eq_ok.mp h
    cases sum with
    | none => cases h
    | some sum =>
      dsimp only at h
      split at h <;> cases h
      rfl

/-- The rest of a round, behind the header. -/
def readBehind (crc : Bytes → UInt32) (header : Bytes) :
    Fallible LogFile FileErr (Option Record) := do
  let some r := parseHeader header | return none
  let some r ← readTail crc header r | return none
  modify (noteLSN · r)
  return some r

variable {header : Bytes} {f : File}

theorem readRecord_of_header (hlength : header.length = 21) (h : At before (header ++ rest) w) :
    (readRecord crc).run w = (readBehind crc header).run (w.advance 21) := by
  have hread := readFull_of_append h
  rw [hlength] at hread
  rw [readRecord]
  simp only [run_bind, run_tryCatch, hread, run_pure]
  rfl

theorem forward_noteLSN (w : LogFile) (r : Record) : Forward w (noteLSN w r) := by
  rw [noteLSN]
  split <;> exact ⟨⟨rfl, rfl⟩, Nat.le_refl _, id⟩

theorem forward_readBehind (crc : Bytes → UInt32) (header : Bytes) :
    Keeps Forward (readBehind crc header) := by
  rw [readBehind]
  cases parseHeader header with
  | none => exact .pure none
  | some r =>
    refine .bind (forward_readTail header r) fun r' => ?_
    cases r' with
    | none => exact .pure none
    | some r' => exact .bind (.modify fun w => forward_noteLSN w r') fun _ => .pure _

theorem readBehind_txnID (h : (readBehind crc header).run w = (.ok (some r), w')) :
    r.txnID = beNat (slice header 8 16) := by
  rw [readBehind] at h
  cases hparse : parseHeader header with
  | none =>
    rw [hparse] at h
    cases h
  | some r₀ =>
    rw [hparse] at h
    obtain ⟨r₁, w₁, htail, h⟩ := run_bind_eq_ok.mp h
    cases r₁ with
    | none => cases h
    | some r₁ =>
      cases h
      rw [readTail_txnID htail]
      obtain ⟨type, -, htype⟩ := Option.bind_eq_some_iff.mp hparse
      cases htype
      rfl

/-- The loop adds to the records it has. -/
theorem readLoop_extends {fuel : Nat} {acc records : List Record}
    (h : (readLoop crc fuel acc).run w = (.ok records, w')) : acc <+: records := by
  induction fuel generalizing acc w with
  | zero =>
    cases h
    exact List.prefix_refl _
  | succ fuel ih =>
    obtain ⟨r, w₁, -, h⟩ := run_bind_eq_ok.mp h
    cases r with
    | none =>
      cases h
      exact List.prefix_refl _
    | some r => exact (List.prefix_append acc [r]).trans (ih h)

/-- A tail that is ignored is empty or has a header, and the handle is left
behind the header. -/
theorem readAll_ignored (hrs : ∀ r ∈ rs, Numbered r) (hf : w.file.NoFaults)
    (hbytes : w.file.bytes = encodeAll crc rs ++ rest)
    (hrun : (readAll crc).run w = (.ok rs, w')) (hne : rest ≠ []) :
    21 ≤ rest.length ∧ w'.file.bytes = w.file.bytes ∧ w'.file.NoFaults ∧
      (encodeAll crc rs).length + 21 ≤ w'.file.offset ∧
      w'.file.offset ≤ w.file.bytes.length := by
  obtain ⟨fuel, w₁, hloop, hat, -⟩ := readAll_of_append hrs hf hbytes
  rw [hloop, readLoop] at hrun
  obtain ⟨record, w₂, hrecord, hrun⟩ := run_bind_eq_ok.mp hrun
  have hlength : 21 ≤ rest.length := by
    by_contra hlt
    rw [readRecord_of_short_header crc hat hne (by omega)] at hrecord
    cases hrecord
  obtain ⟨header, tail, rfl, hheader⟩ : ∃ h t, rest = h ++ t ∧ h.length = 21 :=
    ⟨rest.take 21, rest.drop 21, (List.take_append_drop 21 rest).symm,
      List.length_take_of_le hlength⟩
  cases record with
  | some r =>
    -- a record that is read would be among the records
    have hlonger := (readLoop_extends hrun).length_le
    rw [List.length_append, List.length_singleton] at hlonger
    omega
  | none =>
    cases hrun
    have hforward := forward_readBehind crc header (w₁.advance 21)
    rw [← readRecord_of_header hheader hat, hrecord] at hforward
    have hbytes' : w₁.file.bytes = w.file.bytes := hat.bytes.trans hbytes.symm
    have hoffset : (w₁.advance 21).file.offset = (encodeAll crc rs).length + 21 := by
      show w₁.file.offset + 21 = _
      rw [hat.offset]
    have hbound : (w₁.advance 21).file.offset ≤ (w₁.advance 21).file.bytes.length := by
      show _ ≤ w₁.file.bytes.length
      rw [hoffset, hat.bytes, List.length_append, List.length_append, hheader]
      omega
    refine ⟨hlength, hforward.same.bytes.trans hbytes', ?_, ?_, ?_⟩
    · rw [File.NoFaults, hforward.same.faults]
      exact hat.noFaults
    · rw [← hoffset]
      exact hforward.offset
    · rw [← hbytes']
      exact hforward.bound hbound

/-! ### Opening and writing -/

theorem forward_readRecord : Keeps Forward (readRecord crc) := by
  refine .bind (.tryCatch (.bind (forward_readFull 21) fun _ => .pure _) fun e => ?_)
    fun header => ?_
  · split
    · exact .pure none
    · exact .throw e
  · cases header with
    | none => exact .pure none
    | some header => exact forward_readBehind crc header

theorem forward_readLoop (crc : Bytes → UInt32) (fuel : Nat) (records : List Record) :
    Keeps Forward (readLoop crc fuel records) := by
  induction fuel generalizing records with
  | zero => exact .pure records
  | succ fuel ih =>
    refine .bind forward_readRecord fun r => ?_
    cases r with
    | none => exact .pure records
    | some r => exact ih (records ++ [r])

theorem sameFile_readAll (crc : Bytes → UInt32) (w : LogFile) :
    ((readAll crc).run w).2.SameFile w := by
  rw [readAll, run_bind]
  cases hfault : w.file.faults w.file.clock with
  | true =>
    have hseek : (onFile (File.seek 0)).run w =
        (.error .io, { w with file := { w.file with clock := w.file.clock + 1 } }) := by
      simp [onFile, File.seek, File.call, run_bind, hfault]
    rw [hseek]
    exact ⟨rfl, rfl⟩
  | false =>
    let w₀ : LogFile := { w with file := { w.file with clock := w.file.clock + 1, offset := 0 } }
    have hseek : (onFile (File.seek 0)).run w = (.ok (), w₀) := by
      simp [onFile, File.seek, File.call, run_bind, hfault, w₀]
    rw [hseek]
    have hsame := (forward_readLoop crc (w.file.bytes.length + 1) [] w₀).same
    exact ⟨hsame.bytes, hsame.faults⟩

/-- `Open` reads the records and leaves the file as it is. -/
theorem open_eq_ok (h : («open» crc f).1 = .ok w) :
    ∃ records w', (readAll crc).run ⟨{ f with offset := 0 }, 0⟩ = (.ok records, w') ∧
      w.file = w'.file ∧ w.file.bytes = f.bytes ∧ w.file.faults = f.faults := by
  have hsame := sameFile_readAll crc ⟨{ f with offset := 0 }, 0⟩
  rw [«open»] at h
  rcases hrun : (readAll crc).run ⟨{ f with offset := 0 }, 0⟩ with ⟨_ | records, w'⟩
  · rw [hrun] at h
    cases h
  · rw [hrun] at h hsame
    dsimp only at h
    split at h <;> cases h <;> exact ⟨records, _, rfl, rfl, hsame.bytes, hsame.faults⟩

theorem open_of_readAll {records : List Record}
    (h : (readAll crc).run ⟨{ f with offset := 0 }, 0⟩ = (.ok records, w')) :
    ∃ w, («open» crc f).1 = .ok w ∧ w.file = w'.file := by
  rw [«open», h]
  dsimp only
  split <;> exact ⟨_, rfl, rfl⟩

/-- Write one record after the other. -/
def writeRecords (crc : Bytes → UInt32) (rs : List Record) : Fallible LogFile FileErr Unit :=
  forEach (fun r => do let _ ← writeRecord crc r) rs

/-- The records with the numbers that follow. -/
def numberFrom : Nat → List Record → List Record
  | _, [] => []
  | n, r :: rs => { r with lsn := n } :: numberFrom ((n + 1) % 2 ^ 64) rs

/-- A write replaces what is behind the handle, as far as it goes. -/
theorem writeRecord_run_of_offset (crc : Bytes → UInt32) (r : Record) (hf : w.file.NoFaults)
    (hoffset : w.file.offset ≤ w.file.bytes.length)
    (hroom : w.file.offset + (encodeRecord crc { r with lsn := w.nextLSN }).1.length ≤
      maxFileSize) :
    ∃ w', (writeRecord crc r).run w = (.ok w.nextLSN, w') ∧ w'.file.NoFaults ∧
      w'.file.bytes = w.file.bytes.take w.file.offset ++
        ((encodeRecord crc { r with lsn := w.nextLSN }).1 ++
          w.file.bytes.drop (w.file.offset +
            (encodeRecord crc { r with lsn := w.nextLSN }).1.length)) := by
  generalize hsrc : (encodeRecord crc { r with lsn := w.nextLSN }).1 = src at hroom ⊢
  have hcall : File.call.run w.file = (.ok (), { w.file with clock := w.file.clock + 1 }) := by
    simp [File.call, run_bind, hf w.file.clock]
  refine ⟨⟨⟨w.file.bytes.take w.file.offset ++ (src ++ w.file.bytes.drop
      (w.file.offset + src.length)), w.file.offset + src.length, w.file.faults,
      w.file.clock + 1⟩, (w.nextLSN + 1) % 2 ^ 64⟩, ?_, hf, rfl⟩
  simp [writeRecord, onFile, File.write, run_bind, hcall, hsrc, not_lt.mpr hroom,
    Nat.sub_eq_zero_of_le hoffset]

/-! ### The two cases -/

/-- A record that is written behind a torn header is not read back. -/
theorem readAll_behind_header (hrs : ∀ r ∈ rs, Numbered r) (hf : w.file.NoFaults)
    (hlength : header.length = 21) (hbytes : w.file.bytes = encodeAll crc rs ++ (header ++ rest))
    (htxn : r.txnID ≠ beNat (slice header 8 16)) : ((readAll crc).run w).1 ≠ .ok (rs ++ [r]) := by
  intro hread
  obtain ⟨fuel, w₁, hloop, hat, -⟩ := readAll_of_append hrs hf hbytes
  have hrun : (readLoop crc (fuel + 1) rs).run w₁ = (.ok (rs ++ [r]), ((readAll crc).run w).2) := by
    rw [← hloop, ← hread]
  obtain ⟨record, w₂, hrecord, hrun⟩ := run_bind_eq_ok.mp hrun
  rw [readRecord_of_header hlength hat] at hrecord
  cases record with
  | none =>
    have hlist : rs = rs ++ [r] := by
      injection hrun with hrun
      injection hrun
    simpa using congrArg List.length hlist
  | some r' =>
    obtain ⟨more, hmore⟩ := readLoop_extends hrun
    rw [List.append_assoc, List.append_cancel_left_eq, List.singleton_append] at hmore
    injection hmore with hr
    exact htxn (hr ▸ readBehind_txnID hrecord)

theorem foldl_nextLSN_lt {next : Nat} (hnext : next < 2 ^ 64) (rs : List Record) :
    rs.foldl (fun next r => max next ((r.lsn + 1) % 2 ^ 64)) next < 2 ^ 64 := by
  induction rs generalizing next with
  | nil => exact hnext
  | cons r rs ih => exact ih (max_lt hnext (Nat.mod_lt _ (by decide)))

/-- Without a tail the handle of the opened log is at the end. -/
theorem open_at_end (hrs : ∀ r ∈ rs, Numbered r) (hf : f.NoFaults)
    (hbytes : f.bytes = encodeAll crc rs) (hopen : («open» crc f).1 = .ok w) :
    At (encodeAll crc rs) [] w ∧ w.nextLSN < 2 ^ 64 := by
  obtain ⟨w', hrun, hat, hnext⟩ := readAll_of_eq (w := ⟨{ f with offset := 0 }, 0⟩) hrs hf hbytes
  rw [«open», hrun] at hopen
  dsimp only at hopen
  split at hopen <;> cases hopen
  · refine ⟨hat, ?_⟩
    rw [hnext]
    exact foldl_nextLSN_lt (Nat.two_pow_pos 64) rs
  · exact ⟨⟨hat.bytes, hat.offset, hat.noFaults⟩, Nat.mod_lt _ (by decide)⟩

/-- At the end, what is written follows the records. -/
theorem writeRecords_at_end {news : List Record} (hat : At (encodeAll crc rs) [] w)
    (hlsn : w.nextLSN < 2 ^ 64) (hfit : ∀ r ∈ news, Fits r)
    (hrun : (writeRecords crc news).run w = (.ok (), w')) :
    At (encodeAll crc (rs ++ numberFrom w.nextLSN news)) [] w' ∧
      ∀ r ∈ numberFrom w.nextLSN news, Numbered r := by
  induction news generalizing rs w with
  | nil =>
    cases hrun
    rw [numberFrom, List.append_nil]
    exact ⟨hat, nofun⟩
  | cons r news ih =>
    obtain ⟨hr, hfit⟩ := List.forall_mem_cons.mp hfit
    obtain ⟨_, w₁, hwrite, hrun⟩ := run_bind_eq_ok.mp hrun
    obtain ⟨lsn, w₂, hwrite, hpure⟩ := run_bind_eq_ok.mp hwrite
    cases hpure
    have hat₁ : At (encodeAll crc rs) [] { w with nextLSN := (w.nextLSN + 1) % 2 ^ 64 } :=
      ⟨hat.bytes, hat.offset, hat.noFaults⟩
    have hsize : (encodeAll crc rs).length +
        (encodeRecord crc { r with lsn := w.nextLSN }).1.length ≤ maxFileSize := by
      by_contra hlarge
      have hcall : File.call.run w.file =
          (.ok (), { w.file with clock := w.file.clock + 1 }) := by
        simp [File.call, run_bind, hat.noFaults w.file.clock]
      simp [writeRecord, onFile, File.write, run_bind, hcall, hat.offset,
        not_le.mp hlarge] at hwrite
    obtain ⟨w₃, hrun₃, hat₃, hnext⟩ := write_run hat₁ hsize
    have hw₃ : (writeRecord crc r).run w = (.ok w.nextLSN, w₃) := by
      simp only [writeRecord, run_bind, run_get, run_modify, hrun₃]
      rfl
    rw [hw₃] at hwrite
    cases hwrite
    have hencode : encodeAll crc rs ++ (encodeRecord crc { r with lsn := w.nextLSN }).1 =
        encodeAll crc (rs ++ [{ r with lsn := w.nextLSN }]) := by
      simp [encodeAll]
    rw [hencode] at hat₃
    have hlsn₁ : w₁.nextLSN < 2 ^ 64 := hnext ▸ Nat.mod_lt _ (by decide)
    obtain ⟨hat', hnumbered⟩ := ih hat₃ hlsn₁ hfit hrun
    rw [hnext, List.append_assoc, List.singleton_append] at hat'
    rw [hnext] at hnumbered
    refine ⟨hat', List.forall_mem_cons.mpr ⟨⟨?_, hlsn⟩, hnumbered⟩⟩
    exact ⟨hr.txnID_lt, hr.pageID_lt, hr.update, hr.short⟩

/-- Behind a tail that is ignored, a record of another transaction than that
in the tail is lost. -/
theorem lost_behind_tail {tail : Bytes} (hf : f.NoFaults) (hrs : ∀ r ∈ rs, Numbered r)
    (hbytes : f.bytes = encodeAll crc rs ++ tail)
    (hignored : ((readAll crc).run ⟨{ f with offset := 0 }, 0⟩).1 = .ok rs) (hne : tail ≠ [])
    (htxn : r.txnID ≠ beNat (slice (tail.take 21) 8 16))
    (hroom : ∀ lsn, f.bytes.length + (encodeRecord crc { r with lsn := lsn }).1.length ≤
      maxFileSize) :
    ∃ w w', («open» crc f).1 = .ok w ∧ (writeRecords crc [r]).run w = (.ok (), w') ∧
      ¬ ∃ w'', («open» crc w'.file).1 = .ok w'' ∧
        ((readAll crc).run w'').1 = .ok (rs ++ numberFrom w.nextLSN [r]) := by
  have hread : (readAll crc).run ⟨{ f with offset := 0 }, 0⟩ =
      (.ok rs, ((readAll crc).run ⟨{ f with offset := 0 }, 0⟩).2) := by
    rw [← hignored]
  obtain ⟨hlength, hbytes₁, hf₁, hlow, hhigh⟩ := readAll_ignored hrs hf hbytes hread hne
  obtain ⟨w, hopen, hfile⟩ := open_of_readAll hread
  rw [← hfile] at hbytes₁ hf₁ hlow hhigh
  change w.file.bytes = f.bytes at hbytes₁
  change w.file.offset ≤ f.bytes.length at hhigh
  have hheader : (tail.take 21).length = 21 := List.length_take_of_le hlength
  obtain ⟨w', hwrite, hf', hbytes'⟩ := writeRecord_run_of_offset crc r hf₁
    (hbytes₁ ▸ hhigh) ((Nat.add_le_add_right hhigh _).trans (hroom _))
  refine ⟨w, w', hopen, ?_, ?_⟩
  · simp [writeRecords, forEach, run_bind, hwrite]
  · rintro ⟨w'', hopen'', hread''⟩
    obtain ⟨-, -, -, -, hbytes'', hfaults''⟩ := open_eq_ok hopen''
    -- the header of the tail is still in front of the record
    have htake : w.file.bytes.take w.file.offset = encodeAll crc rs ++ (tail.take 21 ++
        (tail.drop 21).take (w.file.offset - (encodeAll crc rs ++ tail.take 21).length)) := by
      have hsplit : f.bytes = (encodeAll crc rs ++ tail.take 21) ++ tail.drop 21 := by
        rw [hbytes, List.append_assoc, List.take_append_drop]
      rw [hbytes₁, hsplit, List.take_append, List.take_of_length_le, List.append_assoc]
      rw [List.length_append, hheader]
      exact hlow
    rw [hbytes', htake, List.append_assoc, List.append_assoc] at hbytes''
    have hf'' : w''.file.NoFaults := by
      rw [File.NoFaults, hfaults'']
      exact hf'
    have htxn' : { r with lsn := w.nextLSN }.txnID ≠ beNat (slice (tail.take 21) 8 16) := htxn
    exact readAll_behind_header hrs hf'' hheader hbytes'' htxn' hread''

/-- What is written to a log with a tail that `ReadAll` ignores is read back
after the log has been opened again, whatever is written, exactly if there is
no tail. -/
theorem readAll_reopened_iff (crc : Bytes → UInt32) (rs : List Record) (tail : Bytes) (f : File)
    (hf : f.NoFaults) (hrs : ∀ r ∈ rs, Numbered r) (hbytes : f.bytes = encodeAll crc rs ++ tail)
    (hignored : ((readAll crc).run ⟨{ f with offset := 0 }, 0⟩).1 = .ok rs)
    (hroom : f.bytes.length + 25 ≤ maxFileSize) :
    (∀ news w w', (∀ r ∈ news, Fits r) → («open» crc f).1 = .ok w →
        (writeRecords crc news).run w = (.ok (), w') →
        ∃ w'', («open» crc w'.file).1 = .ok w'' ∧
          ((readAll crc).run w'').1 = .ok (rs ++ numberFrom w.nextLSN news)) ↔
      tail = [] := by
  constructor
  · intro h
    by_contra hne
    obtain ⟨txnID, htxn, hlt⟩ :
        ∃ txnID, txnID ≠ beNat (slice (tail.take 21) 8 16) ∧ txnID < 2 ^ 64 := by
      by_cases hzero : beNat (slice (tail.take 21) 8 16) = 0
      · exact ⟨1, by omega, by decide⟩
      · exact ⟨0, fun h => hzero h.symm, by decide⟩
    let r : Record := { lsn := 0, txnID := txnID, type := .recordBegin }
    have hfit : Fits r := ⟨hlt, Nat.two_pow_pos 32, nofun, fun _ => ⟨rfl, rfl⟩⟩
    have hsize (lsn : Nat) : (encodeRecord crc { r with lsn := lsn }).1.length = 25 := by
      simp [encodeRecord, body, header, r]
    obtain ⟨w, w', hopen, hwrite, hlost⟩ := lost_behind_tail hf hrs hbytes hignored hne
      (r := r) htxn fun lsn => by rw [hsize lsn]; exact hroom
    exact hlost (h [r] w w' (List.forall_mem_singleton.mpr hfit) hopen hwrite)
  · rintro rfl news w w' hfit hopen hwrite
    rw [List.append_nil] at hbytes
    obtain ⟨hat, hlsn⟩ := open_at_end hrs hf hbytes hopen
    obtain ⟨hat', hnumbered⟩ := writeRecords_at_end hat hlsn hfit hwrite
    have hall : ∀ r ∈ rs ++ numberFrom w.nextLSN news, Numbered r := by
      intro r hr
      exact (List.mem_append.mp hr).elim (hrs r) (hnumbered r)
    have hbytes' : w'.file.bytes = encodeAll crc (rs ++ numberFrom w.nextLSN news) := by
      rw [hat'.bytes, List.append_nil]
    obtain ⟨w₁, hrun, -⟩ := readAll_of_eq (w := ⟨{ w'.file with offset := 0 }, 0⟩) hall
      hat'.noFaults hbytes'
    obtain ⟨w'', hopen'', -⟩ := open_of_readAll hrun
    obtain ⟨hat'', -⟩ := open_at_end hall hat'.noFaults hbytes' hopen''
    obtain ⟨w₂, hread, -⟩ := readAll_of_eq hall hat''.noFaults
      (hat''.bytes.trans (List.append_nil _))
    exact ⟨w'', hopen'', by rw [hread]⟩

/-- Three of the 25 bytes of the second record are missing. -/
theorem readAll_tornFile (crc : Bytes → UInt32) :
    ((readAll crc).run ⟨tornFile crc 22, 0⟩).1 =
      .ok [{ lsn := 0, txnID := 1, type := .recordBegin }] := by
  obtain ⟨_, hread, -⟩ := Torn.readAll_ok (w := ⟨tornFile crc 22, 0⟩)
    (torn_tornFile crc (by decide) (by decide)) (fun _ => rfl) (by decide)
  rw [hread]

theorem length_tornFile (crc : Bytes → UInt32) : (tornFile crc 22).bytes.length = 47 := by
  simp [tornFile, encodeAll, encodeRecord, body, header]

/-- A complete record and a torn one: not everything is read back. -/
theorem readAll_reopened_tornFile :
    (∀ news w w', (∀ r ∈ news, Fits r) →
        («open» checksumIEEE (tornFile checksumIEEE 22)).1 = .ok w →
        (writeRecords checksumIEEE news).run w = (.ok (), w') →
        ∃ w'', («open» checksumIEEE w'.file).1 = .ok w'' ∧
          ((readAll checksumIEEE).run w'').1 =
            .ok ([{ lsn := 0, txnID := 1, type := .recordBegin }] ++
              numberFrom w.nextLSN news)) ↔
      (encodeRecord checksumIEEE { lsn := 1, txnID := 2, type := .recordBegin }).1.take 22 = [] :=
  readAll_reopened_iff checksumIEEE [{ lsn := 0, txnID := 1, type := .recordBegin }] _
    (tornFile checksumIEEE 22) (fun _ => rfl) (by decide) rfl
    (readAll_tornFile checksumIEEE) (by rw [length_tornFile]; decide)

/-- What is written behind the torn record is lost, whatever the checksum. -/
theorem lost_behind_torn (crc : Bytes → UInt32) :
    ((readAll crc).run ⟨tornFile crc 22, 0⟩).1 =
        .ok [{ lsn := 0, txnID := 1, type := .recordBegin }] ∧
      ∃ w w', («open» crc (tornFile crc 22)).1 = .ok w ∧
        (writeRecords crc [{ lsn := 0, txnID := 1, type := .recordCommit }]).run w = (.ok (), w') ∧
        ¬ ∃ w'', («open» crc w'.file).1 = .ok w'' ∧
          ((readAll crc).run w'').1 = .ok ([{ lsn := 0, txnID := 1, type := .recordBegin }] ++
            numberFrom w.nextLSN [{ lsn := 0, txnID := 1, type := .recordCommit }]) := by
  refine ⟨readAll_tornFile crc, lost_behind_tail (fun _ => rfl) (by decide) rfl
    (readAll_tornFile crc) ?_ ?_ fun lsn => ?_⟩
  · intro hnil
    have hlength := congrArg List.length hnil
    simp [encodeRecord, body, header] at hlength
  · rw [List.take_take, encodeRecord_eq, List.take_append_of_le_length (by simp),
      List.take_of_length_le (by simp)]
    decide
  · rw [length_tornFile]
    simp [encodeRecord, body, header, maxFileSize]

theorem lost_behind_tornFile :
    ((readAll checksumIEEE).run ⟨tornFile checksumIEEE 22, 0⟩).1 =
        .ok [{ lsn := 0, txnID := 1, type := .recordBegin }] ∧
      ∃ w w', («open» checksumIEEE (tornFile checksumIEEE 22)).1 = .ok w ∧
        (writeRecords checksumIEEE [{ lsn := 0, txnID := 1, type := .recordCommit }]).run w =
          (.ok (), w') ∧
        ¬ ∃ w'', («open» checksumIEEE w'.file).1 = .ok w'' ∧
          ((readAll checksumIEEE).run w'').1 =
            .ok ([{ lsn := 0, txnID := 1, type := .recordBegin }] ++
              numberFrom w.nextLSN [{ lsn := 0, txnID := 1, type := .recordCommit }]) :=
  lost_behind_torn checksumIEEE

end MySQLight.Wal.LogFile
