import Mathlib.Data.List.Induction
import MySQLight.Wal.LogFile

/-!
What was written to the log is read back.

The first part is about `ReadAll` on a file that starts with complete
records: it returns them and comes to stand behind them, whatever follows.
From there the two results differ only in what follows: nothing, after any
sequence of writes, reads and reopenings, or the first bytes of one more
record, after a crash in the middle of a write.
-/

namespace MySQLight.Wal.LogFile

open MySQLight.Data MySQLight.Effect MySQLight.Storage Fallible

variable {crc : Bytes → UInt32} {before rest : Bytes} {w : LogFile} {rs : List Record}

/-- The bytes of a list of records. -/
def encodeAll (crc : Bytes → UInt32) (rs : List Record) : Bytes :=
  rs.flatMap fun r => (encodeRecord crc r).1

/-- A record as it is in the file: in the format, with a number of eight
bytes. -/
def Numbered (r : Record) : Prop := Fits r ∧ r.lsn < 2 ^ 64

instance (r : Record) : Decidable (Numbered r) := inferInstanceAs (Decidable (_ ∧ _))

variable (crc) in
theorem length_encodeRecord (r : Record) : 25 ≤ (encodeRecord crc r).1.length := by
  rw [encodeRecord_eq, tail]
  simp
  omega

variable (crc) in
theorem length_encodeAll (rs : List Record) : rs.length * 25 ≤ (encodeAll crc rs).length := by
  induction rs with
  | nil => simp
  | cons r rs ih =>
    have hr := length_encodeRecord crc r
    simp only [encodeAll, List.flatMap_cons, List.length_append, List.length_cons] at ih ⊢
    omega

/-- The loop reads complete records one after the other. -/
theorem readLoop_of_append (hrs : ∀ r ∈ rs, Numbered r) (fuel : Nat) (acc : List Record)
    (h : At before (encodeAll crc rs ++ rest) w) :
    ∃ w', (readLoop crc (rs.length + fuel) acc).run w = (readLoop crc fuel (acc ++ rs)).run w' ∧
      At (before ++ encodeAll crc rs) rest w' ∧
      w'.nextLSN = rs.foldl (fun next r => max next ((r.lsn + 1) % 2 ^ 64)) w.nextLSN := by
  induction rs generalizing before acc w with
  | nil => exact ⟨w, by simp, by simpa [encodeAll] using h, rfl⟩
  | cons r rs ih =>
    obtain ⟨⟨hfit, hlsn⟩, hrest⟩ := List.forall_mem_cons.mp hrs
    rw [encodeAll, List.flatMap_cons, List.append_assoc] at h
    obtain ⟨w₁, hrun, hat, hnext⟩ := readRecord_of_append hfit hlsn h
    obtain ⟨w', hloop, hat', hnext'⟩ := ih hrest (acc ++ [r]) hat
    refine ⟨w', ?_, ?_, ?_⟩
    · rw [List.length_cons, Nat.add_right_comm, readLoop, run_bind_of_ok hrun]
      dsimp only
      rw [hloop, List.append_assoc, List.singleton_append]
    · rw [encodeAll, List.flatMap_cons, ← List.append_assoc]
      exact hat'
    · rw [hnext', hnext, List.foldl_cons]

/-- `ReadAll` on a file that starts with complete records. -/
theorem readAll_of_append (hrs : ∀ r ∈ rs, Numbered r) (hf : w.file.NoFaults)
    (hbytes : w.file.bytes = encodeAll crc rs ++ rest) :
    ∃ (fuel : Nat) (w' : LogFile),
      (readAll crc).run w = (readLoop crc (fuel + 1) rs).run w' ∧ At (encodeAll crc rs) rest w' ∧
      w'.nextLSN = rs.foldl (fun next r => max next ((r.lsn + 1) % 2 ^ 64)) w.nextLSN := by
  let w₀ : LogFile := { w with file := { w.file with clock := w.file.clock + 1, offset := 0 } }
  have hseek : (onFile (File.seek 0)).run w = (.ok (), w₀) := by
    simp [onFile, File.seek, File.call, run_bind, hf w.file.clock, w₀]
  have hat : At [] (encodeAll crc rs ++ rest) w₀ := ⟨hbytes, rfl, hf⟩
  have hlen := length_encodeAll crc rs
  have hlength : w.file.bytes.length = (encodeAll crc rs).length + rest.length := by
    rw [hbytes, List.length_append]
  obtain ⟨w', hloop, hat', hnext⟩ := readLoop_of_append hrs
    (w.file.bytes.length - rs.length + 1) [] hat
  refine ⟨w.file.bytes.length - rs.length, w', ?_, hat', hnext⟩
  have hfuel : w.file.bytes.length + 1 = rs.length + (w.file.bytes.length - rs.length + 1) := by
    omega
  rw [readAll, run_bind_of_ok hseek]
  change (readLoop crc (w.file.bytes.length + 1) []).run w₀ = _
  rw [hfuel, hloop, List.nil_append]

/-- On a file of complete records `ReadAll` returns them and stands at the
end. -/
theorem readAll_of_eq (hrs : ∀ r ∈ rs, Numbered r) (hf : w.file.NoFaults)
    (hbytes : w.file.bytes = encodeAll crc rs) :
    ∃ w', (readAll crc).run w = (.ok rs, w') ∧ At (encodeAll crc rs) [] w' ∧
      w'.nextLSN = rs.foldl (fun next r => max next ((r.lsn + 1) % 2 ^ 64)) w.nextLSN := by
  rw [← List.append_nil (encodeAll crc rs)] at hbytes
  obtain ⟨fuel, w', hrun, hat, hnext⟩ := readAll_of_append hrs hf hbytes
  refine ⟨w'.advance 0, ?_, ?_, hnext⟩
  · rw [hrun, readLoop, run_bind_of_ok (readRecord_of_nil hat)]
    rfl
  · exact ⟨hat.bytes, hat.offset, hat.noFaults⟩

/-! ### Writing, reading and reopening -/

/-- What a client does with an open log. -/
inductive LogCall
  | writeRecord (r : Record)
  | readAll
  | reopen
deriving DecidableEq

/-- The records a list of calls writes. -/
def written (calls : List LogCall) : List Record :=
  calls.filterMap fun
    | .writeRecord r => some r
    | .readAll | .reopen => none

/-- `Close` syncs the file; `Open` starts from what is in it. -/
def reopen (crc : Bytes → UInt32) : Fallible LogFile FileErr Unit := do
  onFile File.call
  let (opened, file) := «open» crc (← get).file
  modify fun w => { w with file := file }
  set (← Fallible.ofExcept opened)

def LogCall.run (crc : Bytes → UInt32) : LogCall → Fallible LogFile FileErr Unit
  | .writeRecord r => do let _ ← LogFile.writeRecord crc r
  | .readAll => do let _ ← LogFile.readAll crc
  | .reopen => LogFile.reopen crc

/-- The records with the numbers `0, 1, 2, …`. -/
def number (rs : List Record) : List Record := rs.mapIdx fun i r => { r with lsn := i }

@[simp] theorem length_number (rs : List Record) : (number rs).length = rs.length := by
  simp [number]

theorem number_concat (rs : List Record) (r : Record) :
    number (rs ++ [r]) = number rs ++ [{ r with lsn := rs.length }] := by
  simp [number, List.mapIdx_concat]

theorem getLast?_number (rs : List Record) (r : Record) :
    (number (rs ++ [r])).getLast? = some { r with lsn := rs.length } := by
  rw [number_concat, List.getLast?_concat]

theorem numbered_number (hfit : ∀ r ∈ rs, Fits r) (hlen : rs.length < 2 ^ 64) :
    ∀ r ∈ number rs, Numbered r := by
  intro r hr
  obtain ⟨i, hi, rfl⟩ := List.mem_mapIdx.mp hr
  have h := hfit _ (List.getElem_mem hi)
  exact ⟨⟨h.txnID_lt, h.pageID_lt, h.update, h.short⟩, hi.trans hlen⟩

theorem foldl_number (hlen : rs.length < 2 ^ 64) (next : Nat) :
    (number rs).foldl (fun next r => max next ((r.lsn + 1) % 2 ^ 64)) next =
      max next rs.length := by
  induction rs using List.reverseRecOn with
  | nil => simp [number]
  | append_singleton rs r ih =>
    rw [List.length_append, List.length_singleton] at hlen ⊢
    rw [number_concat, List.foldl_append, ih (by omega)]
    simp only [List.foldl_cons, List.foldl_nil]
    omega

/-- A file is too small for the numbers to wrap. -/
theorem length_lt_of_size (hsize : (encodeAll crc (number rs)).length ≤ maxFileSize) :
    rs.length < 2 ^ 64 := by
  have hlen := length_encodeAll crc (number rs)
  rw [length_number] at hlen
  simp only [maxFileSize] at hsize
  omega

/-- The log holds the records `rs`, and the handle is ready to append. -/
structure Holds (crc : Bytes → UInt32) (rs : List Record) (w : LogFile) : Prop where
  fits : ∀ r ∈ rs, Fits r
  at_end : At (encodeAll crc (number rs)) [] w
  nextLSN : w.nextLSN = rs.length
  size : (encodeAll crc (number rs)).length ≤ maxFileSize

theorem Holds.numbered (h : Holds crc rs w) : ∀ r ∈ number rs, Numbered r :=
  numbered_number h.fits (length_lt_of_size h.size)

theorem Holds.bytes_eq (h : Holds crc rs w) : w.file.bytes = encodeAll crc (number rs) := by
  rw [h.at_end.bytes, List.append_nil]

theorem Holds.readAll (h : Holds crc rs w) :
    ∃ w', (readAll crc).run w = (.ok (number rs), w') ∧ Holds crc rs w' := by
  obtain ⟨w', hrun, hat, hnext⟩ := readAll_of_eq h.numbered h.at_end.noFaults h.bytes_eq
  refine ⟨w', hrun, h.fits, hat, ?_, h.size⟩
  rw [hnext, foldl_number (length_lt_of_size h.size), h.nextLSN, max_self]

/-- `Open` finds the records and continues their numbers. -/
theorem open_of_eq (crc : Bytes → UInt32) (rs : List Record) (hfit : ∀ r ∈ rs, Fits r)
    {f : File} (hf : f.NoFaults) (hbytes : f.bytes = encodeAll crc (number rs))
    (hsize : (encodeAll crc (number rs)).length ≤ maxFileSize) :
    ∃ w, «open» crc f = (.ok w, w.file) ∧ Holds crc rs w := by
  have hlen := length_lt_of_size hsize
  obtain ⟨w, hrun, hat, hnext⟩ := readAll_of_eq
    (w := ⟨{ f with offset := 0 }, 0⟩) (numbered_number hfit hlen) hf hbytes
  rw [foldl_number hlen, Nat.zero_max] at hnext
  rcases List.eq_nil_or_concat' rs with rfl | ⟨rs, r, rfl⟩
  · exact ⟨w, by rw [«open», hrun]; rfl, hfit, hat, hnext, hsize⟩
  · refine ⟨{ w with nextLSN := (rs.length + 1) % 2 ^ 64 }, ?_, hfit,
      ⟨hat.bytes, hat.offset, hat.noFaults⟩, ?_, hsize⟩
    · simp only [«open», hrun, getLast?_number]
    · rw [List.length_append, List.length_singleton] at hlen ⊢
      exact Nat.mod_eq_of_lt hlen

theorem Holds.reopen (h : Holds crc rs w) :
    ∃ w', (reopen crc).run w = (.ok (), w') ∧ Holds crc rs w' := by
  obtain ⟨w', hopen, hw'⟩ := open_of_eq crc rs h.fits
    (f := { w.file with clock := w.file.clock + 1 }) h.at_end.noFaults h.bytes_eq h.size
  refine ⟨w', ?_, hw'⟩
  simp [LogFile.reopen, onFile, File.call, run_bind, h.at_end.noFaults w.file.clock, hopen]

/-- A write at the end of the file. -/
theorem write_run (h : At before [] w) {src : Bytes}
    (hsize : before.length + src.length ≤ maxFileSize) :
    ∃ w', (onFile (File.write src)).run w = (.ok (), w') ∧ At (before ++ src) [] w' ∧
      w'.nextLSN = w.nextLSN := by
  have hcall : File.call.run w.file = (.ok (), { w.file with clock := w.file.clock + 1 }) := by
    simp [File.call, run_bind, h.noFaults w.file.clock]
  have hbytes : w.file.bytes = before := by rw [h.bytes, List.append_nil]
  refine ⟨{ w with file := { w.file with
      bytes := before ++ src, offset := before.length + src.length, clock := w.file.clock + 1 } },
    ?_, ⟨by simp, by simp, h.noFaults⟩, rfl⟩
  simp [onFile, File.write, run_bind, hcall, h.offset, not_lt.mpr hsize, hbytes]

/-- A write adds the record behind the others. -/
theorem Holds.writeRecord {r : Record} (h : Holds crc rs w) (hr : Fits r)
    (hsize : (encodeAll crc (number (rs ++ [r]))).length ≤ maxFileSize) :
    ∃ lsn w', (writeRecord crc r).run w = (.ok lsn, w') ∧ Holds crc (rs ++ [r]) w' := by
  have hencode : encodeAll crc (number (rs ++ [r])) =
      encodeAll crc (number rs) ++ (encodeRecord crc { r with lsn := w.nextLSN }).1 := by
    simp [number_concat, encodeAll, h.nextLSN]
  have hat : At (encodeAll crc (number rs)) []
      { w with nextLSN := (w.nextLSN + 1) % 2 ^ 64 } :=
    ⟨h.at_end.bytes, h.at_end.offset, h.at_end.noFaults⟩
  obtain ⟨w', hrun, hat', hnext⟩ := write_run hat
    (by rwa [← List.length_append, ← hencode])
  refine ⟨w.nextLSN, w', ?_, ?_, hencode ▸ hat', ?_, hsize⟩
  · simp only [LogFile.writeRecord, run_bind, run_get, run_modify, hrun]
    rfl
  · simpa [or_imp, forall_and] using ⟨h.fits, hr⟩
  · have hlen := length_lt_of_size hsize
    rw [List.length_append, List.length_singleton] at hlen ⊢
    rw [hnext, h.nextLSN]
    exact Nat.mod_eq_of_lt hlen

/-- One call. -/
theorem Holds.run {call : LogCall} (h : Holds crc rs w) (hfit : ∀ r ∈ written [call], Fits r)
    (hsize : (encodeAll crc (number (rs ++ written [call]))).length ≤ maxFileSize) :
    ∃ w', (call.run crc).run w = (.ok (), w') ∧ Holds crc (rs ++ written [call]) w' := by
  cases call with
  | writeRecord r =>
    obtain ⟨lsn, w', hrun, hw'⟩ := h.writeRecord (hfit r (by simp [written])) hsize
    exact ⟨w', by rw [LogCall.run, run_bind_of_ok hrun]; rfl, hw'⟩
  | readAll =>
    obtain ⟨w', hrun, hw'⟩ := h.readAll
    rw [← List.append_nil rs] at hw'
    exact ⟨w', by rw [LogCall.run, run_bind_of_ok hrun]; rfl, hw'⟩
  | reopen =>
    obtain ⟨w', hrun, hw'⟩ := h.reopen
    exact ⟨w', hrun, by simpa [written] using hw'⟩

theorem length_encodeAll_number_le (rs rs' : List Record) :
    (encodeAll crc (number rs)).length ≤ (encodeAll crc (number (rs ++ rs'))).length := by
  simp [encodeAll, number, List.mapIdx_append]

theorem written_cons (call : LogCall) (calls : List LogCall) :
    written (call :: calls) = written [call] ++ written calls := by
  rw [written, written, written, ← List.filterMap_append, List.singleton_append]

/-- A run of calls. -/
theorem Holds.runs {calls : List LogCall} (h : Holds crc rs w)
    (hfit : ∀ r ∈ written calls, Fits r)
    (hsize : (encodeAll crc (number (rs ++ written calls))).length ≤ maxFileSize) :
    ∃ w', (forEach (LogCall.run crc) calls).run w = (.ok (), w') ∧
      Holds crc (rs ++ written calls) w' := by
  induction calls generalizing rs w with
  | nil => exact ⟨w, rfl, by simpa [written] using h⟩
  | cons call calls ih =>
    rw [written_cons] at hfit hsize ⊢
    rw [← List.append_assoc] at hsize ⊢
    obtain ⟨w₁, hcall, hw₁⟩ := h.run (fun r hr => hfit r (List.mem_append_left _ hr))
      ((length_encodeAll_number_le _ _).trans hsize)
    obtain ⟨w', hrun, hw'⟩ := ih hw₁ (fun r hr => hfit r (List.mem_append_right _ hr)) hsize
    exact ⟨w', by rw [forEach, run_bind_of_ok hcall, hrun], hw'⟩

/-- Whatever is written to a log that starts out empty, with reads and
reopenings in between, is what `ReadAll` returns, numbered from zero. The
records have to fit into a file. -/
theorem readAll_after_calls (crc : Bytes → UInt32) (f : File) (hempty : f.bytes = [])
    (hf : f.NoFaults) (calls : List LogCall) (hfit : ∀ r ∈ written calls, Fits r)
    (hsize : (encodeAll crc (number (written calls))).length ≤ maxFileSize) :
    ∃ w₀ w, («open» crc f).1 = .ok w₀ ∧
      (forEach (LogCall.run crc) calls).run w₀ = (.ok (), w) ∧
      ((readAll crc).run w).1 = .ok ((written calls).mapIdx fun i r => { r with lsn := i }) := by
  obtain ⟨w₀, hopen, hw₀⟩ := open_of_eq crc [] (by simp) hf
    (by simpa [encodeAll, number] using hempty) (by simp [encodeAll, number])
  obtain ⟨w, hrun, hw⟩ := hw₀.runs hfit hsize
  obtain ⟨w', hread, -⟩ := hw.readAll
  exact ⟨w₀, w, by rw [hopen], hrun, by rw [hread]; rfl⟩

/-- The log calls of a transaction that is committed after a restart. -/
def restartCalls : List LogCall :=
  [.writeRecord { lsn := 0, txnID := 7, type := .recordBegin }, .readAll, .reopen,
    .writeRecord { lsn := 0, txnID := 7, type := .recordCommit }]

theorem readAll_after_restartCalls :
    ∃ w₀ w, («open» (fun _ => 0) ⟨[], 0, fun _ => false, 0⟩).1 = .ok w₀ ∧
      (forEach (LogCall.run fun _ => 0) restartCalls).run w₀ = (.ok (), w) ∧
      ((readAll fun _ => 0).run w).1 =
        .ok [{ lsn := 0, txnID := 7, type := .recordBegin },
          { lsn := 1, txnID := 7, type := .recordCommit }] :=
  readAll_after_calls (fun _ => 0) ⟨[], 0, fun _ => false, 0⟩ rfl (fun _ => rfl) restartCalls
    (by decide) (by decide +kernel)

/-! ### A torn tail -/

/-- A file of complete records and the first `k` bytes of one more. -/
structure Torn (crc : Bytes → UInt32) (rs : List Record) (r : Record) (k : Nat) (f : File) :
    Prop where
  records : ∀ r ∈ rs, Numbered r
  last : Numbered r
  pos : 0 < k
  cut : k < (encodeRecord crc r).1.length
  bytes : f.bytes = encodeAll crc rs ++ (encodeRecord crc r).1.take k

section TornTail

variable {r : Record} {k : Nat}

/-- A cut behind the header: the records before it are read. -/
theorem Torn.readAll_ok (h : Torn crc rs r k w.file) (hf : w.file.NoFaults) (hk : 21 ≤ k) :
    ∃ w', (readAll crc).run w = (.ok rs, w') ∧ w'.file.bytes = w.file.bytes ∧
      w'.file.NoFaults := by
  obtain ⟨fuel, w₁, hrun, hat, -⟩ := readAll_of_append h.records hf h.bytes
  have hcut := h.cut
  have htake : (encodeRecord crc r).1.take k = header r ++ (tail crc r).take (k - 21) := by
    rw [encodeRecord_eq, List.take_append, length_header,
      List.take_of_length_le (by simpa using hk)]
  rw [htake] at hat
  rw [encodeRecord_eq, List.length_append, length_header] at hcut
  have hlt : ((tail crc r).take (k - 21)).length < (tail crc r).length := by
    rw [List.length_take]
    omega
  obtain ⟨w', hrecord, hsame⟩ := readRecord_of_cut h.last.1 h.last.2 hat hlt
  refine ⟨w', ?_, ?_, ?_⟩
  · rw [hrun, readLoop, run_bind_of_ok hrecord]
    rfl
  · rw [hsame.bytes, hat.bytes, h.bytes, htake]
  · rw [File.NoFaults, hsame.faults]
    exact hat.noFaults

/-- A cut in the header: reading fails. -/
theorem Torn.readAll_error (h : Torn crc rs r k w.file) (hf : w.file.NoFaults) (hk : k < 21) :
    ∃ w', (readAll crc).run w = (.error .unexpectedEOF, w') := by
  obtain ⟨fuel, w₁, hrun, hat, -⟩ := readAll_of_append h.records hf h.bytes
  have hlen : ((encodeRecord crc r).1.take k).length = k := List.length_take_of_le h.cut.le
  have hne : (encodeRecord crc r).1.take k ≠ [] := by
    intro hnil
    rw [hnil, List.length_nil] at hlen
    exact h.pos.ne hlen
  have hshort := readRecord_of_short_header crc hat hne (by rwa [hlen])
  exact ⟨_, by rw [hrun, readLoop, run_bind_of_error hshort]⟩

/-- After a crash in the middle of a write the complete records are read
back exactly when the cut is not in the header of the last one. -/
theorem torn_tail_readable_iff (crc : Bytes → UInt32) (rs : List Record) (r : Record) (k : Nat)
    (f : File) (hf : f.NoFaults) (h : Torn crc rs r k f) :
    (∃ w, («open» crc f).1 = .ok w ∧ ((readAll crc).run w).1 = .ok rs) ↔ 21 ≤ k := by
  constructor
  · rintro ⟨w, hopen, -⟩
    by_contra hk
    obtain ⟨w', hrun⟩ := Torn.readAll_error (w := ⟨{ f with offset := 0 }, 0⟩)
      ⟨h.records, h.last, h.pos, h.cut, h.bytes⟩ hf (not_le.mp hk)
    rw [«open», hrun] at hopen
    cases hopen
  · intro hk
    obtain ⟨w₁, hrun, hbytes, hf₁⟩ := Torn.readAll_ok (w := ⟨{ f with offset := 0 }, 0⟩)
      ⟨h.records, h.last, h.pos, h.cut, h.bytes⟩ hf hk
    -- `Open` may set the next number, but the file stays
    obtain ⟨w, hopen, hfile⟩ : ∃ w, («open» crc f).1 = .ok w ∧ w.file = w₁.file := by
      simp only [«open», hrun]
      cases rs.getLast? with
      | none => exact ⟨w₁, rfl, rfl⟩
      | some last => exact ⟨_, rfl, rfl⟩
    obtain ⟨w', hread, -⟩ := Torn.readAll_ok (w := w)
      ⟨h.records, h.last, h.pos, h.cut, by rw [hfile, hbytes, h.bytes]⟩ (hfile ▸ hf₁) hk
    exact ⟨w, hopen, by rw [hread]⟩

end TornTail

/-- One bit of the remainder, by the reflected polynomial. -/
def shiftIEEE (c : UInt32) : UInt32 :=
  if c &&& 1 = 1 then (c >>> 1) ^^^ 0xEDB88320 else c >>> 1

/-- The checksum `crc32.ChecksumIEEE` that the log is written with. -/
def checksumIEEE (bs : Bytes) : UInt32 :=
  bs.foldl (fun c b => shiftIEEE^[8] (c ^^^ b.toUInt32)) 0xFFFFFFFF ^^^ 0xFFFFFFFF

-- the check value of the polynomial, of the digits one to nine
example : checksumIEEE [49, 50, 51, 52, 53, 54, 55, 56, 57] = 0xCBF43926 := by decide +kernel

/-- A begin record cut after `k` bytes, behind a complete one. -/
def tornFile (crc : Bytes → UInt32) (k : Nat) : File :=
  ⟨encodeAll crc [{ lsn := 0, txnID := 1, type := .recordBegin }] ++
    (encodeRecord crc { lsn := 1, txnID := 2, type := .recordBegin }).1.take k, 0,
    fun _ => false, 0⟩

theorem torn_tornFile (crc : Bytes → UInt32) {k : Nat} (hpos : 0 < k) (hk : k < 25) :
    Torn crc [{ lsn := 0, txnID := 1, type := .recordBegin }]
      { lsn := 1, txnID := 2, type := .recordBegin } k (tornFile crc k) :=
  ⟨by decide, by decide, hpos, by simpa [encodeRecord, body, header] using hk, rfl⟩

/-- One byte of the next record makes the log unreadable. -/
theorem open_fails_on_torn_header :
    Torn checksumIEEE [{ lsn := 0, txnID := 1, type := .recordBegin }]
        { lsn := 1, txnID := 2, type := .recordBegin } 1 (tornFile checksumIEEE 1) ∧
      (tornFile checksumIEEE 1).NoFaults ∧
      («open» checksumIEEE (tornFile checksumIEEE 1)).1 = .error .unexpectedEOF := by
  have htorn := torn_tornFile checksumIEEE (k := 1) (by decide) (by decide)
  obtain ⟨w', hrun⟩ := Torn.readAll_error (w := ⟨tornFile checksumIEEE 1, 0⟩) htorn
    (fun _ => rfl) (by decide)
  refine ⟨htorn, fun _ => rfl, ?_⟩
  have hopen : (readAll checksumIEEE).run ⟨{ tornFile checksumIEEE 1 with offset := 0 }, 0⟩ =
    (.error .unexpectedEOF, w') := hrun
  rw [«open», hopen]

theorem torn_tail_readable_at_22 :
    (∃ w, («open» (fun _ => 0) (tornFile (fun _ => 0) 22)).1 = .ok w ∧
        ((readAll fun _ => 0).run w).1 = .ok [{ lsn := 0, txnID := 1, type := .recordBegin }]) ↔
      21 ≤ 22 :=
  torn_tail_readable_iff (fun _ => 0) [{ lsn := 0, txnID := 1, type := .recordBegin }]
    { lsn := 1, txnID := 2, type := .recordBegin } 22 (tornFile _ 22) (fun _ => rfl)
    (torn_tornFile _ (by decide) (by decide))

end MySQLight.Wal.LogFile
