import MySQLight.Effect.Keeps
import MySQLight.Storage.BufferPool

/-!
What the pool writes, whatever fails.

A call of the operating system may fail at any point, so nothing is
assumed about the outcome of an operation here. What can still be said is
which writes it can have made: the pager writes pages and header fields and
never touches the log, and the pool adds update records to the log and
nothing else. Records that begin and end transactions are left to the
transaction manager.
-/

namespace MySQLight.Storage

open MySQLight.Data MySQLight.Effect MySQLight.Wal Fallible

/-- `d'` is `d` after some writes that all satisfy `P`. -/
structure Disk.Grew (P : Write → Prop) (d d' : Disk) : Prop where
  basePages : d'.basePages = d.basePages
  baseSize : d'.baseSize = d.baseSize
  baseLog : d'.baseLog = d.baseLog
  journal : ∃ delta, d'.journal = delta ++ d.journal ∧ ∀ w ∈ delta, P w

namespace Disk.Grew

variable {P Q : Write → Prop} {d d' d'' : Disk}

theorem refl (P : Write → Prop) (d : Disk) : Grew P d d := ⟨rfl, rfl, rfl, [], rfl, by simp⟩

theorem trans (h : Grew P d d') (h' : Grew P d' d'') : Grew P d d'' := by
  obtain ⟨delta, hjournal, hP⟩ := h.journal
  obtain ⟨delta', hjournal', hP'⟩ := h'.journal
  refine ⟨h'.basePages.trans h.basePages, h'.baseSize.trans h.baseSize, h'.baseLog.trans h.baseLog,
    delta' ++ delta, ?_, ?_⟩
  · rw [hjournal', hjournal, List.append_assoc]
  · intro w hw
    rcases List.mem_append.mp hw with hw | hw
    · exact hP' w hw
    · exact hP w hw

theorem mono (h : Grew P d d') (hPQ : ∀ w, P w → Q w) : Grew Q d d' := by
  obtain ⟨delta, hjournal, hP⟩ := h.journal
  exact ⟨h.basePages, h.baseSize, h.baseLog, delta, hjournal, fun w hw => hPQ w (hP w hw)⟩

instance : Std.Refl (Grew P) := ⟨refl P⟩

instance : IsTrans Disk (Grew P) := ⟨fun _ _ _ => trans⟩

end Disk.Grew

/-- A write to the database file. -/
def Write.IsData : Write → Prop
  | .page _ _ => True
  | .header _ _ => True
  | .append _ => False
  | .truncate => False

/-- A write of the pool: to the database file, or an update record. -/
def Write.OfPool : Write → Prop
  | .page _ _ => True
  | .header _ _ => True
  | .append r => r.type = .recordUpdate
  | .truncate => False

theorem Write.IsData.ofPool {w : Write} (h : w.IsData) : w.OfPool := by
  cases w with
  | page id data => trivial
  | header off src => trivial
  | append r => exact h.elim
  | truncate => exact h

namespace Disk

variable {P : Write → Prop}

theorem keeps_write {w : Write} (hw : P w) : Keeps (Grew P) (Disk.write w) := by
  refine Keeps.get_bind fun d => ?_
  by_cases hfault : d.faults d.clock = true
  · simp only [run_bind, run_set, hfault, if_true]
    exact ⟨rfl, rfl, rfl, [], rfl, by simp⟩
  · simp only [run_bind, run_set, hfault]
    exact ⟨rfl, rfl, rfl, [w], rfl, by simpa using hw⟩

theorem keeps_readAt (id : Nat) : Keeps (Grew P) (Disk.readAt id) := by
  refine Keeps.get_bind fun d => ?_
  by_cases hfault : (d.faults d.clock || decide (d.size ≤ id)) = true
  · simp only [run_bind, run_set, hfault, if_true]
    exact ⟨rfl, rfl, rfl, [], rfl, by simp⟩
  · simp only [run_bind, run_set, hfault]
    exact ⟨rfl, rfl, rfl, [], rfl, by simp⟩

theorem keeps_writeAt {id : Nat} {data : PageData} (hw : P (.page id data)) :
    Keeps (Grew P) (Disk.writeAt id data) := by
  refine .bind .get fun d => ?_
  split
  · exact .bind (.throw _) fun _ => keeps_write hw
  · exact keeps_write hw

theorem keeps_sync : Keeps (Grew P) Disk.sync := by
  refine Keeps.get_bind fun d => ?_
  by_cases hfault : d.faults d.clock = true
  · simp only [run_bind, run_set, hfault, if_true]
    exact ⟨rfl, rfl, rfl, [], rfl, by simp⟩
  · simp only [run_bind, run_set, hfault]
    exact ⟨rfl, rfl, rfl, [], rfl, by simp⟩

end Disk

/-- Without a truncation the log only gets longer. -/
theorem Disk.Grew.log_append {P : Write → Prop} {d d' : Disk} (h : d.Grew P d')
    (htruncate : ¬ P .truncate) :
    ∃ added, d'.log = d.log ++ added ∧ ∀ r ∈ added, P (.append r) := by
  obtain ⟨delta, hjournal, hP⟩ := h.journal
  have hlog : d'.log = delta.foldr Write.onLog d.log := by
    rw [Disk.log, hjournal, h.baseLog, List.foldr_append, Disk.log]
  rw [hlog]
  clear hlog hjournal
  induction delta with
  | nil => exact ⟨[], by simp, by simp⟩
  | cons w delta ih =>
    obtain ⟨hw, hdelta⟩ := List.forall_mem_cons.mp hP
    obtain ⟨added, hlog, hadded⟩ := ih hdelta
    rw [List.foldr_cons, hlog]
    cases w with
    | page id data => exact ⟨added, rfl, hadded⟩
    | header off src => exact ⟨added, rfl, hadded⟩
    | append r =>
      refine ⟨added ++ [r], by simp [Write.onLog], ?_⟩
      simpa [or_imp, forall_and] using ⟨hadded, hw⟩
    | truncate => exact absurd hw htruncate

/-- A page that no write is for is as it was. -/
theorem Disk.Grew.pages_eq {P : Write → Prop} {d d' : Disk} (h : d.Grew P d') {id : Nat}
    (hpage : ∀ data, ¬ P (.page id data)) (hheader : ∀ off src, ¬ P (.header off src)) :
    d'.pages id = d.pages id := by
  obtain ⟨delta, hjournal, hP⟩ := h.journal
  have hpages : d'.pages = delta.foldr Write.onPages d.pages := by
    rw [Disk.pages, hjournal, h.basePages, List.foldr_append, Disk.pages]
  rw [hpages]
  clear hpages hjournal
  induction delta with
  | nil => rfl
  | cons w delta ih =>
    obtain ⟨hw, hdelta⟩ := List.forall_mem_cons.mp hP
    rw [List.foldr_cons]
    cases w with
    | page id' data =>
      have hne : id ≠ id' := by
        rintro rfl
        exact hpage data hw
      rw [Write.onPages, Function.update_of_ne hne]
      exact ih hdelta
    | header off src => exact absurd hw (hheader off src)
    | append r => exact ih hdelta
    | truncate => exact ih hdelta

/-- The writes of the pool add update records to the log. -/
theorem Disk.Grew.log {d d' : Disk} (h : d.Grew Write.OfPool d') :
    ∃ updates, d'.log = d.log ++ updates ∧ ∀ r ∈ updates, r.type = .recordUpdate :=
  h.log_append fun h => h

/-! ### The pager -/

namespace Pager

/-- The files of the pager, before and after. -/
def Grew (P : Write → Prop) (p p' : Pager) : Prop := p.disk.Grew P p'.disk

variable {P : Write → Prop}

instance : Std.Refl (Grew P) := ⟨fun p => .refl P p.disk⟩

instance : IsTrans Pager (Grew P) := ⟨fun _ _ _ => Disk.Grew.trans⟩

theorem keeps_onDisk {α : Type} {x : Fallible Disk Err α} (hx : Keeps (Disk.Grew P) x) :
    Keeps (Grew P) (onDisk x) :=
  .zoom hx fun _ _ h => h

/-- A change of the fields in memory. -/
theorem keeps_modify {f : Pager → Pager} (h : ∀ p, (f p).disk = p.disk) :
    Keeps (Grew P) (modify f : Fallible Pager Err PUnit) :=
  .modify fun p => (h p ▸ Disk.Grew.refl P p.disk : p.disk.Grew P (f p).disk)

theorem keeps_readPage (id : Nat) : Keeps (Grew P) (readPage id) := by
  refine .bind .get fun p => ?_
  split
  · exact .bind (.throw _) fun _ => keeps_onDisk (Disk.keeps_readAt id)
  · exact keeps_onDisk (Disk.keeps_readAt id)

theorem keeps_writePage {id : Nat} (hP : ∀ data, P (.page id data)) (data : Bytes) :
    Keeps (Grew P) (writePage id data) := by
  intro p
  rw [writePage_run_eq]
  split
  · exact .refl _ _
  · split
    · exact keeps_onDisk (Disk.keeps_writeAt (hP _)) p
    · exact .refl _ _

variable (hdata : ∀ w, w.IsData → P w)

include hdata

theorem keeps_writeFreeListHead : Keeps (Grew P) writeFreeListHead :=
  .bind .get fun _ => keeps_onDisk (Disk.keeps_write (hdata _ trivial))

theorem keeps_allocatePage : Keeps (Grew P) allocatePage := by
  refine .bind .get fun p => ?_
  split
  · refine .bind (keeps_readPage _) fun buffer => ?_
    refine .bind (keeps_modify fun _ => rfl) fun _ => ?_
    exact .bind (keeps_writeFreeListHead hdata) fun _ => .pure _
  · refine .bind (keeps_onDisk (Disk.keeps_writeAt (hdata _ trivial))) fun _ => ?_
    refine .bind (keeps_modify fun _ => rfl) fun _ => ?_
    exact .bind (keeps_onDisk (Disk.keeps_write (hdata _ trivial))) fun _ => .pure _

theorem keeps_freePage (id : Nat) : Keeps (Grew P) (freePage id) := by
  refine .bind .get fun p => ?_
  refine .bind (keeps_writePage (fun _ => hdata _ trivial) _) fun _ => ?_
  exact .bind (keeps_modify fun _ => rfl) fun _ => keeps_writeFreeListHead hdata

end Pager

/-! ### The pool -/

namespace BufferPool

/-- The pool has written pages, header fields and update records, and the
log is attached as before. -/
structure Logs (bp bp' : BufferPool) : Prop where
  attached : bp'.walFile.isSome = bp.walFile.isSome
  grew : bp.pager.disk.Grew Write.OfPool bp'.pager.disk

instance : Std.Refl Logs := ⟨fun _ => ⟨rfl, .refl _ _⟩⟩

instance : IsTrans BufferPool Logs :=
  ⟨fun _ _ _ h h' => ⟨h'.attached.trans h.attached, h.grew.trans h'.grew⟩⟩

theorem keeps_onPager {α : Type} {x : Fallible Pager Err α}
    (hx : Keeps (Pager.Grew Write.OfPool) x) : Keeps Logs (onPager x) :=
  .zoom hx fun _ _ h => ⟨rfl, h⟩

/-- A change of the maps. -/
theorem logs_of_eq {bp bp' : BufferPool} (hwal : bp'.walFile = bp.walFile)
    (hpager : bp'.pager = bp.pager) : Logs bp bp' :=
  ⟨by rw [hwal], by rw [hpager]; exact .refl _ _⟩

theorem isData_ofPool : ∀ w : Write, w.IsData → w.OfPool := fun _ => Write.IsData.ofPool

/-- The pool after a call of the operating system that used up a log
number. -/
def logged (bp : BufferPool) (w : WAL) (d : Disk) : BufferPool :=
  { bp with walFile := some ⟨(w.nextLSN + 1) % 2 ^ 64⟩, pager := { bp.pager with disk := d } }

/-- An append adds the record to the log, or fails and changes nothing. -/
theorem writeRecord_run {bp : BufferPool} {w : WAL} (hwal : bp.walFile = some w) (r : Record) :
    (writeRecord r).run bp =
      if bp.pager.disk.faults bp.pager.disk.clock then
        (.error .io, bp.logged w bp.pager.disk.tick)
      else
        (.ok (), bp.logged w (bp.pager.disk.tick.record
          (.append { r with lsn := w.nextLSN }))) := by
  by_cases hfault : bp.pager.disk.faults bp.pager.disk.clock = true
  · simp [writeRecord, hwal, run_bind, WAL.writeRecord, Disk.write, hfault, logged]
  · simp [writeRecord, hwal, run_bind, WAL.writeRecord, Disk.write, hfault, logged]

theorem keeps_writeRecord {r : Record} (hr : r.type = .recordUpdate) :
    Keeps Logs (writeRecord r) := by
  intro bp
  cases hwal : bp.walFile with
  | none =>
    have hrun : (writeRecord r).run bp = (.error .panic, bp) := by
      simp [writeRecord, hwal, run_bind]
    rw [hrun]
    exact refl_of Logs bp
  | some w =>
    rw [writeRecord_run hwal]
    split
    · exact ⟨by simp [logged, hwal], rfl, rfl, rfl, [], rfl, by simp⟩
    · exact ⟨by simp [logged, hwal], rfl, rfl, rfl, [_], rfl, by simpa [Write.OfPool] using hr⟩

theorem keeps_writeWALUpdate (id : Nat) (data : PageData) :
    Keeps Logs (writeWALUpdate id data) := by
  refine .bind .get fun bp => ?_
  split
  · exact .pure _
  · split
    · exact .pure _
    · exact .tryCatch (keeps_writeRecord rfl) fun _ => .pure _

theorem keeps_writePage (id : Nat) (data : Bytes) :
    Keeps Logs (onPager (Pager.writePage id data)) :=
  keeps_onPager (Pager.keeps_writePage (fun _ => trivial) data)

theorem keeps_evict : Keeps Logs evict := by
  refine .bind .get fun bp => .bind (.ofExcept _) fun element => ?_
  split
  · exact .throw _
  · have hforget : Keeps Logs (modify fun bp : BufferPool => bp.forget element.value element :
        Fallible BufferPool Err PUnit) := .modify fun _ => logs_of_eq rfl rfl
    split
    · exact .bind (keeps_writeWALUpdate _ _) fun _ => .bind (keeps_writePage _ _) fun _ => hforget
    · exact hforget

theorem keeps_fetchPage (id : Nat) : Keeps Logs (fetchPage id) := by
  have hload : Keeps Logs (do
      let loadedPage ← onPager (Pager.readPage id)
      modify fun bp => bp.addFrame id loadedPage
      return loadedPage : Fallible BufferPool Err PageData) :=
    .bind (keeps_onPager (Pager.keeps_readPage id)) fun _ =>
      .bind (.modify fun _ => logs_of_eq rfl rfl) fun _ => .pure _
  refine Keeps.get_bind fun bp => ?_
  cases bp.frames.lookup id with
  | some page =>
    cases bp.lruMap.lookup id with
    | none => exact refl_of Logs bp
    | some elem => exact logs_of_eq rfl rfl
  | none =>
    by_cases hfull : bp.capacity ≤ bp.lruMap.keys.length
    · simp only [hfull, if_true]
      exact Keeps.bind keeps_evict (fun _ => hload) bp
    · simp only [hfull, if_false]
      exact hload bp

theorem keeps_unpinPage (id : Nat) (dirty : Bool) : Keeps Logs (unpinPage id dirty) := by
  refine Keeps.get_bind fun bp => ?_
  cases bp.frames.lookup id with
  | none => exact refl_of Logs bp
  | some page =>
    dsimp only
    split
    · exact logs_of_eq rfl rfl
    · exact logs_of_eq rfl rfl

theorem logs_setData (bp : BufferPool) (id : Nat) (data : PageData) :
    Logs bp (bp.setData id data) := by
  rw [setData]
  split
  · exact refl_of Logs bp
  · exact logs_of_eq rfl rfl

theorem keeps_flushPage (id : Nat) : Keeps Logs (flushPage id) := by
  refine .bind .get fun bp => ?_
  split
  · exact .pure _
  · split
    · exact .bind (keeps_writeWALUpdate _ _) fun _ => .bind (keeps_writePage _ _) fun _ =>
        .modify fun _ => logs_of_eq rfl rfl
    · exact .pure _

theorem keeps_enumerate (keys : List Nat) : Keeps Logs (enumerate keys) :=
  keeps_onPager (Pager.keeps_onDisk fun _ => ⟨rfl, rfl, rfl, [], rfl, by simp⟩)

theorem keeps_flushAll : Keeps Logs flushAll :=
  .bind .get fun _ => .bind (keeps_enumerate _) fun _ => .forEach keeps_flushPage _

theorem keeps_rollbackPage (txnID id : Nat) : Keeps Logs (rollbackPage txnID id) := by
  have hdone : Keeps Logs (modify fun bp : BufferPool =>
      { bp with beforeImages := bp.beforeImages.erase id, dirtyTxn := bp.dirtyTxn.erase id } :
      Fallible BufferPool Err PUnit) := .modify fun _ => logs_of_eq rfl rfl
  refine Keeps.get_bind fun bp => ?_
  by_cases htxn : bp.dirtyTxn.lookup id ≠ some txnID
  · rw [if_pos htxn]
    exact refl_of Logs bp
  · rw [if_neg htxn]
    cases bp.beforeImages.lookup id with
    | none => exact refl_of Logs bp
    | some beforeImage =>
      cases bp.frames.lookup id with
      | some page => exact logs_of_eq rfl rfl
      | none => exact Keeps.bind (keeps_writePage _ _) (fun _ => hdone) bp

theorem keeps_rollbackTxn (txnID : Nat) : Keeps Logs (rollbackTxn txnID) :=
  .bind .get fun _ => .bind (keeps_enumerate _) fun _ => .forEach (keeps_rollbackPage txnID) _

theorem keeps_freePage (id : Nat) : Keeps Logs (freePage id) := by
  have hfree : Keeps Logs (onPager (Pager.freePage id)) :=
    keeps_onPager (Pager.keeps_freePage isData_ofPool id)
  refine Keeps.get_bind fun bp => ?_
  cases bp.lruMap.lookup id with
  | none => exact hfree bp
  | some element =>
    have hforget : Logs bp (bp.forget id element) := logs_of_eq rfl rfl
    exact trans_of Logs hforget (hfree _)

/-- Every operation on pages. -/
theorem logs_dataHandler (o : DataOp) (bp : BufferPool) : Logs bp (dataHandler o bp).2 := by
  cases o with
  | fetchPage id => exact keeps_fetchPage id bp
  | unpinPage id dirty => exact keeps_unpinPage id dirty bp
  | setData id data => exact logs_setData bp id data
  | allocatePage => exact keeps_onPager (Pager.keeps_allocatePage isData_ofPool) bp
  | freePage id => exact keeps_freePage id bp

end BufferPool

end MySQLight.Storage
