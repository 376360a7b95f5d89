import MySQLight.Storage.PoolLog
import MySQLight.Wal.Fate

/-!
Recovery that is interrupted and run again.

A crash inside `Recover` keeps some of its writes: page images of the two
passes, and abort records that the second pass appends. The second run
starts from there. Its first pass brings every page that has update records
to the same state as before, so the page writes that survived make no
difference. The abort records do: a transaction that has one is no longer
active, and the second run does not undo it.

Where that shows is said page by page (`Unharmed`), and the result is that
it is exactly where the two runs differ, for every log and every crash
point.
-/

namespace MySQLight.Wal

open MySQLight.Data MySQLight.Effect MySQLight.Storage Fallible

/-- The transaction of the record is active for the analysis pass, so the
second pass undoes the record. -/
def undone (log : List Record) (r : Record) : Bool :=
  ((collectActive log ∅).lookup r.txnID).isSome

/-- The page is the same after both runs. Let `r` be the first update of
the page by an unfinished transaction. If that one has been given an abort
record, its before-image has to come from somewhere else: from the next
unfinished transaction without an abort record that wrote the page, or from
the last update if there is none. -/
def Unharmed (log log' : List Record) (page : Nat) : Prop :=
  ∀ pre r post, log = pre ++ r :: post → updates page r → undone log r →
    (∀ r' ∈ pre, updates page r' → undone log r' = false) →
    undone log' r = false →
    (∀ mid r' post', post = mid ++ r' :: post' → updates page r' → undone log' r' →
      (∀ x ∈ mid, updates page x → undone log' x = false) →
      r'.beforeImage = r.beforeImage) ∧
    ((∀ x ∈ post, updates page x → undone log' x = false) →
      ∀ mid last post', r :: post = mid ++ last :: post' → updates page last →
        (∀ x ∈ post', updates page x = false) → last.afterImage = r.beforeImage)

/-! ### What recovery can have written -/

/-- A page write for one of the update records. -/
def Rewrites (log : List Record) : Write → Prop
  | .page id _ => ∃ r ∈ log, updates id r
  | .append _ => False
  | .truncate => False
  | .header _ _ => False

/-- A write of the two passes over `log`: one of its pages, or an abort
record. -/
def OfPasses (log : List Record) : Write → Prop
  | .page id _ => ∃ r ∈ log, updates id r
  | .append r => r.type = .recordAbort
  | .truncate => False
  | .header _ _ => False

/-- A write of recovery: one of the passes, or the truncation. -/
def OfRecovery (log : List Record) (w : Write) : Prop := w = .truncate ∨ OfPasses log w

variable {log : List Record} {r : Record} {p : Pager}

theorem Rewrites.ofPasses {w : Write} (h : Rewrites log w) : OfPasses log w := by
  cases w with
  | page id data => exact h
  | append r => exact h.elim
  | truncate => exact h
  | header off src => exact h

theorem keeps_writePages {P : Write → Prop} {ws : List (Nat × Bytes)}
    (h : ∀ w ∈ ws, ∀ data, P (.page w.1 data)) :
    Keeps (Pager.Grew P) (pagerWriter.writePages ws) :=
  .forEach_mem fun w hw => Pager.keeps_writePage (h w hw) _

theorem keeps_analysisPass (output : ActiveTxns) :
    Keeps (Pager.Grew (Rewrites log)) (pagerWriter.analysisPass log output) := by
  rw [PageWriter.analysisPass_eq]
  refine .bind (keeps_writePages ?_) fun _ => .pure _
  simp only [redoWrites, List.mem_map, List.mem_filter, decide_eq_true_eq]
  rintro _ ⟨r, ⟨hr, htype⟩, rfl⟩ data
  exact ⟨r, hr, by simp [updates, htype]⟩

theorem keeps_undoRecords (active : ActiveTxns) :
    Keeps (Pager.Grew (OfPasses log)) (forEach (pagerWriter.undoRecord active) log.reverse) := by
  rw [PageWriter.forEach_undoRecord]
  refine keeps_writePages ?_
  simp only [undoWrites, List.mem_map, List.mem_filter, decide_eq_true_eq, List.mem_reverse]
  rintro _ ⟨r, ⟨hr, htype, -⟩, rfl⟩ data
  exact ⟨r, hr, by simp [updates, htype]⟩

theorem keeps_abortActive (log : List Record) (active : ActiveTxns) :
    Keeps (fun s s' => s.2.Grew (OfPasses log) s'.2) (abortActive active) := by
  have : Std.Refl fun s s' : WAL × Disk => s.2.Grew (OfPasses log) s'.2 := ⟨fun s => .refl _ s.2⟩
  have : IsTrans (WAL × Disk) fun s s' => s.2.Grew (OfPasses log) s'.2 :=
    ⟨fun _ _ _ => Disk.Grew.trans⟩
  refine .bind (.zoom (Q := Disk.Grew (OfPasses log)) (fun d => ?_) fun _ _ h => h) fun ids => ?_
  · exact ⟨rfl, rfl, rfl, [], rfl, by simp⟩
  · refine .forEach (fun id => ?_) ids
    refine .bind ?_ fun _ => .pure _
    refine .bind .get fun s => .bind (.modify fun s => .refl _ s.2) fun _ => ?_
    exact .bind (.zoom (Disk.keeps_write (P := OfPasses log) rfl) fun _ _ h => h) fun _ => .pure _

theorem keeps_undoPass (log : List Record) (active : ActiveTxns) (wal : WAL) :
    Keeps (Pager.Grew (OfPasses log)) (pagerWriter.undoPass log active wal) := by
  refine .bind (keeps_undoRecords active) fun _ => ?_
  exact .zoom (keeps_abortActive log active) fun _ _ h => h

theorem recover_grew (hf : p.disk.NoFaults) : p.Grew (OfRecovery p.disk.log) (recover.run p).2 := by
  have hread : (Pager.onDisk Disk.readLog).run p.ticked = (.ok p.disk.log, p.ticked.ticked) :=
    onDisk_readLog_run (p := p.ticked) hf
  have hpasses {q q' : Pager} (h : q.Grew (OfPasses p.disk.log) q') :
      q.Grew (OfRecovery p.disk.log) q' := Disk.Grew.mono h fun _ => .inr
  rw [recover, PageWriter.recover, pagerWriter_onDisk, run_bind_of_ok (onDisk_readLog_run hf),
    run_bind_of_ok hread]
  have hticked : p.Grew (OfRecovery p.disk.log) p.ticked.ticked := ⟨rfl, rfl, rfl, [], rfl, by simp⟩
  refine Disk.Grew.trans hticked (Keeps.bind (R := Pager.Grew (OfRecovery p.disk.log)) ?_ ?_ _)
  · exact fun q => hpasses
      (Disk.Grew.mono (keeps_analysisPass ∅ q) fun _ => Rewrites.ofPasses)
  · intro active
    refine .bind (.tryCatch ?_ fun _ => .pure _) fun _ => .bind ?_ fun _ => ?_
    · exact fun q => hpasses (keeps_undoPass p.disk.log active _ q)
    · exact Pager.keeps_onDisk (Disk.keeps_write (.inl rfl))
    · exact Pager.keeps_onDisk Disk.keeps_sync

/-! ### What survives a crash -/

/-- Cutting off the last writes keeps the others. -/
theorem forall_mem_cut {α : Type} {P : α → Prop} {full old delta : List α} {n : Nat}
    (hcut : (full ++ old).drop n = delta ++ old) (hfull : ∀ w ∈ full, P w) :
    ∀ w ∈ delta, P w := by
  rw [List.drop_append] at hcut
  by_cases hn : n ≤ full.length
  · rw [Nat.sub_eq_zero_of_le hn, List.drop_zero] at hcut
    rw [← List.append_cancel_right hcut]
    exact fun w hw => hfull w (List.mem_of_mem_drop hw)
  · have hlen := congrArg List.length hcut
    simp only [List.length_append, List.length_drop] at hlen
    have hnil : delta = [] := List.length_eq_zero_iff.mp (by omega)
    simp [hnil]

/-- The files as a crash leaves them: some of the writes have been made. -/
theorem before_grew {P : Write → Prop} {d d' : Disk} (h : d.Grew P d') {n : Nat}
    {delta : List Write} (hcut : (d'.before n).journal = delta ++ d.journal) :
    d.Grew (fun w => P w ∧ w ∈ delta) (d'.before n) := by
  obtain ⟨full, hjournal, hfull⟩ := h.journal
  have hcut' : (full ++ d.journal).drop n = delta ++ d.journal := hjournal ▸ hcut
  exact ⟨h.basePages, h.baseSize, h.baseLog, delta, hcut,
    fun w hw => ⟨forall_mem_cut hcut' hfull w hw, hw⟩⟩

/-- A crash inside recovery and before the truncation: some of the writes of
the passes have been made. -/
theorem crashed_grew (hf : p.disk.NoFaults) {n : Nat} {delta : List Write}
    (hcut : ((recover.run p).2.disk.before n).journal = delta ++ p.disk.journal)
    (htruncate : .truncate ∉ delta) :
    p.disk.Grew (OfPasses p.disk.log) ((recover.run p).2.disk.before n) := by
  refine (before_grew (recover_grew hf) hcut).mono ?_
  rintro w ⟨rfl | hpasses, hw⟩
  · exact absurd hw htruncate
  · exact hpasses

/-! ### The second run -/

theorem undone_of_aborts {aborts : List Record} (haborts : ∀ a ∈ aborts, a.type = .recordAbort)
    (h : undone (log ++ aborts) r) : undone log r := by
  induction aborts using List.reverseRecOn with
  | nil => simpa using h
  | append_singleton aborts a ih =>
    have ha : a.type = .recordAbort := haborts a (by simp)
    refine ih (fun a' h' => haborts a' (by simp [h'])) ?_
    rw [undone, collectActive, ← List.append_assoc, List.foldl_append] at h
    simp only [List.foldl_cons, List.foldl_nil, noteActive, ha] at h
    by_cases ht : r.txnID = a.txnID
    · rw [ht, AList.lookup_erase] at h
      cases h
    · rw [AList.lookup_erase_ne ht] at h
      exact h

theorem updates_eq_false (h : r.type = .recordAbort) (page : Nat) : updates page r = false := by
  simp [updates, h]

/-- One more record, and some after it, that are not undone. -/
theorem not_undone_append {pre mid : List Record} {page : Nat}
    (hpre : ∀ x ∈ pre, updates page x → undone log x = false) (hr : undone log r = false)
    (hmid : ∀ x ∈ mid, updates page x → undone log x = false) :
    ∀ x ∈ pre ++ r :: mid, updates page x → undone log x = false := by
  intro x hx hup
  rcases List.mem_append.mp hx with hx | hx
  · exact hpre x hx hup
  · rcases List.mem_cons.mp hx with rfl | hx
    · exact hr
    · exact hmid x hx hup

/-- Undoing the transactions of `log` and undoing those that are left after
some of them were given abort records: the same page exactly when it is
unharmed. -/
theorem undo_again_iff {log' : List Record} {file : Nat → PageData} {page : Nat}
    (hsub : ∀ r, undone log r = false → undone log' r = false)
    (hlen : ∀ r ∈ log, updates page r →
      r.beforeImage.length = PageSize ∧ r.afterImage.length = PageSize) :
    undo (undone log') log (redo (fun _ => true) log file) page =
      undo (undone log) log (redo (fun _ => true) log file) page ↔ Unharmed log log' page := by
  constructor
  · intro heq pre r post hlog hup hactive hfirst hended
    rw [undo_of_first hlog hup hactive hfirst] at heq
    have hr := hlen r (by simp [hlog]) hup
    have hpre : ∀ x ∈ pre, updates page x → undone log' x = false :=
      fun x hx hupx => hsub x (hfirst x hx hupx)
    constructor
    · intro mid r' post' hpost hup' hactive' hmid
      have hlog' : log = (pre ++ r :: mid) ++ r' :: post' := by simp [hlog, hpost]
      rw [undo_of_first hlog' hup' hactive' (not_undone_append hpre hended hmid),
        image_inj (hlen r' (by simp [hlog']) hup').1 hr.1] at heq
      exact heq
    · intro hnone mid last post' hsplit huplast hlast
      have hlog' : log = (pre ++ mid) ++ last :: post' := by simp [hlog, hsplit]
      have hnone' : ∀ x ∈ log, updates page x → undone log' x = false :=
        hlog ▸ not_undone_append hpre hended hnone
      rw [undo_of_forall_not hnone', redo_of_last hlog' huplast rfl
        (fun x hx hupx => by rw [hlast x hx] at hupx; cases hupx),
        image_inj (hlen last (by simp [hlog']) huplast).2 hr.1] at heq
      exact heq
  · intro hunharmed
    by_cases hex : ∃ r ∈ log, updates page r ∧ undone log r
    · obtain ⟨pre, r, post, hlog, ⟨hup, hactive⟩, hpre⟩ := exists_first hex
      have hfirst : ∀ x ∈ pre, updates page x → undone log x = false := by
        intro x hx hupx
        simpa [hupx] using hpre x hx
      have hfirst' : ∀ x ∈ pre, updates page x → undone log' x = false :=
        fun x hx hupx => hsub x (hfirst x hx hupx)
      rw [undo_of_first hlog hup hactive hfirst]
      cases hended : undone log' r with
      | true => exact undo_of_first hlog hup hended hfirst' _
      | false =>
        obtain ⟨hnext, hlast⟩ := hunharmed pre r post hlog hup hactive hfirst hended
        by_cases hex' : ∃ r' ∈ post, updates page r' ∧ undone log' r'
        · obtain ⟨mid, r', post', hpost, ⟨hup', hactive'⟩, hmid⟩ := exists_first hex'
          have hmid' : ∀ x ∈ mid, updates page x → undone log' x = false := by
            intro x hx hupx
            simpa [hupx] using hmid x hx
          have hlog' : log = (pre ++ r :: mid) ++ r' :: post' := by simp [hlog, hpost]
          rw [undo_of_first hlog' hup' hactive' (not_undone_append hfirst' hended hmid'),
            hnext mid r' post' hpost hup' hactive' hmid']
        · have hnone : ∀ x ∈ post, updates page x → undone log' x = false := by
            intro x hx hupx
            simpa using fun hact => hex' ⟨x, hx, hupx, hact⟩
          have hnone' : ∀ x ∈ log, updates page x → undone log' x = false :=
            hlog ▸ not_undone_append hfirst' hended hnone
          have hany : ∃ x ∈ r :: post, updates page x := ⟨r, List.mem_cons_self, hup⟩
          obtain ⟨mid, last, post', hsplit, huplast, hpost'⟩ := exists_last hany
          have hpost : ∀ x ∈ post', updates page x = false := by
            intro x hx
            simpa using hpost' x hx
          have hlog' : log = (pre ++ mid) ++ last :: post' := by simp [hlog, hsplit]
          rw [undo_of_forall_not hnone', redo_of_last hlog' huplast rfl
            (fun x hx hupx => by rw [hpost x hx] at hupx; cases hupx),
            hlast hnone mid last post' hsplit huplast hpost]
    · -- Neither run undoes anything on this page.
      have hnone : ∀ r ∈ log, updates page r → undone log r = false := by
        intro r hr hup
        simpa using fun hactive => hex ⟨r, hr, hup, hactive⟩
      rw [undo_of_forall_not hnone,
        undo_of_forall_not fun r hr hup => hsub r (hnone r hr hup)]

/-! ### A log with a page that cannot be written -/

theorem analysisPass_append (records records' : List Record) (output : ActiveTxns) (p : Pager) :
    (pagerWriter.analysisPass (records ++ records') output).run p =
      (pagerWriter.analysisPass records output >>= pagerWriter.analysisPass records').run p := by
  induction records generalizing output p with
  | nil => rfl
  | cons r records ih =>
    cases htype : r.type with
    | recordUpdate =>
      simp only [List.cons_append, PageWriter.analysisPass, htype, run_bind]
      rcases (pagerWriter.writePage r.pageID r.afterImage).run p with ⟨_ | u, q⟩
      · rfl
      · exact ih output q
    | recordAbort | recordBegin | recordCommit =>
      simp only [List.cons_append, PageWriter.analysisPass, htype]
      exact ih _ p

/-- Recovery stops at the first record whose page is not in the file, with
the records before it redone. -/
theorem recover_stops (hf : p.disk.NoFaults) {pre post : List Record} {bad : Record}
    (hlog : p.disk.log = pre ++ bad :: post) (hpre : ∀ r ∈ pre, Writable p r)
    (htype : bad.type = .recordUpdate) (hlen : bad.afterImage.length = PageSize)
    (hbad : p.pageCount ≤ bad.pageID ∨ p.disk.capacity ≤ bad.pageID) :
    p.Grew (Rewrites pre) (recover.run p).2 ∧ SameHeader p (recover.run p).2 ∧
      (recover.run p).2.disk.pages = redo (fun _ => true) pre p.disk.pages := by
  have hread : (Pager.onDisk Disk.readLog).run p.ticked = (.ok p.disk.log, p.ticked.ticked) :=
    onDisk_readLog_run (p := p.ticked) hf
  have hticked : SameHeader p p.ticked.ticked := ⟨rfl, rfl, rfl, rfl, hf⟩
  have hgrew := @keeps_analysisPass pre ∅ p.ticked.ticked
  obtain ⟨q, hrun, hsame, hpages, -⟩ := analysisPass_run (p := p.ticked.ticked) hf
    (fun r hr => hticked.writable (hpre r hr)) ∅
  rw [hrun] at hgrew
  have hq := hticked.trans hsame
  have hwrite : ∃ e, (Pager.writePage bad.pageID bad.afterImage).run q = (.error e, q) := by
    have hrun := Pager.writePage_run hq.noFaults bad.pageID (image bad.afterImage)
    rw [bytes_image hlen, hq.pageCount, hq.capacity] at hrun
    by_cases hcount : p.pageCount ≤ bad.pageID
    · exact ⟨_, by rw [hrun, if_pos hcount]⟩
    · exact ⟨_, by rw [hrun, if_neg hcount, if_pos (hbad.resolve_left hcount)]⟩
  obtain ⟨e, hwrite⟩ := hwrite
  have hfail : (pagerWriter.analysisPass p.disk.log ∅).run p.ticked.ticked = (.error e, q) := by
    rw [hlog, analysisPass_append, run_bind_of_ok hrun]
    simp only [PageWriter.analysisPass, htype]
    exact run_bind_of_error hwrite _
  have hrecover : recover.run p = (.error e, q) := by
    rw [recover, PageWriter.recover, pagerWriter_onDisk, run_bind_of_ok (onDisk_readLog_run hf),
      run_bind_of_ok hread]
    exact run_bind_of_error hfail _
  have hstart : p.Grew (Rewrites pre) p.ticked.ticked := ⟨rfl, rfl, rfl, [], rfl, by simp⟩
  rw [hrecover]
  exact ⟨hstart.trans hgrew, hq, hpages⟩

/-! ### The equivalence -/

/-- The passes over the log with abort records added, from a file in which
only pages of the log may be different, as far as the same transactions are
undone. -/
theorem passes_again {aborts : List Record} {file file' : Nat → PageData}
    (haborts : ∀ r ∈ aborts, r.type = .recordAbort)
    (hfile : ∀ page, (∀ r ∈ log, updates page r = false) → file' page = file page)
    (lose : Record → Bool) :
    undo lose (log ++ aborts) (redo (fun _ => true) (log ++ aborts) file') =
      undo lose log (redo (fun _ => true) log file) := by
  have hno (keep : Record → Bool) (page : Nat) :
      ∀ r ∈ aborts, updates page r → keep r = false := by
    intro r hr hup
    rw [updates_eq_false (haborts r hr)] at hup
    cases hup
  have hredo : redo (fun _ => true) (log ++ aborts) file' = redo (fun _ => true) log file := by
    funext page
    rw [redo_append, redo_of_forall_not (hno _ page), redo_again (hfile page)]
  have hundo (pages : Nat → PageData) : undo lose (log ++ aborts) pages = undo lose log pages := by
    have hfold : undo lose (log ++ aborts) pages = undo lose log (undo lose aborts pages) := by
      simp [undo]
    have haborted : undo lose aborts pages = pages :=
      funext fun page => undo_of_forall_not (hno lose page) pages
    rw [hfold, haborted]
  rw [hredo, hundo]

/-- For every log with images of whole pages and every crash inside
recovery before the truncation: a second run produces the same pages as
recovery without the crash if and only if every page is unharmed. -/
theorem recover_again_iff {p : Pager} (hf : p.disk.NoFaults)
    (himages : ∀ r ∈ p.disk.log, r.type = .recordUpdate →
      r.beforeImage.length = PageSize ∧ r.afterImage.length = PageSize)
    {n : Nat} {delta : List Write}
    (hcut : ((recover.run p).2.disk.before n).journal = delta ++ p.disk.journal)
    (htruncate : .truncate ∉ delta) :
    (recover.run { p with disk := (recover.run p).2.disk.before n }).2.disk.pages =
        (recover.run p).2.disk.pages ↔
      ∀ page, Unharmed p.disk.log ((recover.run p).2.disk.before n).log page := by
  by_cases hw : ∀ r ∈ p.disk.log, Writable p r
  · have hgrew := crashed_grew hf hcut htruncate
    obtain ⟨q, hrun, hsame, -, hpages⟩ := recover_run hf hw
    rw [hrun] at hgrew ⊢
    obtain ⟨aborts, hlog, haborts⟩ := hgrew.log_append fun h => h
    have hfile (page : Nat) (hno : ∀ r ∈ p.disk.log, updates page r = false) :
        (q.disk.before n).pages page = p.disk.pages page := by
      refine hgrew.pages_eq ?_ fun off src h => h
      rintro data ⟨r, hr, hup⟩
      rw [hno r hr] at hup
      cases hup
    have hw' : ∀ r ∈ (q.disk.before n).log, Writable { p with disk := q.disk.before n } r := by
      intro r hr htype
      rw [hlog] at hr
      rcases List.mem_append.mp hr with hr | hr
      · obtain ⟨hcount, hcap, himage⟩ := hw r hr htype
        exact ⟨hcount, hsame.capacity ▸ hcap, himage⟩
      · rw [haborts r hr] at htype
        cases htype
    obtain ⟨q', hrun', -, -, hpages'⟩ :=
      recover_run (p := { p with disk := q.disk.before n }) hsame.noFaults hw'
    have hsub (r : Record) (hr : undone p.disk.log r = false) :
        undone (q.disk.before n).log r = false := by
      cases hr' : undone (q.disk.before n).log r with
      | false => rfl
      | true => exact (undone_of_aborts haborts (hlog ▸ hr')).symm.trans hr
    have hagain : q'.disk.pages = undo (undone (q.disk.before n).log) p.disk.log
        (redo (fun _ => true) p.disk.log p.disk.pages) := by
      rw [hpages', ← passes_again haborts hfile, ← hlog]
      rfl
    rw [hrun', hagain, hpages, funext_iff]
    refine forall_congr' fun page => undo_again_iff hsub fun r hr hup => himages r hr ?_
    simp only [updates, decide_eq_true_eq] at hup
    exact hup.1
  · -- Recovery stops in its first pass, both times at the same record.
    have hex : ∃ r ∈ p.disk.log, ¬ Writable p r := by simpa using hw
    obtain ⟨pre, bad, post, hsplit, hbad, hpre⟩ := exists_first hex
    have hpre' : ∀ r ∈ pre, Writable p r := fun r hr => not_not.mp (hpre r hr)
    obtain ⟨htype, hbad⟩ := Classical.not_imp.mp hbad
    have himage := himages bad (by simp [hsplit]) htype
    have hmissing : p.pageCount ≤ bad.pageID ∨ p.disk.capacity ≤ bad.pageID := by
      by_contra hin
      exact hbad ⟨by omega, by omega, himage⟩
    obtain ⟨hgrew, hsame, hpages⟩ := recover_stops hf hsplit hpre' htype himage.2 hmissing
    rcases hrun : recover.run p with ⟨result, q⟩
    rw [hrun] at hgrew hsame hpages hcut
    have hcrashed := before_grew hgrew hcut
    obtain ⟨added, hlog, hadded⟩ := hcrashed.log_append fun h => h.1
    have hlog' : (q.disk.before n).log = p.disk.log := by
      have hnil : added = [] := List.eq_nil_iff_forall_not_mem.mpr fun r hr => (hadded r hr).1
      rw [hlog, hnil, List.append_nil]
    have hfile (page : Nat) (hno : ∀ r ∈ pre, updates page r = false) :
        (q.disk.before n).pages page = p.disk.pages page := by
      refine hcrashed.pages_eq ?_ fun off src h => h.1
      rintro data ⟨⟨r, hr, hup⟩, -⟩
      rw [hno r hr] at hup
      cases hup
    obtain ⟨-, -, hpages'⟩ := recover_stops (p := { p with disk := q.disk.before n })
      hsame.noFaults (hlog'.trans hsplit)
      (fun r hr htype => hsame.capacity ▸ hpre' r hr htype) htype himage.2
      (hsame.capacity ▸ hmissing)
    refine iff_of_true ?_ ?_
    · rw [hpages', hpages]
      exact funext fun page => redo_again (hfile page)
    · intro page pre' r post' _ _ hactive _ hended
      rw [hlog', hactive] at hended
      cases hended

/-- Transaction one has overwritten page one and has not ended. -/
def unfinishedPager : Pager where
  disk :=
    { basePages := fun _ => PageData.zero, baseSize := 2,
      baseLog := [{ lsn := 0, txnID := 1, type := .recordBegin }, abortedUpdate], journal := [],
      capacity := 2, capacity_le := Disk.two_le, faults := fun _ => false, orders := fun _ => 0,
      clock := 0 }
  freeListHead := 0
  pageCount := 2
  catalogRootPageID := 0

/-- What recovery writes before it truncates the log. -/
def unfinishedWrites : List Write :=
  [.append { lsn := 2, txnID := 1, type := .recordAbort }, .page 1 PageData.zero, .page 1 onePage]

set_option maxRecDepth 20000 in
theorem unfinished_cut :
    ((recover.run unfinishedPager).2.disk.before 1).journal =
      unfinishedWrites ++ unfinishedPager.disk.journal := by
  decide +kernel

theorem unfinished_images : ∀ r ∈ unfinishedPager.disk.log, r.type = .recordUpdate →
    r.beforeImage.length = PageSize ∧ r.afterImage.length = PageSize := by
  intro r hr htype
  have hmem : r ∈ [{ lsn := 0, txnID := 1, type := .recordBegin }, abortedUpdate] := hr
  simp only [List.mem_cons, List.not_mem_nil, or_false] at hmem
  rcases hmem with rfl | rfl
  · cases htype
  · exact ⟨PageData.zero.length_eq, onePage.length_eq⟩

set_option maxRecDepth 20000 in
/-- The equivalence at a crash just before the truncation. -/
theorem recover_again_at_unfinishedPager :
    (recover.run { unfinishedPager with
        disk := (recover.run unfinishedPager).2.disk.before 1 }).2.disk.pages =
        (recover.run unfinishedPager).2.disk.pages ↔
      ∀ page, Unharmed unfinishedPager.disk.log
        ((recover.run unfinishedPager).2.disk.before 1).log page :=
  recover_again_iff (p := unfinishedPager) (n := 1) (fun _ => rfl) unfinished_images
    unfinished_cut (by simp [unfinishedWrites])

set_option maxRecDepth 20000 in
/-- Recovery takes the update back. With a crash just before the truncation
the second run finds the abort record and leaves the update in the file. -/
theorem recover_again_restores_update :
    (recover.run unfinishedPager).2.disk.pages 1 = PageData.zero ∧
      (recover.run { unfinishedPager with
        disk := (recover.run unfinishedPager).2.disk.before 1 }).2.disk.pages 1 = onePage ∧
      onePage ≠ PageData.zero := by
  refine ⟨by decide +kernel, by decide +kernel, onePage_ne_zero⟩

end MySQLight.Wal
