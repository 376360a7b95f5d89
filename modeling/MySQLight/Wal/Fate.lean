import MySQLight.Wal.Recovery
import Mathlib.Data.List.Induction

/-!
What recovery should produce and what it does produce.

At the end of a log a transaction has one of three fates: it committed,
it aborted, or it is still active. The updates of committed transactions
and of autocommit statements (transaction zero) should be in the recovered
file and no others (`redo` restricted to `winner`). Recovery redoes every
update and then undoes those of the active transactions. The two agree on
a page unless a loser wrote last where nothing undoes it: an aborted
transaction's image, which no pass removes, or a winner's image that the
undo of an earlier active update covers up. `PageRecoverable` says so for
one page in terms of the log alone, and `recover_iff_pageRecoverable`
proves it exact for every log the engine's protocol allows.
-/

namespace MySQLight.Wal

open MySQLight.Data MySQLight.Effect MySQLight.Storage

/-- The log has a record of this kind for the transaction. -/
def hasRecord (kind : RecordType) (log : List Record) (t : Nat) : Bool :=
  log.any fun r => r.type = kind ∧ r.txnID = t

def begun : List Record → Nat → Bool := hasRecord .recordBegin

def committed : List Record → Nat → Bool := hasRecord .recordCommit

def aborted : List Record → Nat → Bool := hasRecord .recordAbort

/-- The transaction began and did not end. -/
def active (log : List Record) (t : Nat) : Bool :=
  begun log t && !committed log t && !aborted log t

/-- The updates of the transaction belong into the recovered file. -/
def winner (log : List Record) (t : Nat) : Bool := t = 0 || committed log t

/-- The record is an update of the page. -/
def updates (page : Nat) (r : Record) : Bool := r.type = .recordUpdate ∧ r.pageID = page

/-- What the record that follows `log` has to satisfy: transactions begin
once and end at most once, update only after their begin and not after
their abort, no two unfinished transactions write one page, and the
before-image is the page with the preceding updates of the transactions
not aborted by then. -/
def RecordOk (pages : Nat → PageData) (log : List Record) (r : Record) : Prop :=
  match r.type with
  | .recordBegin => r.txnID ≠ 0 ∧ begun log r.txnID = false
  | .recordCommit => active log r.txnID
  | .recordAbort => active log r.txnID
  | .recordUpdate =>
    (r.txnID ≠ 0 → begun log r.txnID ∧ aborted log r.txnID = false) ∧
    (∀ r' ∈ log, updates r.pageID r' → r'.txnID ≠ r.txnID → active log r.txnID →
      active log r'.txnID = false) ∧
    r.beforeImage = (redo (fun r' => !aborted log r'.txnID) log pages r.pageID).bytes

/-- A log the protocol allows, from the given pages on. -/
def LogOk (pages : Nat → PageData) (log : List Record) : Prop :=
  ∀ pre r post, log = pre ++ r :: post → RecordOk pages pre r

/-- Recovery restores the page. First clause: a winner's update that
follows an update of a still active transaction survives only if it wrote
what the undo restores. Second clause: where no active transaction wrote
the page, a last update by an aborted transaction does no harm only if it
wrote what the winners before it had left. -/
structure PageRecoverable (pages : Nat → PageData) (log : List Record) (page : Nat) : Prop where
  after_active : ∀ pre r mid w post, log = pre ++ r :: mid ++ w :: post →
    updates page r → active log r.txnID →
    (∀ r' ∈ pre, updates page r' → active log r'.txnID = false) →
    updates page w → winner log w.txnID →
    (∀ r' ∈ post, updates page r' → winner log r'.txnID = false) →
    w.afterImage = r.beforeImage
  after_aborted : ∀ pre r post, log = pre ++ r :: post →
    updates page r → aborted log r.txnID →
    (∀ r' ∈ log, updates page r' → active log r'.txnID = false) →
    (∀ r' ∈ post, updates page r' = false) →
    r.afterImage = (redo (fun r' => winner log r'.txnID) pre pages page).bytes

/-! ### Records and fates along a log -/

theorem hasRecord_append (kind : RecordType) (log log' : List Record) (t : Nat) :
    hasRecord kind (log ++ log') t = (hasRecord kind log t || hasRecord kind log' t) := by
  simp [hasRecord]

theorem hasRecord_snoc (kind : RecordType) (log : List Record) (r : Record) (t : Nat) :
    hasRecord kind (log ++ [r]) t =
      (hasRecord kind log t || decide (r.type = kind ∧ r.txnID = t)) := by
  simp [hasRecord]

theorem hasRecord_of_append {kind : RecordType} {log log' : List Record} {t : Nat}
    (h : hasRecord kind log t) : hasRecord kind (log ++ log') t := by
  rw [hasRecord_append, h, Bool.true_or]

variable {r : Record} {page : Nat} {keep : Record → Bool}

theorem logOk_snoc {pages : Nat → PageData} {log : List Record} :
    LogOk pages (log ++ [r]) ↔ LogOk pages log ∧ RecordOk pages log r := by
  constructor
  · intro h
    refine ⟨fun pre r' post heq => h pre r' (post ++ [r]) ?_, h log r [] rfl⟩
    rw [heq]
    simp
  · rintro ⟨hlog, hr⟩ pre r' post heq
    -- The record is the new one, or it stands in the old log.
    rcases List.eq_nil_or_concat' post with rfl | ⟨post, r'', rfl⟩
    · obtain ⟨rfl, hsingle⟩ := List.append_inj' heq rfl
      cases hsingle
      exact hr
    · have heq' : log ++ [r] = (pre ++ r' :: post) ++ [r''] := by simpa using heq
      obtain ⟨hpre, -⟩ := List.append_inj' heq' rfl
      exact hlog pre r' post hpre

theorem LogOk.of_append {pages : Nat → PageData} {log log' : List Record}
    (h : LogOk pages (log ++ log')) : LogOk pages log := by
  intro pre r post heq
  exact h pre r (post ++ log') (by rw [heq]; simp)

variable {pages : Nat → PageData} {log : List Record}

/-- A transaction never ends twice, and never ends without having begun;
transaction zero has no records of these kinds. -/
theorem LogOk.fates (h : LogOk pages log) (t : Nat) :
    (begun log t = false → committed log t = false ∧ aborted log t = false) ∧
    ¬ (committed log t ∧ aborted log t) ∧ (t = 0 → begun log t = false) := by
  induction log using List.reverseRecOn with
  | nil => simp [begun, committed, aborted, hasRecord]
  | append_singleton log r ih =>
    obtain ⟨hlog, hr⟩ := logOk_snoc.mp h
    obtain ⟨hbegun, hboth, hzero⟩ := ih hlog
    simp only [begun, committed, aborted, hasRecord_snoc] at *
    simp only [RecordOk, active, begun, committed, aborted] at hr
    by_cases ht : r.txnID = t
    · subst ht
      rcases htype : r.type with _ | _ | _ | _ <;> rw [htype] at hr <;> simp_all
    · simp only [ht, and_false, decide_false, Bool.or_false]
      exact ⟨hbegun, hboth, hzero⟩

theorem LogOk.not_aborted_of_winner (h : LogOk pages log) {t : Nat} (ht : winner log t) :
    aborted log t = false := by
  obtain ⟨hbegun, hboth, hzero⟩ := h.fates t
  simp only [winner, Bool.or_eq_true, decide_eq_true_eq] at ht
  rcases ht with ht | ht
  · exact (hbegun (hzero ht)).2
  · cases habort : aborted log t with
    | false => rfl
    | true => exact absurd ⟨ht, habort⟩ hboth

/-- Whoever wrote an update has begun, unless it was an autocommit
statement. -/
theorem LogOk.begun_of_mem (h : LogOk pages log) (hr : r ∈ log) (hup : updates page r)
    (ht : r.txnID ≠ 0) : begun log r.txnID := by
  obtain ⟨pre, post, rfl⟩ := List.append_of_mem hr
  have hok := h pre r post rfl
  have htype : r.type = .recordUpdate := by
    simp only [updates, decide_eq_true_eq] at hup
    exact hup.1
  simp only [RecordOk, htype] at hok
  exact hasRecord_of_append (hok.1 ht).1

/-- The writer of an update has exactly one of the three fates. -/
theorem LogOk.fate_cases (h : LogOk pages log) (hr : r ∈ log) (hup : updates page r) :
    winner log r.txnID ∨ active log r.txnID ∨ aborted log r.txnID := by
  by_cases hzero : r.txnID = 0
  · exact .inl (by simp [winner, hzero])
  · have hbegun := h.begun_of_mem hr hup hzero
    cases hcommit : committed log r.txnID with
    | true => exact .inl (by simp [winner, hcommit])
    | false =>
      cases habort : aborted log r.txnID with
      | true => exact .inr (.inr rfl)
      | false => exact .inr (.inl (by simp [active, hbegun, hcommit, habort]))

theorem not_winner_of_active (h : LogOk pages log) {t : Nat} (ht : active log t) :
    winner log t = false := by
  simp only [active, Bool.and_eq_true, Bool.not_eq_true'] at ht
  obtain ⟨⟨hbegun, hcommit⟩, -⟩ := ht
  have hzero := (h.fates t).2.2
  simp only [winner, hcommit, Bool.or_false, decide_eq_false_iff_not]
  intro ht0
  rw [hzero ht0] at hbegun
  cases hbegun

/-- The set the analysis pass collects is the set of active transactions. -/
theorem LogOk.collectActive_lookup (h : LogOk pages log) (t : Nat) :
    ((collectActive log ∅).lookup t).isSome = active log t := by
  induction log using List.reverseRecOn with
  | nil => simp [collectActive, active, begun, hasRecord]
  | append_singleton log r ih =>
    obtain ⟨hlog, hr⟩ := logOk_snoc.mp h
    have hfates := hlog.fates t
    have ih := ih hlog
    have hsnoc : collectActive (log ++ [r]) ∅ = noteActive (collectActive log ∅) r := by
      simp [collectActive]
    rw [hsnoc]
    simp only [active, begun, committed, aborted, hasRecord_snoc] at *
    simp only [RecordOk, active, begun, committed, aborted] at hr
    by_cases ht : r.txnID = t
    · subst ht
      rcases htype : r.type with _ | _ | _ | _ <;> rw [htype] at hr <;>
        simp_all [noteActive]
    · rcases htype : r.type with _ | _ | _ | _ <;>
        simp [noteActive, htype, ht, AList.lookup_insert_ne (Ne.symm ht),
          AList.lookup_erase_ne (Ne.symm ht), ih]

/-! ### The passes, page by page -/

theorem redo_append (keep : Record → Bool) (log log' : List Record) (pages : Nat → PageData) :
    redo keep (log ++ log') pages = redo keep log' (redo keep log pages) := by
  simp [redo]

/-- No selected update of the page: the page stays. -/
theorem redo_of_forall_not (h : ∀ r ∈ log, updates page r → keep r = false)
    (pages : Nat → PageData) : redo keep log pages page = pages page := by
  induction log using List.reverseRecOn with
  | nil => rfl
  | append_singleton log r ih =>
    rw [redo_append]
    have hr := h r (by simp)
    have hrest := ih fun r' h' => h r' (by simp [h'])
    simp only [updates, decide_eq_true_eq] at hr
    simp only [redo, List.foldl_cons, List.foldl_nil] at hrest ⊢
    by_cases hsel : r.type = .recordUpdate ∧ keep r
    · have hpage : page ≠ r.pageID := by
        rintro rfl
        simp [hr ⟨hsel.1, rfl⟩] at hsel
      rw [if_pos hsel, Function.update_of_ne hpage]
      exact hrest
    · rw [if_neg hsel]
      exact hrest

/-- The last selected update of the page decides. -/
theorem redo_of_last {pre post : List Record} (hlog : log = pre ++ r :: post) (hup : updates page r)
    (hkeep : keep r) (h : ∀ r' ∈ post, updates page r' → keep r' = false) (pages : Nat → PageData) :
    redo keep log pages page = image r.afterImage := by
  simp only [updates, decide_eq_true_eq] at hup
  have hsplit : log = (pre ++ [r]) ++ post := by simpa using hlog
  rw [hsplit, redo_append, redo_of_forall_not h, redo_append]
  simp [redo, hup, hkeep]

theorem redo_congr {keep' : Record → Bool} (h : ∀ r ∈ log, updates page r → keep r = keep' r)
    (pages : Nat → PageData) : redo keep log pages page = redo keep' log pages page := by
  induction log using List.reverseRecOn with
  | nil => rfl
  | append_singleton log r ih =>
    have hr := h r (by simp)
    have hrest := ih fun r' h' => h r' (by simp [h'])
    rw [redo_append, redo_append]
    simp only [updates, decide_eq_true_eq] at hr
    simp only [redo, List.foldl_cons, List.foldl_nil] at hrest ⊢
    by_cases hup : r.type = .recordUpdate ∧ r.pageID = page
    · rw [hr hup]
      obtain ⟨htype, rfl⟩ := hup
      by_cases hkeep : keep' r <;> simp [htype, hkeep, hrest]
    · by_cases htype : r.type = .recordUpdate
      · have hpage : page ≠ r.pageID := fun he => hup ⟨htype, he.symm⟩
        split <;> split <;> simp [Function.update_of_ne hpage, hrest]
      · simp [htype, hrest]

/-- No update of the page is undone: the page stays. -/
theorem undo_of_forall_not {lose : Record → Bool} (h : ∀ r ∈ log, updates page r → lose r = false)
    (pages : Nat → PageData) : undo lose log pages page = pages page := by
  induction log with
  | nil => rfl
  | cons r log ih =>
    have hr := h r (by simp)
    have hrest := ih fun r' h' => h r' (by simp [h'])
    simp only [updates, decide_eq_true_eq] at hr
    simp only [undo, List.foldr_cons] at hrest ⊢
    by_cases hsel : r.type = .recordUpdate ∧ lose r
    · have hpage : page ≠ r.pageID := by
        rintro rfl
        simp [hr ⟨hsel.1, rfl⟩] at hsel
      rw [if_pos hsel, Function.update_of_ne hpage]
      exact hrest
    · rw [if_neg hsel]
      exact hrest

/-- The first undone update of the page decides. -/
theorem undo_of_first {lose : Record → Bool} {pre post : List Record}
    (hlog : log = pre ++ r :: post) (hup : updates page r) (hlose : lose r)
    (h : ∀ r' ∈ pre, updates page r' → lose r' = false) (pages : Nat → PageData) :
    undo lose log pages page = image r.beforeImage := by
  simp only [updates, decide_eq_true_eq] at hup
  have hfold : undo lose log pages = undo lose pre (undo lose (r :: post) pages) := by
    simp [hlog, undo]
  rw [hfold, undo_of_forall_not h]
  simp [undo, hup, hlose]

/-! ### Recovery against its purpose -/

theorem exists_first {α : Type} {sel : α → Prop} {xs : List α} (h : ∃ x ∈ xs, sel x) :
    ∃ pre x post, xs = pre ++ x :: post ∧ sel x ∧ ∀ y ∈ pre, ¬ sel y := by
  induction xs with
  | nil => simp at h
  | cons a xs ih =>
    by_cases ha : sel a
    · exact ⟨[], a, xs, rfl, ha, by simp⟩
    · obtain ⟨x, hx, hsel⟩ := h
      rcases List.mem_cons.mp hx with rfl | hx
      · exact absurd hsel ha
      · obtain ⟨pre, y, post, rfl, hy, hpre⟩ := ih ⟨x, hx, hsel⟩
        refine ⟨a :: pre, y, post, rfl, hy, ?_⟩
        intro z hz
        rcases List.mem_cons.mp hz with rfl | hz
        · exact ha
        · exact hpre z hz

theorem exists_last {α : Type} {sel : α → Prop} {xs : List α} (h : ∃ x ∈ xs, sel x) :
    ∃ pre x post, xs = pre ++ x :: post ∧ sel x ∧ ∀ y ∈ post, ¬ sel y := by
  have hrev : ∃ x ∈ xs.reverse, sel x := by simpa using h
  obtain ⟨pre, x, post, heq, hx, hpre⟩ := exists_first hrev
  refine ⟨post.reverse, x, pre.reverse, ?_, hx, by simpa using hpre⟩
  rw [← List.reverse_reverse xs, heq]
  simp

/-- The first pass makes up for any difference in pages that have update
records. -/
theorem redo_again {file file' : Nat → PageData}
    (hfile : (∀ r ∈ log, updates page r = false) → file' page = file page) :
    redo (fun _ => true) log file' page = redo (fun _ => true) log file page := by
  by_cases hex : ∃ r ∈ log, updates page r
  · obtain ⟨pre, r, post, rfl, hup, hpost⟩ := exists_last hex
    have hlast : ∀ r' ∈ post, updates page r' → true = false := fun r' hr' hup' =>
      absurd hup' (hpost r' hr')
    rw [redo_of_last rfl hup rfl hlast, redo_of_last rfl hup rfl hlast]
  · have hno : ∀ r ∈ log, updates page r = false := by
      intro r hr
      simpa using fun hup => hex ⟨r, hr, hup⟩
    have hno' : ∀ r ∈ log, updates page r → true = false := by
      intro r hr hup
      rw [hno r hr] at hup
      cases hup
    rw [redo_of_forall_not hno', redo_of_forall_not hno', hfile hno]

/-- The page as the winners of the whole log leave it. -/
def committedPages (log : List Record) (pages : Nat → PageData) : Nat → PageData :=
  redo (fun r => winner log r.txnID) log pages

/-- The before-image of the first update by an active transaction is the
page as the winners before it left it: whoever wrote the page before and
was not aborted had finished, because two unfinished transactions do not
write one page. -/
theorem LogOk.beforeImage_eq {pre post : List Record} (h : LogOk pages (pre ++ r :: post))
    (hup : updates page r) (hactive : active (pre ++ r :: post) r.txnID)
    (hfirst : ∀ r' ∈ pre, updates page r' → active (pre ++ r :: post) r'.txnID = false) :
    r.beforeImage =
      (redo (fun r' => winner (pre ++ r :: post) r'.txnID) pre pages page).bytes := by
  have hpre : LogOk pages pre := h.of_append
  have hok := h pre r post rfl
  simp only [updates, decide_eq_true_eq] at hup
  obtain ⟨htype, rfl⟩ := hup
  simp only [RecordOk, htype] at hok
  obtain ⟨hbegin, hconcurrent, hbefore⟩ := hok
  have hzero : r.txnID ≠ 0 := by
    intro h0
    have := (h.fates r.txnID).2.2 h0
    simp [active, this] at hactive
  -- Unfinished at the end of the log, the writer was unfinished at its update.
  have hactive_pre : active pre r.txnID := by
    simp only [active, begun, committed, aborted, hasRecord_append, Bool.and_eq_true,
      Bool.not_eq_true', Bool.or_eq_false_iff] at hactive ⊢
    exact ⟨⟨(hbegin hzero).1, hactive.1.2.1⟩, hactive.2.1⟩
  rw [hbefore, redo_congr]
  intro r' hr' hup'
  have hne : r'.txnID ≠ r.txnID := by
    intro he
    have := hfirst r' hr' hup'
    rw [he, hactive] at this
    cases this
  have hfinished : active pre r'.txnID = false := hconcurrent r' hr' hup' hne hactive_pre
  rw [Bool.eq_iff_iff]
  constructor
  · intro hnot
    rcases hpre.fate_cases hr' hup' with hwin | hact | habort
    · simp only [winner, Bool.or_eq_true, decide_eq_true_eq] at hwin ⊢
      exact hwin.imp_right hasRecord_of_append
    · rw [hfinished] at hact
      cases hact
    · rw [habort] at hnot
      cases hnot
  · intro hwin
    have hnot := h.not_aborted_of_winner hwin
    simp only [aborted, hasRecord_append, Bool.or_eq_false_iff] at hnot
    simp only [aborted, hnot.1, Bool.not_false]

theorem image_inj {bs bs' : Bytes} (h : bs.length = PageSize) (h' : bs'.length = PageSize) :
    image bs = image bs' ↔ bs = bs' := by
  constructor
  · intro heq
    rw [← bytes_image h, heq, bytes_image h']
  · rintro rfl
    rfl

theorem image_eq_iff {bs : Bytes} (h : bs.length = PageSize) (data : PageData) :
    image bs = data ↔ bs = data.bytes := by
  rw [← image_inj h data.length_eq, image_bytes]

/-- The two passes give a page the winners' contents exactly when the page
is recoverable. `file` is the database file at the crash: pages without
update records still have their contents from the start of the log. -/
theorem LogOk.recovered_iff (h : LogOk pages log) {file : Nat → PageData}
    (hfile : (∀ r ∈ log, updates page r = false) → file page = pages page)
    (hlen : ∀ r ∈ log, updates page r →
      r.beforeImage.length = PageSize ∧ r.afterImage.length = PageSize) :
    undo (fun r => active log r.txnID) log (redo (fun _ => true) log file) page =
      committedPages log pages page ↔ PageRecoverable pages log page := by
  constructor
  · intro heq
    constructor
    · intro pre r mid w post hlog hup hactive hfirst hupw hwin hlast
      have hlog' : log = pre ++ r :: (mid ++ w :: post) := by simpa using hlog
      have hr : r ∈ log := by simp [hlog]
      have hw : w ∈ log := by simp [hlog]
      rw [committedPages, redo_of_last hlog hupw hwin hlast,
        undo_of_first hlog' hup hactive hfirst,
        image_inj (hlen r hr hup).1 (hlen w hw hupw).2] at heq
      exact heq.symm
    · rintro pre r post rfl hup haborted hnone hlast
      have hlose : winner (pre ++ r :: post) r.txnID = false := by
        cases hwin : winner (pre ++ r :: post) r.txnID with
        | false => rfl
        | true =>
          rw [h.not_aborted_of_winner hwin] at haborted
          cases haborted
      have hcommitted : committedPages (pre ++ r :: post) pages page =
          redo (fun r' => winner (pre ++ r :: post) r'.txnID) pre pages page := by
        rw [committedPages, redo_append]
        apply redo_of_forall_not
        intro r' hr' hup'
        rcases List.mem_cons.mp hr' with rfl | hr'
        · exact hlose
        · rw [hlast r' hr'] at hup'
          cases hup'
      rw [undo_of_forall_not hnone, redo_of_last rfl hup rfl
        (fun r' hr' hup' => by rw [hlast r' hr'] at hup'; cases hup'), hcommitted,
        image_eq_iff (hlen r (by simp) hup).2] at heq
      exact heq
  · intro hrec
    by_cases hex : ∃ r ∈ log, updates page r ∧ active log r.txnID
    · -- The first active update decides what recovery leaves.
      obtain ⟨pre, r, post, rfl, ⟨hup, hactive⟩, hpre⟩ := exists_first hex
      have hfirst : ∀ r' ∈ pre, updates page r' → active (pre ++ r :: post) r'.txnID = false := by
        intro r' hr' hup'
        simpa [hup'] using hpre r' hr'
      rw [undo_of_first rfl hup hactive hfirst]
      by_cases hwin : ∃ w ∈ post, updates page w ∧ winner (pre ++ r :: post) w.txnID
      · obtain ⟨mid, w, post, rfl, ⟨hupw, hw⟩, hpost⟩ := exists_last hwin
        have hsplit : pre ++ r :: (mid ++ w :: post) = pre ++ r :: mid ++ w :: post := by simp
        have hlast : ∀ r' ∈ post, updates page r' →
            winner (pre ++ r :: (mid ++ w :: post)) r'.txnID = false := by
          intro r' hr' hup'
          simpa [hup'] using hpost r' hr'
        have hsame := hrec.after_active pre r mid w post hsplit hup hactive hfirst hupw hw hlast
        rw [committedPages, redo_of_last hsplit hupw hw hlast, hsame]
      · have hnone : ∀ w ∈ r :: post, updates page w →
            winner (pre ++ r :: post) w.txnID = false := by
          intro w hw hupw
          rcases List.mem_cons.mp hw with rfl | hw
          · exact not_winner_of_active h hactive
          · simpa using fun hwinner => hwin ⟨w, hw, hupw, hwinner⟩
        rw [committedPages, redo_append, redo_of_forall_not hnone,
          image_eq_iff (hlen r (by simp) hup).1]
        exact h.beforeImage_eq hup hactive hfirst
    · -- Nothing is undone; the last update of the page stays.
      have hnone : ∀ r ∈ log, updates page r → active log r.txnID = false := by
        intro r hr hup
        simpa using fun hactive => hex ⟨r, hr, hup, hactive⟩
      rw [undo_of_forall_not hnone]
      by_cases hany : ∃ r ∈ log, updates page r
      · obtain ⟨pre, r, post, rfl, hup, hpost⟩ := exists_last hany
        have hlast : ∀ r' ∈ post, updates page r' = false := by
          intro r' hr'
          simpa using hpost r' hr'
        have hlast' (keep : Record → Bool) : ∀ r' ∈ post, updates page r' → keep r' = false := by
          intro r' hr' hup'
          rw [hlast r' hr'] at hup'
          cases hup'
        rw [redo_of_last rfl hup rfl (hlast' _)]
        cases hwin : winner (pre ++ r :: post) r.txnID with
        | true => rw [committedPages, redo_of_last rfl hup hwin (hlast' _)]
        | false =>
          have haborted : aborted (pre ++ r :: post) r.txnID := by
            rcases h.fate_cases (by simp) hup with hw | hactive | habort
            · rw [hwin] at hw
              cases hw
            · rw [hnone r (by simp) hup] at hactive
              cases hactive
            · exact habort
          have hsame := hrec.after_aborted pre r post rfl hup haborted hnone hlast
          have htail : ∀ r' ∈ r :: post, updates page r' →
              winner (pre ++ r :: post) r'.txnID = false := by
            intro r' hr' hup'
            rcases List.mem_cons.mp hr' with rfl | hr'
            · exact hwin
            · exact hlast' (fun r' => winner _ r'.txnID) r' hr' hup'
          rw [committedPages, redo_append, redo_of_forall_not htail,
            image_eq_iff (hlen r (by simp) hup).2]
          exact hsame
      · have hno : ∀ r ∈ log, updates page r = false := by
          intro r hr
          simpa using fun hup => hany ⟨r, hr, hup⟩
        have hno' (keep : Record → Bool) : ∀ r ∈ log, updates page r → keep r = false := by
          intro r hr hup
          rw [hno r hr] at hup
          cases hup
        rw [committedPages, redo_of_forall_not (hno' _), redo_of_forall_not (hno' _), hfile hno]

/-- Recovery, run on the file and log a crash left behind, produces
exactly the winners' pages if and only if every page is recoverable. -/
theorem recover_iff_pageRecoverable {p : Pager} {pages : Nat → PageData}
    (hf : p.disk.NoFaults) (hw : ∀ r ∈ p.disk.log, Writable p r)
    (hlog : LogOk pages p.disk.log)
    (hfile : ∀ page, (∀ r ∈ p.disk.log, updates page r = false) →
      p.disk.pages page = pages page) :
    (recover.run p).1 = .ok () ∧
      ((recover.run p).2.disk.pages = committedPages p.disk.log pages ↔
        ∀ page, PageRecoverable pages p.disk.log page) := by
  obtain ⟨q, hrun, -, -, hpages⟩ := recover_run hf hw
  have hactive : (fun r : Record => ((collectActive p.disk.log ∅).lookup r.txnID).isSome) =
      fun r => active p.disk.log r.txnID := by
    funext r
    exact hlog.collectActive_lookup r.txnID
  have hpage (page : Nat) :
      q.disk.pages page = committedPages p.disk.log pages page ↔
        PageRecoverable pages p.disk.log page := by
    rw [hpages, hactive]
    apply hlog.recovered_iff (hfile page)
    intro r hr hup
    simp only [updates, decide_eq_true_eq] at hup
    exact (hw r hr hup.1).2.2
  rw [hrun]
  refine ⟨rfl, ?_⟩
  rw [funext_iff]
  exact forall_congr' hpage

/-- A page of ones. -/
def onePage : PageData := ⟨List.replicate PageSize 1, by simp⟩

theorem onePage_ne_zero : onePage ≠ PageData.zero := by
  intro h
  have hhead : (List.replicate PageSize (1 : UInt8)).head? =
      (List.replicate PageSize (0 : UInt8)).head? := congrArg (fun d => d.bytes.head?) h
  rw [List.head?_replicate, List.head?_replicate] at hhead
  revert hhead
  decide

/-- Transaction one overwrites page one. -/
def abortedUpdate : Record :=
  { lsn := 1, txnID := 1, type := .recordUpdate, pageID := 1,
    beforeImage := PageData.zero.bytes, afterImage := onePage.bytes }

/-- A log in which transaction one overwrites page one and aborts. -/
def abortedLog : List Record :=
  [{ lsn := 0, txnID := 1, type := .recordBegin }, abortedUpdate,
   { lsn := 2, txnID := 1, type := .recordAbort }]

/-- The file at the crash: two pages of zeros, page one as it was before
the aborted transaction. -/
def abortedPager : Pager where
  disk :=
    { basePages := fun _ => PageData.zero, baseSize := 2, baseLog := abortedLog, journal := [],
      capacity := 2, capacity_le := Disk.two_le, faults := fun _ => false, orders := fun _ => 0,
      clock := 0 }
  freeListHead := 0
  pageCount := 2
  catalogRootPageID := 0

theorem logOk_abortedLog : LogOk (fun _ => PageData.zero) abortedLog := by
  intro pre r post h
  -- The three splits of the log.
  rcases pre with _ | ⟨r₁, _ | ⟨r₂, _ | ⟨r₃, pre⟩⟩⟩
  · cases h
    exact ⟨by decide, by decide⟩
  · cases h
    exact ⟨fun _ => by decide, by simp [updates], rfl⟩
  · cases h
    show active _ _ = true
    decide
  · simp [abortedLog] at h

theorem writable_abortedLog : ∀ r ∈ abortedPager.disk.log, Writable abortedPager r := by
  intro r hr
  have hmem : r ∈ abortedLog := hr
  simp only [abortedLog, List.mem_cons, List.not_mem_nil, or_false] at hmem
  rcases hmem with rfl | rfl | rfl
  · intro htype
    cases htype
  · intro _
    exact ⟨by decide, by decide, PageData.zero.length_eq, onePage.length_eq⟩
  · intro htype
    cases htype

/-- The equivalence at the aborted transaction. -/
theorem recover_iff_at_abortedPager :
    (recover.run abortedPager).1 = .ok () ∧
      ((recover.run abortedPager).2.disk.pages =
          committedPages abortedPager.disk.log (fun _ => PageData.zero) ↔
        ∀ page, PageRecoverable (fun _ => PageData.zero) abortedPager.disk.log page) :=
  recover_iff_pageRecoverable (fun _ => rfl) writable_abortedLog logOk_abortedLog
    (fun _ _ => rfl)

/-- The log is one the protocol allows, transaction one aborted, page one
is untouched in the file, and recovery writes the aborted image into it. -/
theorem recover_restores_aborted_update :
    LogOk (fun _ => PageData.zero) abortedPager.disk.log ∧
      abortedPager.disk.pages 1 = PageData.zero ∧
      committedPages abortedPager.disk.log (fun _ => PageData.zero) 1 = PageData.zero ∧
      (recover.run abortedPager).2.disk.pages 1 = onePage ∧
      onePage ≠ PageData.zero := by
  refine ⟨logOk_abortedLog, rfl, rfl, ?_, onePage_ne_zero⟩
  obtain ⟨q, hrun, -, -, hpages⟩ := recover_run (p := abortedPager) (fun _ => rfl)
    writable_abortedLog
  rw [hrun]
  show q.disk.pages 1 = onePage
  rw [hpages, undo_of_forall_not]
  · have hlog : abortedPager.disk.log = [{ lsn := 0, txnID := 1, type := .recordBegin }] ++
        abortedUpdate :: [{ lsn := 2, txnID := 1, type := .recordAbort }] := rfl
    rw [redo_of_last hlog rfl rfl (by simp [updates])]
    exact image_bytes onePage
  · intro r hr hup
    have hmem : r ∈ abortedLog := hr
    refine (logOk_abortedLog.collectActive_lookup r.txnID).trans ?_
    simp only [abortedLog, List.mem_cons, List.not_mem_nil, or_false] at hmem
    rcases hmem with rfl | rfl | rfl <;> decide

/-- Which pages had reached the file before the crash does not matter: what
recovery makes of them follows from the log and the pages it does not name. -/
theorem recover_of_same_log {p p' : Pager} (hf : p.disk.NoFaults) (hf' : p'.disk.NoFaults)
    (hw : ∀ r ∈ p.disk.log, Writable p r) (hw' : ∀ r ∈ p'.disk.log, Writable p' r)
    (hlog : p'.disk.log = p.disk.log)
    (hfile : ∀ page, (∀ r ∈ p.disk.log, updates page r = false) →
      p'.disk.pages page = p.disk.pages page) :
    (recover.run p').1 = .ok () ∧
      (recover.run p').2.disk.pages = (recover.run p).2.disk.pages := by
  obtain ⟨q, hrun, -, -, hpages⟩ := recover_run hf hw
  obtain ⟨q', hrun', -, -, hpages'⟩ := recover_run hf' hw'
  have hredo : redo (fun _ => true) p.disk.log p'.disk.pages =
      redo (fun _ => true) p.disk.log p.disk.pages := funext fun page => redo_again (hfile page)
  rw [hrun, hrun']
  refine ⟨rfl, ?_⟩
  rw [hpages, hpages', hlog, hredo]

theorem recover_of_same_log_flushed :
    (recover.run (abortedPager.wrote (.page 1 onePage))).2.disk.pages =
      (recover.run abortedPager).2.disk.pages := by
  have hw : ∀ r ∈ (abortedPager.wrote (.page 1 onePage)).disk.log,
      Writable (abortedPager.wrote (.page 1 onePage)) r := writable_abortedLog
  refine (recover_of_same_log (fun _ => rfl) (fun _ => rfl) writable_abortedLog hw rfl
    fun page hno => Function.update_of_ne ?_ ..).2
  rintro rfl
  have hupdate := hno abortedUpdate (List.mem_cons_of_mem _ List.mem_cons_self)
  simp [updates, abortedUpdate] at hupdate

end MySQLight.Wal
