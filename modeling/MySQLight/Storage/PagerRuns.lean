import Mathlib.Data.Finset.Basic
import MySQLight.Effect.Runs
import MySQLight.Storage.Pager

/-!
The pager over whole runs.

A session is a pager with a record of what its clients may believe: the
pages that were handed out and not yet freed, and the pages that were freed
and not yet handed out again, the last one first. The invariant says where
the pager keeps these: the free pages are the chain of links that starts at
the head, all in the pages themselves, and the head and the page count are
in the header page as they are in memory.

The page count is a `uint32` that is incremented without a check, and a
field of the header is written after it has been changed in memory. The
result is therefore about runs that do not add a page to a file of
`2 ^ 32 - 1` pages and in which no write of the header fails; the last part
shows what happens in a file that is full.
-/

namespace MySQLight.Storage

open MySQLight.Data MySQLight.Effect

namespace Pager

/-! ### The header page -/

/-- The header page holds the fields of the pager. -/
structure Recorded (p : Pager) : Prop where
  magic : slice (p.disk.pages 0).bytes 0 9 = magicByte
  count : slice (p.disk.pages 0).bytes 11 15 = be 4 p.pageCount
  root : slice (p.disk.pages 0).bytes 15 19 = be 4 p.catalogRootPageID
  head : slice (p.disk.pages 0).bytes 27 31 = be 4 p.freeListHead
  count_lt : p.pageCount < 2 ^ 32
  root_lt : p.catalogRootPageID < 2 ^ 32
  head_lt : p.freeListHead < 2 ^ 32

variable {p : Pager}

theorem beNat_be_four {n : Nat} (h : n < 2 ^ 32) : beNat (be 4 n) = n := beNat_be_of_lt h

theorem Recorded.ticked (h : Recorded p) : Recorded p.ticked :=
  ⟨h.magic, h.count, h.root, h.head, h.count_lt, h.root_lt, h.head_lt⟩

/-- A write to another page. -/
theorem Recorded.wrote_page (h : Recorded p) {id : Nat} (hid : id ≠ 0) (data : PageData) :
    Recorded (p.wrote (.page id data)) := by
  have hpage : (p.wrote (.page id data)).disk.pages 0 = p.disk.pages 0 :=
    Function.update_of_ne hid.symm _ _
  exact ⟨hpage ▸ h.magic, hpage ▸ h.count, hpage ▸ h.root, hpage ▸ h.head, h.count_lt, h.root_lt,
    h.head_lt⟩

theorem pages_wrote_header (p : Pager) (off : Nat) (src : Bytes) :
    (p.wrote (.header off src)).disk.pages 0 = (p.disk.pages 0).patch off src := by
  simp [wrote, Write.onPages]

theorem pages_wrote_header_of_ne (p : Pager) (off : Nat) (src : Bytes) {id : Nat} (hid : id ≠ 0) :
    (p.wrote (.header off src)).disk.pages id = p.disk.pages id :=
  Function.update_of_ne hid _ _

/-- The head of the free list is changed in memory and in the header. -/
theorem Recorded.setHead (h : Recorded p) {next : Nat} (hnext : next < 2 ^ 32) :
    Recorded ({ p with freeListHead := next }.wrote (.header 27 (be 4 next))) := by
  have hpage := pages_wrote_header { p with freeListHead := next } 27 (be 4 next)
  refine ⟨?_, ?_, ?_, ?_, h.count_lt, h.root_lt, hnext⟩ <;> rw [hpage]
  · exact (PageData.slice_patch_of_le (by decide) (by decide)).trans h.magic
  · exact (PageData.slice_patch_of_le (by decide) (by decide)).trans h.count
  · exact (PageData.slice_patch_of_le (by decide) (by decide)).trans h.root
  · exact PageData.slice_patch_be_self rfl (by decide)

/-- The page count is changed in memory and in the header. -/
theorem Recorded.setCount (h : Recorded p) {count : Nat} (hcount : count < 2 ^ 32) :
    Recorded ({ p with pageCount := count }.wrote (.header 11 (be 4 count))) := by
  have hpage := pages_wrote_header { p with pageCount := count } 11 (be 4 count)
  refine ⟨?_, ?_, ?_, ?_, hcount, h.root_lt, h.head_lt⟩ <;> rw [hpage]
  · exact (PageData.slice_patch_of_le (by decide) (by decide)).trans h.magic
  · exact PageData.slice_patch_be_self rfl (by decide)
  · exact (PageData.slice_patch_be_of_ge (by decide) (by decide)).trans h.root
  · exact (PageData.slice_patch_be_of_ge (by decide) (by decide)).trans h.head

/-- `Open` on a file whose header page holds the fields gives the same
pager again, if it can be read. -/
theorem Recorded.open_eq (h : Recorded p) (hsize : 0 < p.disk.size) :
    «open» p.disk =
      if p.disk.faults p.disk.clock then (.error .io, p.disk.tick)
      else (.ok p.ticked, p.disk.tick) := by
  rw [«open», if_neg hsize.ne']
  by_cases hfault : p.disk.faults p.disk.clock = true
  · simp [Disk.readAt, Fallible.run_bind, hfault]
  · simp only [Disk.readAt, Fallible.run_bind, Fallible.run_get, Fallible.run_set, hfault,
      hsize.not_ge, Bool.false_or, decide_false, Bool.false_eq_true, if_false, Fallible.run_pure,
      h.magic, h.count, h.root, h.head, ne_eq, not_true_eq_false, beNat_be_four h.count_lt,
      beNat_be_four h.root_lt, beNat_be_four h.head_lt]
    rfl

/-- The pager `Open` makes for an empty file. -/
theorem open_of_empty {d : Disk} (hempty : d.size = 0) {p : Pager}
    (hopen : («open» d).1 = .ok p) :
    Recorded p ∧ p.pageCount = 1 ∧ p.freeListHead = 0 ∧ p.disk.size = 1 := by
  let p' : Pager := ⟨d.tick.record (.page 0 (createHeader 1 0 0 0)), 0, 1, 0⟩
  have hp : p' = p := by
    rw [«open», if_pos hempty] at hopen
    by_cases hfault : d.faults d.clock = true
    · simp [Disk.write, Fallible.run_bind, hfault] at hopen
    · simp only [Disk.write, Fallible.run_bind, Fallible.run_get, Fallible.run_set, hfault] at hopen
      exact Except.ok.inj hopen
  have hpage : p'.disk.pages 0 = createHeader 1 0 0 0 := by simp [p', Write.onPages]
  have hmagic : slice (createHeader 1 0 0 0).bytes 0 9 = magicByte := by decide +kernel
  have hcount : slice (createHeader 1 0 0 0).bytes 11 15 = be 4 1 := by decide +kernel
  have hroot : slice (createHeader 1 0 0 0).bytes 15 19 = be 4 0 := by decide +kernel
  have hhead : slice (createHeader 1 0 0 0).bytes 27 31 = be 4 0 := by decide +kernel
  subst hp
  refine ⟨?_, rfl, rfl, ?_⟩
  · exact ⟨hpage ▸ hmagic, hpage ▸ hcount, hpage ▸ hroot, hpage ▸ hhead,
      Nat.one_lt_two_pow (by decide), Nat.two_pow_pos 32, Nat.two_pow_pos 32⟩
  · simp [p', Write.onSize, hempty]

/-! ### The free list -/

/-- The links from `head` on lead through the pages `ids` and end. -/
def Chain (pages : Nat → PageData) : Nat → List Nat → Prop
  | head, [] => head = 0
  | head, id :: ids => head = id ∧ Chain pages (link (pages id)) ids

theorem link_lt (data : PageData) : link data < 2 ^ 32 := by
  have hlen : (slice data.bytes 0 4).length = 4 :=
    length_slice_of_le (by rw [data.length_eq, PageSize]; decide)
  have hlt := beNat_lt (slice data.bytes 0 4)
  rwa [hlen] at hlt

theorem Chain.congr {pages pages' : Nat → PageData} {head : Nat} {ids : List Nat}
    (hpages : ∀ id ∈ ids, pages' id = pages id) (h : Chain pages head ids) :
    Chain pages' head ids := by
  induction ids generalizing head with
  | nil => exact h
  | cons id ids ih =>
    obtain ⟨hhead, hids⟩ := h
    obtain ⟨hid, hpages⟩ := List.forall_mem_cons.mp hpages
    exact ⟨hhead, by rw [hid]; exact ih hpages hids⟩

end Pager

/-! ### Sessions -/

/-- A call to the pager; `reopen` is `Close` followed by `Open`. -/
inductive PagerCall
  | allocatePage
  | freePage (id : Nat)
  | writePage (id : Nat) (data : Bytes)
  | reopen
deriving DecidableEq

/-- `Close` followed by `Open`. -/
def Pager.reopen : Fallible Pager Err Unit := do
  Pager.onDisk Disk.sync
  let (opened, d) := Pager.«open» (← get).disk
  modify fun p => { p with disk := d }
  set (← Fallible.ofExcept opened)

/-- A pager, the pages that are allocated, and the pages that were freed
and not allocated again, the last one first. -/
structure Session where
  pager : Pager
  live : Finset Nat
  freed : List Nat

namespace Session

open Pager

/-- One call; a call that fails changes neither list. -/
def step (s : Session) : PagerCall → Session
  | .allocatePage =>
    match allocatePage.run s.pager with
    | (.ok id, p) => ⟨p, insert id s.live, s.freed.erase id⟩
    | (.error _, p) => { s with pager := p }
  | .freePage id =>
    match (freePage id).run s.pager with
    | (.ok (), p) => ⟨p, s.live.erase id, id :: s.freed⟩
    | (.error _, p) => { s with pager := p }
  | .writePage id data => { s with pager := ((writePage id data).run s.pager).2 }
  | .reopen => { s with pager := (reopen.run s.pager).2 }

/-- Only allocated pages are freed and written. -/
def Legal (s : Session) : PagerCall → Prop
  | .allocatePage => True
  | .freePage id => id ∈ s.live
  | .writePage id _ => id ∈ s.live
  | .reopen => True

/-- The call does not add a page to a file that has `2 ^ 32 - 1`. -/
def HasRoom (s : Session) (call : PagerCall) : Prop :=
  call = .allocatePage → s.freed = [] → s.pager.pageCount ≠ 2 ^ 32 - 1

/-- If the call gets as far as the header, the header is written. That is
the second call to the operating system; all others may fail. -/
def HeaderWritten (s : Session) : PagerCall → Prop
  | .allocatePage | .freePage _ =>
    s.pager.disk.faults s.pager.disk.clock = false →
      s.pager.disk.faults (s.pager.disk.clock + 1) = false
  | .writePage _ _ | .reopen => True

/-- The invariant of a session. -/
structure Ok (s : Session) : Prop where
  recorded : Recorded s.pager
  count_pos : 0 < s.pager.pageCount
  count_le_size : s.pager.pageCount ≤ s.pager.disk.size
  chain : Chain s.pager.disk.pages s.pager.freeListHead s.freed
  freed_mem : ∀ id ∈ s.freed, id ≠ 0 ∧ id < s.pager.pageCount ∧ id ∉ s.live
  live_mem : ∀ id ∈ s.live, id ≠ 0 ∧ id < s.pager.pageCount
  nodup : s.freed.Nodup

variable {s : Session}

theorem Ok.ticked (h : Ok s) : Ok { s with pager := s.pager.ticked } :=
  ⟨h.recorded.ticked, h.count_pos, h.count_le_size, h.chain, h.freed_mem, h.live_mem, h.nodup⟩

theorem Ok.head_eq_zero (h : Ok s) (hfreed : s.freed = []) : s.pager.freeListHead = 0 := by
  simpa [hfreed, Chain] using h.chain

/-- Allocation takes the page that was freed last. -/
theorem Ok.allocate_pop (h : Ok s) {id : Nat} {ids : List Nat} (hfreed : s.freed = id :: ids) :
    allocatePage.run s.pager =
      let q := { s.pager.ticked with freeListHead := link (s.pager.disk.pages id) }
      if s.pager.disk.faults s.pager.disk.clock then (.error .io, s.pager.ticked)
      else if s.pager.disk.faults (s.pager.disk.clock + 1) then (.error .io, q.ticked)
      else (.ok id, q.wrote (.header 27 (be 4 q.freeListHead))) := by
  have hchain := h.chain
  rw [hfreed] at hchain
  obtain ⟨hne, hlt, -⟩ := h.freed_mem id (by simp [hfreed])
  have hrun := allocatePage_run_pop (p := s.pager) (hchain.1 ▸ hne) (hchain.1 ▸ hlt)
    (hchain.1 ▸ hlt.trans_le h.count_le_size)
  rwa [hchain.1] at hrun

/-- The free list keeps its links when no free page is written. -/
theorem Ok.chain_of_eq (h : Ok s) {pages : Nat → PageData} {head : Nat} {ids : List Nat}
    (hchain : Chain s.pager.disk.pages head ids) (hids : ∀ id ∈ ids, id ∈ s.freed)
    (hpages : ∀ id, id ≠ 0 → id < s.pager.pageCount → id ∉ s.live →
      pages id = s.pager.disk.pages id) : Chain pages head ids := by
  refine hchain.congr fun id hid => ?_
  obtain ⟨hne, hlt, hlive⟩ := h.freed_mem id (hids id hid)
  exact hpages id hne hlt hlive

theorem Ok.step_allocatePage (h : Ok s) (hroom : s.HasRoom .allocatePage)
    (hheader : s.HeaderWritten .allocatePage) : Ok (s.step .allocatePage) := by
  cases hfreed : s.freed with
  | nil =>
    have hrun := allocatePage_run_grow (h.head_eq_zero hfreed)
    by_cases hcap : s.pager.disk.capacity ≤ s.pager.pageCount
    · simpa only [step, hrun, hcap, if_true] using h
    by_cases hfault : s.pager.disk.faults s.pager.disk.clock = true
    · simpa only [step, hrun, hcap, hfault, if_true, if_false] using h.ticked
    have hfault := Bool.eq_false_of_not_eq_true hfault
    have hlt := h.recorded.count_lt
    have hne := hroom rfl hfreed
    have hcount : (s.pager.pageCount + 1) % 2 ^ 32 = s.pager.pageCount + 1 :=
      Nat.mod_eq_of_lt (by omega)
    rw [hcount] at hrun
    simp only [step, hrun, hcap, hfault, hheader hfault, Bool.false_eq_true, if_false, hfreed,
      List.erase_nil]
    have hrecorded := (h.recorded.wrote_page h.count_pos.ne' PageData.zero).setCount
      (show s.pager.pageCount + 1 < 2 ^ 32 by omega)
    refine ⟨hrecorded, Nat.succ_pos _, ?_, ?_, by simp, ?_, List.nodup_nil⟩
    · change s.pager.pageCount + 1 ≤ max (max s.pager.disk.size (s.pager.pageCount + 1)) 1
      omega
    · have hchain := h.chain
      rwa [hfreed] at hchain
    · intro id hid
      rcases Finset.mem_insert.mp hid with rfl | hid
      · exact ⟨h.count_pos.ne', Nat.lt_succ_self _⟩
      · exact ⟨(h.live_mem id hid).1, (h.live_mem id hid).2.trans (Nat.lt_succ_self _)⟩
  | cons id ids =>
    obtain ⟨hne, hlt, hlive⟩ := h.freed_mem id (by simp [hfreed])
    have hchain := h.chain
    have hnodup := h.nodup
    rw [hfreed] at hchain hnodup
    by_cases hfault : s.pager.disk.faults s.pager.disk.clock = true
    · simpa only [step, h.allocate_pop hfreed, hfault, if_true, hfreed] using h.ticked
    have hfault := Bool.eq_false_of_not_eq_true hfault
    simp only [step, h.allocate_pop hfreed, hfault, hheader hfault, Bool.false_eq_true, if_false,
      hfreed, List.erase_cons_head]
    refine ⟨h.recorded.ticked.setHead (link_lt _), h.count_pos, ?_, ?_, ?_, ?_, hnodup.of_cons⟩
    · exact h.count_le_size.trans (le_max_left _ _)
    · refine h.chain_of_eq hchain.2 (by simp [hfreed]; tauto) fun id' hne' _ _ => ?_
      exact pages_wrote_header_of_ne _ _ _ hne'
    · intro id' hid'
      obtain ⟨hne', hlt', hlive'⟩ := h.freed_mem id' (by simp [hfreed, hid'])
      refine ⟨hne', hlt', ?_⟩
      rw [Finset.mem_insert, not_or]
      refine ⟨?_, hlive'⟩
      rintro rfl
      exact (List.nodup_cons.mp hnodup).1 hid'
    · intro id' hid'
      rcases Finset.mem_insert.mp hid' with rfl | hid'
      · exact ⟨hne, hlt⟩
      · exact h.live_mem id' hid'

theorem Ok.step_freePage (h : Ok s) {id : Nat} (hid : id ∈ s.live)
    (hheader : s.HeaderWritten (.freePage id)) : Ok (s.step (.freePage id)) := by
  obtain ⟨hne, hlt⟩ := h.live_mem id hid
  have hrun := freePage_run_eq s.pager id
  by_cases hcap : s.pager.disk.capacity ≤ id
  · simpa only [step, hrun, hlt.not_ge, hcap, if_true, if_false] using h
  by_cases hfault : s.pager.disk.faults s.pager.disk.clock = true
  · simpa only [step, hrun, hlt.not_ge, hcap, hfault, if_true, if_false] using h.ticked
  have hfault := Bool.eq_false_of_not_eq_true hfault
  simp only [step, hrun, hlt.not_ge, hcap, hfault, hheader hfault, Bool.false_eq_true, if_false]
  have hfreed : id ∉ s.freed := fun hmem => (h.freed_mem id hmem).2.2 hid
  refine ⟨?_, h.count_pos, ?_, ⟨rfl, ?_⟩, ?_, ?_, ?_⟩
  · exact (h.recorded.wrote_page hne _).setHead (hlt.trans h.recorded.count_lt)
  · exact h.count_le_size.trans ((le_max_left _ _).trans (le_max_left _ _))
  · -- the freed page links to the old head, and no other free page is written
    rw [pages_wrote_header_of_ne _ _ _ hne]
    have hlink : link ((s.pager.wrote (.page id (linkPage s.pager.freeListHead))).disk.pages id) =
        s.pager.freeListHead := by
      simp [wrote, Write.onPages, link_linkPage h.recorded.head_lt]
    rw [hlink]
    refine h.chain_of_eq h.chain (fun _ hmem => hmem) fun id' hne' _ hlive => ?_
    rw [pages_wrote_header_of_ne _ _ _ hne']
    refine Function.update_of_ne ?_ _ _
    rintro rfl
    exact hlive hid
  · intro id' hid'
    rcases List.mem_cons.mp hid' with rfl | hid'
    · exact ⟨hne, hlt, by simp⟩
    · obtain ⟨hne', hlt', hlive⟩ := h.freed_mem id' hid'
      exact ⟨hne', hlt', fun hmem => hlive (Finset.mem_of_mem_erase hmem)⟩
  · intro id' hid'
    exact h.live_mem id' (Finset.mem_of_mem_erase hid')
  · exact List.nodup_cons.mpr ⟨hfreed, h.nodup⟩

theorem Ok.step_writePage (h : Ok s) {id : Nat} (hid : id ∈ s.live) (data : Bytes) :
    Ok (s.step (.writePage id data)) := by
  obtain ⟨hne, hlt⟩ := h.live_mem id hid
  simp only [Session.step, writePage_run_eq, onDisk_writeAt_run]
  split_ifs
  · exact h
  · exact h
  · exact h.ticked
  · refine ⟨h.recorded.wrote_page hne _, h.count_pos, ?_, ?_, h.freed_mem, h.live_mem, h.nodup⟩
    · exact h.count_le_size.trans (le_max_left _ _)
    · refine h.chain_of_eq h.chain (fun _ hmem => hmem) fun id' _ _ hlive => ?_
      refine Function.update_of_ne ?_ _ _
      rintro rfl
      exact hlive hid
  · exact h

/-- Reopening gives the same pager. -/
theorem Ok.reopen_run (h : Ok s) :
    (reopen.run s.pager).2 = s.pager.ticked ∨ (reopen.run s.pager).2 = s.pager.ticked.ticked := by
  have hopen := h.recorded.ticked.open_eq (h.count_pos.trans_le h.count_le_size)
  cases hsync : s.pager.disk.faults s.pager.disk.clock with
  | true =>
    left
    simp [reopen, Fallible.run_bind, onDisk, Disk.sync, hsync, Pager.ticked]
  | false =>
    right
    rw [faults_ticked] at hopen
    cases hread : s.pager.disk.faults (s.pager.disk.clock + 1) with
    | true | false =>
      rw [hread] at hopen
      simp only [reopen, Fallible.run_bind, onDisk, Disk.sync, Fallible.run_zoom,
        Fallible.run_get, Fallible.run_set, hsync, Bool.false_eq_true, if_false,
        Fallible.run_pure]
      rw [show s.pager.disk.tick = s.pager.ticked.disk from rfl, hopen]
      rfl

theorem Ok.step_reopen (h : Ok s) : Ok (s.step .reopen) := by
  rw [Session.step]
  rcases h.reopen_run with hrun | hrun <;> rw [hrun]
  · exact h.ticked
  · exact h.ticked.ticked

theorem Ok.step (h : Ok s) {call : PagerCall} (hlegal : s.Legal call) (hroom : s.HasRoom call)
    (hheader : s.HeaderWritten call) : Ok (s.step call) := by
  cases call with
  | allocatePage => exact h.step_allocatePage hroom hheader
  | freePage id => exact h.step_freePage hlegal hheader
  | writePage id data => exact h.step_writePage hlegal data
  | reopen => exact h.step_reopen

/-- The session that starts with `Open` on an empty file. -/
theorem ok_open {d : Disk} (hempty : d.size = 0) {p : Pager} (hopen : (Pager.«open» d).1 = .ok p) :
    Ok ⟨p, ∅, []⟩ := by
  obtain ⟨hrecorded, hcount, hhead, hsize⟩ := open_of_empty hempty hopen
  exact ⟨hrecorded, hcount ▸ Nat.one_pos, by rw [hcount, hsize], hhead, by simp, by simp,
    List.nodup_nil⟩

/-- Only an allocation with an empty free list changes the page count,
whichever calls to the operating system fail. -/
theorem Ok.pageCount_step (h : Ok s) {call : PagerCall}
    (hcall : ¬ (call = .allocatePage ∧ s.freed = [])) :
    (s.step call).pager.pageCount = s.pager.pageCount := by
  cases call with
  | allocatePage =>
    cases hfreed : s.freed with
    | nil => exact absurd ⟨rfl, hfreed⟩ hcall
    | cons id ids =>
      simp only [Session.step, h.allocate_pop hfreed]
      split_ifs <;> rfl
  | freePage id =>
    simp only [Session.step, freePage_run_eq]
    split_ifs <;> rfl
  | writePage id data =>
    simp only [Session.step, writePage_run_eq, onDisk_writeAt_run]
    split_ifs <;> rfl
  | reopen =>
    rw [Session.step]
    rcases h.reopen_run with hrun | hrun <;> rw [hrun] <;> rfl

/-- What the pager promises in a state: the next allocation returns neither
the header page nor an allocated page; if there is a freed page it returns
the one freed last, or fails with the operating system; only if there is
none the page count grows; and the file holds the page count and the head
of the free list, so that `Open` gives the same pager if it can read the
file. -/
structure Sound (s : Session) : Prop where
  fresh : ∀ id p, allocatePage.run s.pager = (.ok id, p) → id ≠ 0 ∧ id ∉ s.live
  lifo : ∀ id ids, s.freed = id :: ids → (allocatePage.run s.pager).1 =
    if s.pager.disk.faults s.pager.disk.clock ∨ s.pager.disk.faults (s.pager.disk.clock + 1) then
      .error .io
    else .ok id
  grows : ∀ call, (s.step call).pager.pageCount ≠ s.pager.pageCount →
    call = .allocatePage ∧ s.freed = []
  count : beNat (slice (s.pager.disk.pages 0).bytes 11 15) = s.pager.pageCount
  head : beNat (slice (s.pager.disk.pages 0).bytes 27 31) = s.pager.freeListHead
  reopen : (Pager.«open» s.pager.disk).1 =
    if s.pager.disk.faults s.pager.disk.clock then .error .io else .ok s.pager.ticked

theorem Ok.sound (h : Ok s) : Sound s where
  fresh := by
    intro id p hrun
    cases hfreed : s.freed with
    | nil =>
      rw [allocatePage_run_grow (h.head_eq_zero hfreed)] at hrun
      dsimp only at hrun
      split_ifs at hrun <;> cases hrun
      exact ⟨h.count_pos.ne', fun hlive => (h.live_mem _ hlive).2.ne rfl⟩
    | cons id' ids =>
      rw [h.allocate_pop hfreed] at hrun
      dsimp only at hrun
      split_ifs at hrun <;> cases hrun
      obtain ⟨hne, -, hlive⟩ := h.freed_mem id (by simp [hfreed])
      exact ⟨hne, hlive⟩
  lifo := by
    intro id ids hfreed
    rw [h.allocate_pop hfreed]
    by_cases hfault : s.pager.disk.faults s.pager.disk.clock = true <;>
      by_cases hheader : s.pager.disk.faults (s.pager.disk.clock + 1) = true <;>
      simp [hfault, hheader]
  grows := fun call hne => not_not.mp fun hcall => hne (h.pageCount_step hcall)
  count := by rw [h.recorded.count, beNat_be_four h.recorded.count_lt]
  head := by rw [h.recorded.head, beNat_be_four h.recorded.head_lt]
  reopen := by
    rw [h.recorded.open_eq (h.count_pos.trans_le h.count_le_size)]
    split_ifs <;> rfl

/-- In every run of legal calls that never adds a page to a file of
`2 ^ 32 - 1` pages and in which no write of the header fails, the pager
keeps its promises. Other calls to the operating system may fail. -/
theorem pager_sound (d : Disk) (hempty : d.size = 0) (p : Pager)
    (hopen : (Pager.«open» d).1 = .ok p) (calls : List PagerCall)
    (hlegal : Along step Legal calls ⟨p, ∅, []⟩) (hroom : Along step HasRoom calls ⟨p, ∅, []⟩)
    (hheader : Along step HeaderWritten calls ⟨p, ∅, []⟩) :
    Sound (calls.foldl step ⟨p, ∅, []⟩) :=
  (((hlegal.and hroom).and hheader).invariant
    (fun _ _ hs hcall => hs.step hcall.1.1 hcall.1.2 hcall.2) (ok_open hempty hopen)).sound

/-- An empty database file on a device with the given number of pages. -/
def emptyDisk (capacity : Nat) (h : capacity ≤ 2 ^ 32) : Disk where
  basePages := fun _ => PageData.zero
  baseSize := 0
  baseLog := []
  journal := []
  capacity := capacity
  capacity_le := h
  faults := fun _ => false
  orders := fun _ => 0
  clock := 0

/-- The pager of a new file. -/
def newPager (capacity : Nat) (h : capacity ≤ 2 ^ 32) : Pager :=
  ⟨(emptyDisk capacity h).tick.record (.page 0 (createHeader 1 0 0 0)), 0, 1, 0⟩

/-- The fourth call to the operating system fails. -/
def failingDisk : Disk := { emptyDisk 4 Disk.four_le with faults := fun n => n = 3 }

def failingPager : Pager :=
  ⟨failingDisk.tick.record (.page 0 (createHeader 1 0 0 0)), 0, 1, 0⟩

def reuseCalls : List PagerCall :=
  [.allocatePage, .writePage 1 PageData.zero.bytes, .freePage 1, .reopen]

/-- A write fails, the page is freed, and it is handed out after the file
has been reopened. -/
theorem pager_sound_at_reuseCalls : Sound (reuseCalls.foldl step ⟨failingPager, ∅, []⟩) := by
  have hlive : 1 ∈ (step ⟨failingPager, ∅, []⟩ .allocatePage).live := by decide +kernel
  have hcount : failingPager.pageCount ≠ 2 ^ 32 - 1 := by decide
  refine pager_sound failingDisk rfl failingPager rfl reuseCalls
    ⟨trivial, hlive, hlive, trivial, trivial⟩ ⟨fun _ _ => hcount, ?_, ?_, ?_, trivial⟩
    ⟨fun _ => rfl, trivial, ?_, trivial, trivial⟩
  · intro h
    cases h
  · intro h
    cases h
  · intro h
    cases h
  · intro _
    decide +kernel

/-! ### A full file -/

/-- The file has `count` pages, counted without wrapping, and none is free. -/
structure Grown (count : Nat) (s : Session) : Prop where
  noFaults : s.pager.disk.NoFaults
  head : s.pager.freeListHead = 0
  count : s.pager.pageCount = count % 2 ^ 32
  capacity : s.pager.disk.capacity = 2 ^ 32

theorem Grown.allocate {count : Nat} (h : Grown count s) :
    ∃ p, allocatePage.run s.pager = (.ok (count % 2 ^ 32), p) ∧
      Grown (count + 1) (s.step .allocatePage) := by
  have hlt : count % 2 ^ 32 < 2 ^ 32 := Nat.mod_lt _ (Nat.two_pow_pos 32)
  have hrun := allocatePage_run_of_grow h.noFaults h.head
  rw [h.capacity, h.count, if_neg hlt.not_ge] at hrun
  refine ⟨_, hrun, ?_⟩
  simp only [step, hrun]
  exact ⟨h.noFaults, h.head, by simp [wrote], h.capacity⟩

theorem Grown.allocates {count : Nat} (h : Grown count s) (n : Nat) :
    Grown (count + n) ((List.replicate n PagerCall.allocatePage).foldl step s) := by
  induction n generalizing count s with
  | zero => exact h
  | succ n ih =>
    obtain ⟨-, -, hstep⟩ := h.allocate
    rw [List.replicate_succ, List.foldl_cons, ← Nat.add_assoc, Nat.add_right_comm]
    exact ih hstep

theorem legal_allocates (n : Nat) (s : Session) :
    Along step Legal (List.replicate n .allocatePage) s := by
  induction n generalizing s with
  | zero => trivial
  | succ n ih => exact ⟨trivial, ih _⟩

/-- When all page numbers are used up the page count wraps to zero, and the
next allocation returns the header page. -/
theorem allocatePage_returns_header :
    (Pager.«open» (emptyDisk (2 ^ 32) le_rfl)).1 = .ok (newPager (2 ^ 32) le_rfl) ∧
      Along step Legal (List.replicate (2 ^ 32 - 1) .allocatePage)
        ⟨newPager (2 ^ 32) le_rfl, ∅, []⟩ ∧
      (allocatePage.run ((List.replicate (2 ^ 32 - 1) PagerCall.allocatePage).foldl step
        ⟨newPager (2 ^ 32) le_rfl, ∅, []⟩).pager).1 = .ok 0 := by
  refine ⟨rfl, legal_allocates _ _, ?_⟩
  have hnew : Grown 1 ⟨newPager (2 ^ 32) le_rfl, ∅, []⟩ := ⟨fun _ => rfl, rfl, rfl, rfl⟩
  obtain ⟨p, hrun, -⟩ := (hnew.allocates (2 ^ 32 - 1)).allocate
  rw [hrun]
  rfl

end Session

end MySQLight.Storage
