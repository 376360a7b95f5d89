import MySQLight.Storage.PoolSteps

/-!
Clients of the pool and what they may rely on.

A client changes a page through the bytes of a pinned frame and announces
the change afterwards, by unpinning the page as dirty. Between the two the
page is *touched*: the pool does not know yet that it differs from the
file. `Fair` is the discipline that makes this safe: only pinned pages are
changed, and the last pin of a touched page is not given up without the
announcement. Under it an eviction never drops a change (`Tracked`), so
contents only change when somebody writes.
-/

namespace MySQLight.Storage

open MySQLight.Data MySQLight.Effect MySQLight.Wal

namespace Cache

variable {s : Cache} {touched : Nat → Bool}

/-- The touched pages after a step. -/
def touch (touched : Nat → Bool) : Step → Nat → Bool
  | .set id _ => Function.update touched id true
  | .unpin id true => Function.update touched id false
  | .rollback id => Function.update touched id false
  | .free id => Function.update touched id false
  | _ => touched

/-- The discipline of a client, step by step. -/
def Fair (s : Cache) (touched : Nat → Bool) : Step → Prop
  | .set id _ => ∃ c, s.frame id = some c ∧ 0 < c.pins
  | .unpin id false => touched id = true → ∃ c, s.frame id = some c ∧ 1 < c.pins
  | .rollback id => touched id = false
  | _ => True

/-- Untouched pages that are not dirty agree with the file, and touched
pages are pinned. -/
structure Tracked (s : Cache) (touched : Nat → Bool) : Prop where
  clean : ∀ id, id ≠ 0 → touched id = false → s.CleanAt id
  pinned : ∀ id, touched id = true → ∃ c, s.frame id = some c ∧ 0 < c.pins

/-- A step on one page keeps the others tracked. -/
theorem Tracked.of_frame (h : Tracked s touched) {s' : Cache} {touched' : Nat → Bool} {id : Nat}
    (hframe : ∀ i, i ≠ id → s'.frame i = s.frame i)
    (hpages : ∀ i, i ≠ 0 → i ≠ id → s'.pager.disk.pages i = s.pager.disk.pages i)
    (htouched : ∀ i, i ≠ id → touched' i = touched i)
    (hclean : id ≠ 0 → touched' id = false → s'.CleanAt id)
    (hpinned : touched' id = true → ∃ c, s'.frame id = some c ∧ 0 < c.pins) :
    Tracked s' touched' where
  clean := by
    intro i hi0 hi
    by_cases hid : i = id
    · subst hid
      exact hclean hi0 hi
    · intro c hc hd
      rw [hframe i hid] at hc
      rw [hpages i hi0 hid]
      exact h.clean i hi0 (htouched i hid ▸ hi) c hc hd
  pinned := by
    intro i hi
    by_cases hid : i = id
    · subst hid
      exact hpinned hi
    · rw [hframe i hid]
      exact h.pinned i (htouched i hid ▸ hi)

/-- A step that leaves the frames and the pages alone. -/
theorem Tracked.of_pages (h : Tracked s touched) {s' : Cache} (hframe : s'.frame = s.frame)
    (hpages : ∀ i c, i ≠ 0 → s.frame i = some c →
      s'.pager.disk.pages i = s.pager.disk.pages i) : Tracked s' touched where
  clean := by
    intro i hi0 hi c hc hd
    rw [hframe] at hc
    rw [hpages i c hi0 hc]
    exact h.clean i hi0 hi c hc hd
  pinned := by
    intro i hi
    rw [hframe]
    exact h.pinned i hi

/-- An unpinned page is not touched. -/
theorem Tracked.untouched (h : Tracked s touched) {id : Nat} {c : Cached}
    (hc : s.frame id = some c) (hpins : c.pins = 0) : touched id = false := by
  cases ht : touched id with
  | false => rfl
  | true =>
    obtain ⟨c', hc', hpos⟩ := h.pinned id ht
    rw [hc] at hc'
    cases hc'
    omega

theorem Tracked.apply (h : Tracked s touched) (hok : Ok s) {m : Step} (hcan : s.Can m)
    (hfair : s.Fair touched m) : Tracked (s.apply m) (touch touched m) := by
  cases m with
  | tick => exact h.of_pages rfl (fun _ _ _ _ => rfl)
  | pin id =>
    obtain ⟨c, hc⟩ := hcan
    simp only [Cache.apply, hc, touch]
    apply h.of_frame (fun i hi => withFrame_frame_of_ne _ _ hi) (fun _ _ _ => rfl)
      (fun _ _ => rfl)
    · intro h0 ht c' hc' hd
      rw [withFrame_frame_self] at hc'
      cases hc'
      exact h.clean id h0 ht c hc hd
    · intro _
      exact ⟨_, withFrame_frame_self _ _ _, Nat.succ_pos _⟩
  | load id =>
    simp only [Cache.apply, touch]
    apply h.of_frame
    · intro i hi
      rw [withFrame_frame_of_ne _ _ hi]
    · intro _ _ _
      rfl
    · intro _ _
      rfl
    · intro _ _ c' hc' _
      rw [withFrame_frame_self] at hc'
      cases hc'
      rfl
    · intro _
      exact ⟨_, withFrame_frame_self _ _ _, Nat.one_pos⟩
  | evict id =>
    obtain ⟨c, hc, hpins⟩ := hcan
    have hnot := h.untouched hc hpins
    simp only [Cache.apply, hc, touch]
    apply h.of_frame
    · intro i hi
      rw [withFrame_frame_of_ne _ _ hi, writeBack_frame]
    · intro i _ hi
      rw [withFrame_pager, writeBack_pages]
      split
      · rw [Function.update_of_ne hi]
      · rfl
    · intro _ _
      rfl
    · intro _ _ c' hc' _
      rw [withFrame_frame_self] at hc'
      cases hc'
    · intro ht
      rw [hnot] at ht
      cases ht
  | unpin id dirty =>
    obtain ⟨c, hc⟩ := hcan
    simp only [Cache.apply, hc]
    cases dirty with
    | true =>
      apply h.of_frame (fun i hi => withFrame_frame_of_ne _ _ hi) (fun _ _ _ => rfl)
        (fun i hi => Function.update_of_ne hi _ _)
      · intro _ _ c' hc' hd
        rw [withFrame_frame_self] at hc'
        cases hc'
        cases hdirt : c.dirt <;> simp [unpinned, hdirt] at hd
      · intro ht
        simp [touch] at ht
    | false =>
      apply h.of_frame (fun i hi => withFrame_frame_of_ne _ _ hi) (fun _ _ _ => rfl)
        (fun _ _ => rfl)
      · intro h0 ht c' hc' hd
        rw [withFrame_frame_self] at hc'
        cases hc'
        exact h.clean id h0 ht c hc (by simpa [unpinned] using hd)
      · intro ht
        obtain ⟨c', hc', hpins⟩ := hfair ht
        rw [hc] at hc'
        cases hc'
        exact ⟨_, withFrame_frame_self _ _ _, by simp [unpinned]; omega⟩
  | set id data =>
    obtain ⟨c, hc, hpins⟩ := hfair
    simp only [Cache.apply, hc]
    apply h.of_frame (fun i hi => withFrame_frame_of_ne _ _ hi) (fun _ _ _ => rfl)
      (fun i hi => Function.update_of_ne hi _ _)
    · intro _ ht
      simp [touch] at ht
    · intro _
      exact ⟨_, withFrame_frame_self _ _ _, hpins⟩
  | flush id =>
    obtain ⟨c, hc, hdirt⟩ := hcan
    simp only [Cache.apply, hc, touch]
    apply h.of_frame
    · intro i hi
      rw [withFrame_frame_of_ne _ _ hi, writeBack_frame]
    · intro i _ hi
      rw [withFrame_pager, writeBack_pages, if_pos hdirt, Function.update_of_ne hi]
    · intro _ _
      rfl
    · intro _ _ c' hc' _
      rw [withFrame_frame_self] at hc'
      cases hc'
      rw [withFrame_pager, writeBack_pages, if_pos hdirt, Function.update_self]
    · intro ht
      obtain ⟨c', hc', hpins⟩ := h.pinned id ht
      rw [hc] at hc'
      cases hc'
      exact ⟨_, withFrame_frame_self _ _ _, hpins⟩
  | rollback id =>
    obtain ⟨c, hc, hdirt⟩ := hcan
    obtain ⟨⟨b, t⟩, hbt⟩ := Option.isSome_iff_exists.mp hdirt
    simp only [Cache.apply, hc, hbt]
    apply h.of_frame (fun i hi => withFrame_frame_of_ne _ _ hi) (fun _ _ _ => rfl)
      (fun i hi => Function.update_of_ne hi _ _)
    · intro h0 _ c' hc' _
      rw [withFrame_frame_self] at hc'
      cases hc'
      exact hok.before_eq h0 hc hbt
    · intro ht
      simp [touch] at ht
  | grow =>
    refine h.of_pages rfl ?_
    intro i c h0 hc
    have hi := hok.cached_lt hc
    simp only [Cache.apply, wrote_pages, onPages_header_of_ne _ _ _ h0]
    simp [Write.onPages, Function.update_of_ne hi.ne]
  | pop =>
    refine h.of_pages rfl ?_
    intro i c h0 hc
    simp only [Cache.apply, wrote_pages, onPages_header_of_ne _ _ _ h0]
    rfl
  | free id =>
    simp only [Cache.apply]
    apply h.of_frame
    · intro i hi
      rw [withFrame_frame_of_ne _ _ hi]
    · intro i h0 hi
      simp only [withFrame_pager, wrote_pages, onPages_header_of_ne _ _ _ h0]
      simp [Write.onPages, Function.update_of_ne hi]
    · intro i hi
      exact Function.update_of_ne hi _ _
    · intro _ _ c' hc' _
      rw [withFrame_frame_self] at hc'
      cases hc'
    · intro ht
      simp [touch] at ht
  | append type txnID => exact h.of_pages (logged_frame _ _) (fun i _ _ _ => by simp [Cache.apply])
  | setRoot id =>
    refine h.of_pages rfl ?_
    intro i c h0 hc
    exact onPages_header_of_ne _ _ _ h0
  | setTxn txnID => exact h.of_pages rfl (fun _ _ _ _ => rfl)

/-- Under the discipline, a step changes what clients see of a page only
where it writes it. -/
theorem Tracked.content_apply (h : Tracked s touched) (hok : Ok s) {m : Step} (hcan : s.Can m)
    {id : Nat} (hid : id ≠ 0) :
    (s.apply m).content id =
      match s.written m with
      | some (i, data) => if id = i then data else s.content id
      | none => s.content id := by
  apply Cache.content_apply hok hcan hid
  rintro rfl
  obtain ⟨c, hc, hpins⟩ := hcan
  exact h.clean id hid (h.untouched hc hpins)

end Cache

end MySQLight.Storage
