import MySQLight.Executor.Expr
import Mathlib.Data.List.Infix

/-!
`LIKE` (`executor/filter.go`).

`likeMatch` splits the pattern at the percent signs and takes for each part
the first place behind the part before it. That loses no match: the earlier
a part ends, the more of the text is left for the others.
-/

namespace MySQLight.Sql

open MySQLight.Data

/-- The text is the pattern with a text in the place of each percent sign. -/
inductive Like : Bytes → Bytes → Prop
  | nil : Like [] []
  | same {c : UInt8} {pattern text : Bytes} (plain : c ≠ 37) (rest : Like pattern text) :
      Like (c :: pattern) (c :: text)
  | percent {pattern text : Bytes} (any : Bytes) (rest : Like pattern text) :
      Like (37 :: pattern) (any ++ text)

theorem like_percent {pattern text : Bytes} :
    Like (37 :: pattern) text ↔ ∃ any rest, text = any ++ rest ∧ Like pattern rest := by
  constructor
  · rintro (_ | ⟨plain, _⟩ | ⟨any, rest⟩)
    · exact absurd rfl plain
    · exact ⟨any, _, rfl, rest⟩
  · rintro ⟨any, rest, rfl, hrest⟩
    exact .percent any hrest

theorem like_same {c : UInt8} {pattern text : Bytes} (hc : c ≠ 37) :
    Like (c :: pattern) text ↔ ∃ rest, text = c :: rest ∧ Like pattern rest := by
  constructor
  · rintro (_ | ⟨_, rest⟩ | _)
    · exact ⟨_, rfl, rest⟩
    · exact absurd rfl hc
  · rintro ⟨rest, rfl, hrest⟩
    exact .same hc hrest

/-! ### Parts of a pattern -/

section Parts

variable {part first text rest remaining : Bytes} {parts : List Bytes} {i : Nat}

/-- The parts stand in the text one behind the other, at any distance, and
the last one ends it. -/
def Trail : List Bytes → Bytes → Prop
  | [], _ => False
  | [part], text => part <:+ text
  | part :: next :: parts, text =>
    ∃ gap rest, text = gap ++ part ++ rest ∧ Trail (next :: parts) rest

/-- The same, and the first part begins the text. -/
def Whole : List Bytes → Bytes → Prop
  | [], _ => False
  | [part], text => text = part
  | part :: next :: parts, text => ∃ rest, text = part ++ rest ∧ Trail (next :: parts) rest

theorem trail_iff_whole : Trail parts text ↔ ∃ gap rest, text = gap ++ rest ∧ Whole parts rest := by
  rcases parts with _ | ⟨part, _ | ⟨next, parts⟩⟩
  · simp [Trail, Whole]
  · constructor
    · rintro ⟨gap, rfl⟩
      exact ⟨gap, part, rfl, rfl⟩
    · rintro ⟨gap, rest, rfl, rfl⟩
      exact ⟨gap, rfl⟩
  · constructor
    · rintro ⟨gap, rest, rfl, hrest⟩
      exact ⟨gap, part ++ rest, List.append_assoc .., rest, rfl, hrest⟩
    · rintro ⟨gap, _, rfl, rest, rfl, hrest⟩
      exact ⟨gap, rest, (List.append_assoc ..).symm, hrest⟩

theorem whole_cons (c : UInt8) :
    Whole ((c :: part) :: parts) text ↔ ∃ rest, text = c :: rest ∧ Whole (part :: parts) rest := by
  rcases parts with _ | ⟨next, parts⟩
  · simp [Whole]
  · constructor
    · rintro ⟨rest, rfl, hrest⟩
      exact ⟨part ++ rest, rfl, rest, rfl, hrest⟩
    · rintro ⟨_, rfl, rest, rfl, hrest⟩
      exact ⟨rest, rfl, hrest⟩

theorem whole_nil_cons (hparts : parts ≠ []) : Whole ([] :: parts) text ↔ Trail parts text := by
  rcases parts with _ | ⟨next, parts⟩
  · exact absurd rfl hparts
  · simp [Whole]

theorem like_iff_whole (pattern text : Bytes) :
    Like pattern text ↔ Whole (pattern.splitOn 37) text := by
  induction pattern generalizing text with
  | nil =>
    constructor
    · rintro ⟨⟩
      rfl
    · rintro rfl
      exact .nil
  | cons c pattern ih =>
    obtain ⟨part, parts, hsplit⟩ := List.exists_cons_of_ne_nil (List.splitOn_ne_nil 37 pattern)
    rw [hsplit] at ih
    rw [List.splitOn] at hsplit
    by_cases hc : c = 37
    · subst hc
      rw [List.splitOn, List.splitOnP_cons_eq_if_modifyHead, hsplit, if_pos (by decide),
        whole_nil_cons (List.cons_ne_nil _ _), trail_iff_whole, like_percent]
      simp only [ih]
    · rw [List.splitOn, List.splitOnP_cons_eq_if_modifyHead, hsplit, if_neg (by simpa using hc),
        List.modifyHead_cons, whole_cons, like_same hc]
      simp only [ih]

/-! ### The first place counts -/

theorem Trail.mono (h : Trail parts rest) (hsuffix : rest <:+ text) : Trail parts text := by
  obtain ⟨front, rfl⟩ := hsuffix
  rw [trail_iff_whole] at h ⊢
  obtain ⟨gap, rest, rfl, hrest⟩ := h
  exact ⟨front ++ gap, rest, (List.append_assoc ..).symm, hrest⟩

theorem indexOf_none (h : indexOf part text = none) (gap rest : Bytes) :
    text ≠ gap ++ part ++ rest := by
  induction text generalizing gap with
  | nil =>
    rintro hnil
    obtain ⟨hgap, rfl⟩ := List.append_eq_nil_iff.mp hnil.symm
    simp [indexOf, (List.append_eq_nil_iff.mp hgap).2] at h
  | cons b bs ih =>
    rw [indexOf] at h
    split_ifs at h with hpart
    rcases gap with _ | ⟨c, gap⟩
    · rintro heq
      exact hpart ⟨rest, heq.symm⟩
    · rintro heq
      cases heq
      exact ih (Option.map_eq_none_iff.mp h) gap rfl

/-- The part stands at its index, and what follows another place of it is
the end of what follows this one. -/
theorem indexOf_some (h : indexOf part text = some i) :
    (∃ gap, text = gap ++ part ++ text.drop (i + part.length)) ∧
      ∀ gap rest, text = gap ++ part ++ rest → rest <:+ text.drop (i + part.length) := by
  induction text generalizing i with
  | nil =>
    rw [indexOf] at h
    split_ifs at h with hpart
    subst hpart
    simp
  | cons b bs ih =>
    rw [indexOf] at h
    split_ifs at h with hpart
    · cases h
      obtain ⟨tail, htail⟩ := hpart
      rw [← htail, Nat.zero_add, List.drop_left]
      refine ⟨⟨[], rfl⟩, fun gap rest heq => ?_⟩
      have hlen := congrArg List.length heq
      simp only [List.length_append] at hlen
      exact List.suffix_of_suffix_length_le ⟨gap ++ part, heq.symm⟩ ⟨part, rfl⟩ (by omega)
    · obtain ⟨j, hj, rfl⟩ := Option.map_eq_some_iff.mp h
      obtain ⟨⟨gap, hgap⟩, hlast⟩ := ih hj
      rw [Nat.add_right_comm, List.drop_succ_cons]
      refine ⟨⟨b :: gap, congrArg (List.cons b) hgap⟩, fun gap rest heq => ?_⟩
      rcases gap with _ | ⟨c, gap⟩
      · exact absurd ⟨rest, heq.symm⟩ hpart
      · cases heq
        exact hlast gap rest rfl

theorem likeParts_iff (last : Bytes) : (∃ remaining, likeParts parts text = some remaining ∧
    last <:+ remaining) ↔ Trail (parts ++ [last]) text := by
  induction parts generalizing text with
  | nil => simp [likeParts, Trail]
  | cons part parts ih =>
    obtain ⟨next, others, hnext⟩ := List.exists_cons_of_ne_nil
      (List.append_ne_nil_of_right_ne_nil parts (List.cons_ne_nil last []))
    rw [List.cons_append, hnext, Trail, ← hnext, likeParts]
    rcases hi : indexOf part text with _ | i
    · constructor
      · rintro ⟨_, hnone, -⟩
        cases hnone
      · rintro ⟨gap, rest, heq, -⟩
        exact absurd heq (indexOf_none hi gap rest)
    · obtain ⟨⟨gap, hgap⟩, hlast⟩ := indexOf_some hi
      rw [ih]
      constructor
      · intro htrail
        exact ⟨gap, _, hgap, htrail⟩
      · rintro ⟨gap, rest, heq, hrest⟩
        exact hrest.mono (hlast gap rest heq)

end Parts

/-- `LIKE` holds exactly for the texts that the pattern describes. -/
theorem likeMatch_iff (str pattern : Bytes) : likeMatch str pattern = true ↔ Like pattern str := by
  rw [like_iff_whole, likeMatch]
  rcases hsplit : pattern.splitOn 37 with _ | ⟨first, _ | ⟨next, parts⟩⟩
  · simp [Whole]
  · have hjoin : [37].intercalate (pattern.splitOn 37) = pattern := List.intercalate_splitOn 37
    rw [hsplit] at hjoin
    simp [Whole, ← hjoin]
  · obtain ⟨init, last, hlast⟩ := (List.eq_nil_or_concat (next :: parts)).resolve_left
      (List.cons_ne_nil _ _)
    rw [List.concat_eq_append] at hlast
    dsimp only
    rw [Whole, hlast, List.dropLast_concat, List.getLast?_concat]
    by_cases hfirst : first <+: str
    · obtain ⟨rest, rfl⟩ := hfirst
      rw [if_pos ⟨rest, rfl⟩, List.drop_left]
      simp only [List.append_cancel_left_eq, exists_eq_left', ← likeParts_iff]
      cases likeParts init rest <;> simp
    · rw [if_neg hfirst]
      constructor
      · rintro ⟨⟩
      · rintro ⟨rest, rfl, -⟩
        exact absurd ⟨rest, rfl⟩ hfirst

end MySQLight.Sql
