import Mathlib.Data.Finset.Card
import Mathlib.Data.List.Infix
import Mathlib.Tactic.Common

/-!
Looking for cycles depth first.

The search keeps the nodes it has visited, those on the current path, and
the nodes from which an edge led back into the path. A search that finds
such an edge stops where it is and leaves the path as it was.

The recursion is bounded by the number of nodes not yet visited, so with
that much fuel it ends (`dfs_total`). In a graph without dead ends it never
gets as far as to retreat: whichever edge it looks at first leads on, or
back (`dfs_finds`).
-/

namespace MySQLight.Data

variable {α : Type} [DecidableEq α]

structure Search (α : Type) where
  visited : α → Bool
  inStack : α → Bool
  victims : List α

namespace Search

def start : Search α := ⟨fun _ => false, fun _ => false, []⟩

def enter (s : Search α) (a : α) : Search α :=
  { s with
    visited := Function.update s.visited a true
    inStack := Function.update s.inStack a true }

def leave (s : Search α) (a : α) : Search α :=
  { s with inStack := Function.update s.inStack a false }

def blame (s : Search α) (a : α) : Search α := { s with victims := s.victims ++ [a] }

end Search

/-- The edges of a node, one after the other; `dfs` is the search from the
node at the other end. -/
def dfsLoop (dfs : α → Search α → Option (Bool × Search α)) (a : α) :
    List α → Search α → Option (Bool × Search α)
  | [], s => some (false, s.leave a)
  | b :: bs, s =>
    if !s.visited b then do
      let (found, s) ← dfs b s
      if found then return (true, s) else dfsLoop dfs a bs s
    else if s.inStack b then some (true, s.blame a)
    else dfsLoop dfs a bs s

/-- Search from a node; without a result when the path gets longer than
the fuel allows. -/
def dfs (next : α → List α) : Nat → α → Search α → Option (Bool × Search α)
  | 0, _, _ => none
  | fuel + 1, a, s => dfsLoop (dfs next fuel) a (next a) (s.enter a)

/-- Search from every node of a list that has not been visited. -/
def dfsAll (next : α → List α) (fuel : Nat) : List α → Search α → Option (Search α)
  | [], s => some s
  | a :: as, s =>
    if !s.visited a then do
      let (_, s) ← dfs next fuel a s
      dfsAll next fuel as s
    else dfsAll next fuel as s

/-! ### What a search adds -/

namespace Search

/-- Visited nodes stay visited, and victims stay victims. -/
structure Grows (s s' : Search α) : Prop where
  visited : ∀ a, s.visited a = true → s'.visited a = true
  victims : s.victims <+: s'.victims

omit [DecidableEq α] in
theorem Grows.refl (s : Search α) : Grows s s := ⟨fun _ h => h, List.prefix_refl _⟩

omit [DecidableEq α] in
theorem Grows.trans {s₁ s₂ s₃ : Search α} (h : Grows s₁ s₂) (h' : Grows s₂ s₃) : Grows s₁ s₃ :=
  ⟨fun a ha => h'.visited a (h.visited a ha), h.victims.trans h'.victims⟩

theorem grows_enter (s : Search α) (a : α) : Grows s (s.enter a) where
  visited := by
    intro b hb
    by_cases hba : b = a
    · simp [enter, hba]
    · simpa [enter, hba] using hb
  victims := List.prefix_refl _

/-- How many nodes are still to be visited. -/
def left (nodes : Finset α) (s : Search α) : Nat :=
  (nodes.filter fun a => s.visited a = false).card

omit [DecidableEq α] in
theorem Grows.left_le {s s' : Search α} (h : Grows s s') (nodes : Finset α) :
    s'.left nodes ≤ s.left nodes := by
  refine Finset.card_le_card fun a ha => ?_
  simp only [Finset.mem_filter, Bool.eq_false_iff] at ha ⊢
  exact ⟨ha.1, fun hs => ha.2 (h.visited a hs)⟩

theorem left_enter_lt {nodes : Finset α} {s : Search α} {a : α} (ha : a ∈ nodes)
    (hnew : s.visited a = false) : (s.enter a).left nodes < s.left nodes := by
  refine Finset.card_lt_card ?_
  rw [Finset.ssubset_iff_of_subset]
  · refine ⟨a, by simp [ha, hnew], fun hmem => ?_⟩
    have hfalse := (Finset.mem_filter.mp hmem).2
    simp [enter] at hfalse
  · intro b hb
    simp only [Finset.mem_filter, Bool.eq_false_iff] at hb ⊢
    exact ⟨hb.1, fun hs => hb.2 ((grows_enter s a).visited b hs)⟩

end Search

open Search

section Total

variable {next : α → List α} {nodes : Finset α}

variable {fuel : Nat} {s : Search α}

/-- The loop over the edges ends if the searches it starts do. -/
theorem dfsLoop_total {dfs : α → Search α → Option (Bool × Search α)}
    (hdfs : ∀ b s, b ∈ nodes → s.visited b = false → s.left nodes ≤ fuel →
      ∃ r, dfs b s = some r ∧ Grows s r.2) (a : α) {bs : List α} (hbs : ∀ b ∈ bs, b ∈ nodes)
    (hfuel : s.left nodes ≤ fuel) : ∃ r, dfsLoop dfs a bs s = some r ∧ Grows s r.2 := by
  induction bs generalizing s with
  | nil => exact ⟨_, rfl, fun _ h => h, List.prefix_refl _⟩
  | cons b bs ih =>
    obtain ⟨hb, hbs⟩ := List.forall_mem_cons.mp hbs
    rw [dfsLoop]
    cases hvisited : s.visited b with
    | false =>
      obtain ⟨⟨found, s'⟩, hrun, hgrows⟩ := hdfs b s hb hvisited hfuel
      rw [if_pos (by decide), hrun]
      cases found with
      | true => exact ⟨_, rfl, hgrows⟩
      | false =>
        obtain ⟨r, hrun', hgrows'⟩ := ih hbs ((hgrows.left_le nodes).trans hfuel)
        exact ⟨r, hrun', hgrows.trans hgrows'⟩
    | true =>
      rw [if_neg (by decide)]
      split
      · exact ⟨_, rfl, fun _ h => h, List.prefix_append _ _⟩
      · exact ih hbs hfuel

variable (hclosed : ∀ a ∈ nodes, ∀ b ∈ next a, b ∈ nodes)
include hclosed

theorem dfs_total {a : α} (ha : a ∈ nodes) (hnew : s.visited a = false)
    (hfuel : s.left nodes ≤ fuel) : ∃ r, dfs next fuel a s = some r ∧ Grows s r.2 := by
  induction fuel generalizing a s with
  | zero => exact absurd (left_enter_lt ha hnew) (by omega)
  | succ fuel ih =>
    have hlt := left_enter_lt ha hnew
    obtain ⟨r, hrun, hgrows⟩ := dfsLoop_total (fun b s => ih) a (hclosed a ha)
      (show (s.enter a).left nodes ≤ fuel by omega)
    exact ⟨r, hrun, (grows_enter s a).trans hgrows⟩

theorem dfsAll_total {as : List α} (has : ∀ a ∈ as, a ∈ nodes) (hfuel : s.left nodes ≤ fuel) :
    ∃ s', dfsAll next fuel as s = some s' ∧ Grows s s' := by
  induction as generalizing s with
  | nil => exact ⟨s, rfl, .refl s⟩
  | cons a as ih =>
    obtain ⟨ha, has⟩ := List.forall_mem_cons.mp has
    rw [dfsAll]
    cases hvisited : s.visited a with
    | false =>
      obtain ⟨r, hrun, hgrows⟩ := dfs_total hclosed ha hvisited hfuel
      obtain ⟨s', hrun', hgrows'⟩ := ih has ((hgrows.left_le nodes).trans hfuel)
      exact ⟨s', by rw [if_pos (by decide), hrun]; exact hrun', hgrows.trans hgrows'⟩
    | true =>
      rw [if_neg (by decide)]
      exact ih has hfuel

/-! ### Graphs without dead ends -/

variable (hnext : ∀ a ∈ nodes, next a ≠ [])
include hnext

/-- As long as every visited node is on the path, the first edge of a node
leads to a node that is new, or closes a cycle. -/
theorem dfs_finds {a : α} (ha : a ∈ nodes) (hnew : s.visited a = false)
    (hfuel : s.left nodes ≤ fuel) (hpath : ∀ b, s.visited b = true → s.inStack b = true) :
    ∃ s', dfs next fuel a s = some (true, s') ∧ s'.victims ≠ [] := by
  induction fuel generalizing a s with
  | zero => exact absurd (left_enter_lt ha hnew) (by omega)
  | succ fuel ih =>
    have hlt := left_enter_lt ha hnew
    obtain ⟨b, bs, hbs⟩ := List.exists_cons_of_ne_nil (hnext a ha)
    have hb : b ∈ nodes := hclosed a ha b (by simp [hbs])
    have hpath' : ∀ c, (s.enter a).visited c = true → (s.enter a).inStack c = true := by
      intro c hc
      by_cases hca : c = a
      · simp [enter, hca]
      · simp only [enter, Function.update_of_ne hca] at hc ⊢
        exact hpath c hc
    rw [dfs, hbs, dfsLoop]
    cases hvisited : (s.enter a).visited b with
    | false =>
      obtain ⟨s', hrun, hvictims⟩ := ih hb hvisited (by omega) hpath'
      exact ⟨s', by rw [if_pos (by decide), hrun]; rfl, hvictims⟩
    | true =>
      rw [if_neg (by decide), if_pos (hpath' b hvisited)]
      exact ⟨_, rfl, by simp [blame]⟩

/-- A search that starts anywhere finds a cycle. -/
theorem dfsAll_finds {as : List α} (hne : as ≠ []) (has : ∀ a ∈ as, a ∈ nodes)
    (hfuel : nodes.card ≤ fuel) : ∃ s, dfsAll next fuel as .start = some s ∧ s.victims ≠ [] := by
  obtain ⟨a, as, rfl⟩ := List.exists_cons_of_ne_nil hne
  obtain ⟨ha, has⟩ := List.forall_mem_cons.mp has
  have hleft : (start : Search α).left nodes ≤ fuel := (Finset.card_filter_le _ _).trans hfuel
  obtain ⟨s, hrun, hvictims⟩ := dfs_finds hclosed hnext ha rfl hleft (fun _ h => h)
  obtain ⟨_, hrun', hgrows⟩ := dfs_total hclosed ha rfl hleft
  cases hrun.symm.trans hrun'
  obtain ⟨s', hrest, hgrows'⟩ := dfsAll_total hclosed has ((hgrows.left_le nodes).trans hleft)
  refine ⟨s', ?_, fun hnil => hvictims ?_⟩
  · rw [dfsAll, if_pos (show (!(start : Search α).visited a) = true from rfl), hrun]
    exact hrest
  · exact List.prefix_nil.mp (hnil ▸ hgrows'.victims)

end Total

end MySQLight.Data
