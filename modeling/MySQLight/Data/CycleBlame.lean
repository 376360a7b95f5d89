import Mathlib.Logic.Relation
import MySQLight.Data.CycleSearch

/-!
Whom a search for cycles blames.

A search that has found an edge back into its path leaves the path marked,
and so do the searches after it. Among the nodes that have been visited, the
marked ones are therefore those from which a cycle can be reached, on it or
not (`Outcome`). An edge into a marked node makes its source a victim, so a
victim can reach a cycle. It need not lie on one: if a node that does not is
searched right after the first of its neighbours that leads into a cycle, it
is blamed (`dfsAll_blames`).
-/

namespace MySQLight.Data

open Relation Search

variable {α : Type} (next : α → List α)

/-- The node is on a cycle. -/
def OnCycle (a : α) : Prop := TransGen (fun a b => b ∈ next a) a a

/-- There is a way from the one node to the other. -/
def Reaches (a b : α) : Prop := ReflTransGen (fun a b => b ∈ next a) a b

/-- A cycle can be reached from the node. -/
def LeadsToCycle (a : α) : Prop := ∃ c, Reaches next a c ∧ OnCycle next c

variable {next} {a b : α}

theorem OnCycle.leads (h : OnCycle next a) : LeadsToCycle next a := ⟨a, .refl, h⟩

theorem LeadsToCycle.of_reaches (hab : Reaches next a b) (h : LeadsToCycle next b) :
    LeadsToCycle next a := by
  obtain ⟨c, hbc, hc⟩ := h
  exact ⟨c, hab.trans hbc, hc⟩

theorem LeadsToCycle.of_edge (hab : b ∈ next a) (h : LeadsToCycle next b) :
    LeadsToCycle next a :=
  h.of_reaches (.single hab)

/-- An edge back is on a cycle. -/
theorem onCycle_of_back (hab : b ∈ next a) (hba : Reaches next b a) : OnCycle next a :=
  TransGen.head' hab hba

/-- The way to a cycle goes through a neighbour. -/
theorem LeadsToCycle.exists_edge (h : LeadsToCycle next a) :
    ∃ b ∈ next a, LeadsToCycle next b := by
  obtain ⟨c, hac, hc⟩ := h
  obtain ⟨b, hab, hbc⟩ := TransGen.head'_iff.mp (TransGen.trans_right hac hc)
  exact ⟨b, hab, c, hbc, hc⟩

/-! ### The marks -/

/-- Before the search from a node: the marked nodes lead to the node or to
a cycle, those that have been left do not lead to one. -/
structure Before (next : α → List α) (a : α) (s : Search α) : Prop where
  visited : ∀ x, s.inStack x = true → s.visited x = true
  marked : ∀ x, s.inStack x = true → LeadsToCycle next x ∨ Reaches next x a
  left : ∀ x, s.visited x = true → s.inStack x = false → ¬ LeadsToCycle next x

/-- After the search from a node, which has found something if and only if
the node leads to a cycle. -/
structure Outcome (next : α → List α) (a : α) (s : Search α) (r : Bool × Search α) : Prop where
  found : r.1 = true ↔ LeadsToCycle next a
  visited : ∀ x, r.2.inStack x = true → r.2.visited x = true
  marked : ∀ x, r.2.inStack x = true → s.inStack x = true ∨ LeadsToCycle next x
  left : ∀ x, r.2.visited x = true → r.2.inStack x = false → ¬ LeadsToCycle next x
  keeps : ∀ x, s.inStack x = true → r.2.inStack x = true
  visits : ∀ x, r.2.visited x = true → s.visited x = true ∨ Reaches next a x
  grows : Grows s r.2
  self : r.2.visited a = true
  victims : ∀ v ∈ r.2.victims, v ∈ s.victims ∨ LeadsToCycle next v

/-- After the edges of a node, or some of them. -/
structure Looped (next : α → List α) (a : α) (bs : List α) (s : Search α) (r : Bool × Search α) :
    Prop where
  found : r.1 = true → LeadsToCycle next a ∧ r.2.inStack a = true
  none : r.1 = false → (∀ b ∈ bs, ¬ LeadsToCycle next b) ∧ r.2.inStack a = false
  visited : ∀ x, r.2.inStack x = true → r.2.visited x = true
  marked : ∀ x, r.2.inStack x = true → s.inStack x = true ∨ LeadsToCycle next x
  left : ∀ x, x ≠ a → r.2.visited x = true → r.2.inStack x = false → ¬ LeadsToCycle next x
  keeps : ∀ x, x ≠ a → s.inStack x = true → r.2.inStack x = true
  visits : ∀ x, r.2.visited x = true → s.visited x = true ∨ Reaches next a x
  grows : Grows s r.2
  victims : ∀ v ∈ r.2.victims, v ∈ s.victims ∨ LeadsToCycle next v

variable {s : Search α} {r : Bool × Search α} {fuel : Nat}

theorem Before.step (h : Before next a s) (hb : b ∈ next a) : Before next b s :=
  ⟨h.visited, fun x hx => (h.marked x hx).imp_right fun hxa => hxa.tail hb, h.left⟩

/-- An edge to a marked node: it leads back, or to a cycle. -/
theorem leads_of_marked (h : Before next a s) (hb : b ∈ next a) (hmarked : s.inStack b = true) :
    LeadsToCycle next a := by
  obtain hlead | hback := h.marked b hmarked
  · exact hlead.of_edge hb
  · exact (onCycle_of_back hb hback).leads

theorem looped_blame (h : Before next a s) (ha : s.inStack a = true) (hlead : LeadsToCycle next a)
    (bs : List α) : Looped next a bs s (true, s.blame a) where
  found _ := ⟨hlead, ha⟩
  none := nofun
  visited := h.visited
  marked _ hx := .inl hx
  left x _ hx hnot := h.left x hx hnot
  keeps _ _ hx := hx
  visits _ hx := .inl hx
  grows := ⟨fun _ h => h, List.prefix_append _ _⟩
  victims v hv := by
    obtain hv | hv := List.mem_append.mp hv
    · exact .inl hv
    · rw [List.mem_singleton.mp hv]
      exact .inr hlead

/-- The search from a neighbour that has found a cycle ends the loop. -/
theorem Outcome.looped (h : Outcome next b s r) (hb : b ∈ next a) (ha : s.inStack a = true)
    (hfound : r.1 = true) (bs : List α) :
    Looped next a bs s (true, r.2) where
  found _ := ⟨(h.found.mp hfound).of_edge hb, h.keeps a ha⟩
  none := nofun
  visited := h.visited
  marked := h.marked
  left x _ := h.left x
  keeps x _ := h.keeps x
  visits x hx := (h.visits x hx).imp_right fun hbx => .head hb hbx
  grows := h.grows
  victims := h.victims

/-- The loop goes on behind a neighbour that leads to no cycle. -/
theorem Outcome.before (h : Outcome next b s r) (hs : Before next a s) : Before next a r.2 where
  visited := h.visited
  marked x hx := (h.marked x hx).elim (hs.marked x) .inl
  left := h.left

theorem Looped.after {r' : Bool × Search α} {bs : List α} (h' : Looped next a bs r.2 r')
    (h : Outcome next b s r) (hb : b ∈ next a) (hfound : r.1 = false) :
    Looped next a (b :: bs) s r' where
  found := h'.found
  none hnone := by
    refine ⟨fun c hc => ?_, (h'.none hnone).2⟩
    obtain rfl | hc := List.mem_cons.mp hc
    · rw [← h.found, hfound]
      exact Bool.false_ne_true
    · exact (h'.none hnone).1 c hc
  visited := h'.visited
  marked x hx := (h'.marked x hx).elim (h.marked x) .inr
  left := h'.left
  keeps x hxa hx := h'.keeps x hxa (h.keeps x hx)
  visits x hx := by
    obtain hx | hax := h'.visits x hx
    · exact (h.visits x hx).imp_right fun hbx => .head hb hbx
    · exact .inr hax
  grows := h.grows.trans h'.grows
  victims v hv := (h'.victims v hv).elim (h.victims v) .inr

/-! ### The search -/

variable [DecidableEq α]

theorem looped_nil (h : Before next a s) :
    Looped next a [] s (false, s.leave a) where
  found := nofun
  none _ := ⟨nofun, by simp [leave]⟩
  visited x hx := by
    by_cases hxa : x = a
    · simp [leave, hxa] at hx
    · exact h.visited x (by simpa [leave, hxa] using hx)
  marked x hx := by
    by_cases hxa : x = a
    · simp [leave, hxa] at hx
    · exact .inl (by simpa [leave, hxa] using hx)
  left x hxa hx hnot := h.left x hx (by simpa [leave, hxa] using hnot)
  keeps x hxa hx := by simpa [leave, hxa] using hx
  visits _ hx := .inl hx
  grows := ⟨fun _ h => h, List.prefix_refl _⟩
  victims _ hv := .inl hv

theorem dfsLoop_looped {dfs : α → Search α → Option (Bool × Search α)}
    (hdfs : ∀ b s r, s.visited b = false → Before next b s → dfs b s = some r →
      Outcome next b s r) {bs : List α} (hbs : ∀ b ∈ bs, b ∈ next a) (hs : Before next a s)
    (ha : s.inStack a = true) (hrun : dfsLoop dfs a bs s = some r) : Looped next a bs s r := by
  induction bs generalizing s with
  | nil =>
    cases hrun
    exact looped_nil hs
  | cons b bs ih =>
    obtain ⟨hb, hbs⟩ := List.forall_mem_cons.mp hbs
    rw [dfsLoop] at hrun
    cases hvisited : s.visited b with
    | false =>
      rw [hvisited, if_pos (by decide)] at hrun
      obtain ⟨⟨found, s'⟩, hdfs', hrun⟩ := Option.bind_eq_some_iff.mp hrun
      have hout := hdfs b s _ hvisited (hs.step hb) hdfs'
      cases found with
      | true =>
        cases hrun
        exact hout.looped hb ha rfl _
      | false => exact (ih hbs (hout.before hs) (hout.keeps a ha) hrun).after hout hb rfl
    | true =>
      rw [hvisited, if_neg (by decide)] at hrun
      split at hrun
      · next hmarked =>
          cases hrun
          exact looped_blame hs ha (leads_of_marked hs hb hmarked) _
      · next hmarked =>
          have hnot : ¬ LeadsToCycle next b :=
            hs.left b hvisited (Bool.not_eq_true _ ▸ hmarked)
          have h := ih hbs hs ha hrun
          exact { h with
            none := fun hnone =>
              ⟨List.forall_mem_cons.mpr ⟨hnot, (h.none hnone).1⟩, (h.none hnone).2⟩ }

theorem before_enter (hs : Before next a s) : Before next a (s.enter a) where
  visited x hx := by
    by_cases hxa : x = a
    · simp [enter, hxa]
    · simp only [enter, Function.update_of_ne hxa] at hx ⊢
      exact hs.visited x hx
  marked x hx := by
    by_cases hxa : x = a
    · rw [hxa]
      exact .inr .refl
    · simp only [enter, Function.update_of_ne hxa] at hx
      exact hs.marked x hx
  left x hx hnot := by
    by_cases hxa : x = a
    · simp [enter, hxa] at hnot
    · simp only [enter, Function.update_of_ne hxa] at hx hnot
      exact hs.left x hx hnot

theorem dfs_outcome (hnew : s.visited a = false) (hs : Before next a s)
    (hrun : dfs next fuel a s = some r) : Outcome next a s r := by
  induction fuel generalizing a s r with
  | zero => cases hrun
  | succ fuel ih =>
    have hself : (s.enter a).inStack a = true := by simp [enter]
    have hvisited : (s.enter a).visited a = true := by simp [enter]
    have hloop : Looped next a (next a) (s.enter a) r :=
      dfsLoop_looped (fun b s r hnew hs hrun => ih hnew hs hrun) (fun _ h => h)
        (before_enter hs) hself hrun
    have hne {x : α} (hx : s.inStack x = true) : x ≠ a := by
      rintro rfl
      rw [hs.visited x hx] at hnew
      cases hnew
    have hfound : r.1 = true ↔ LeadsToCycle next a := by
      refine ⟨fun h => (hloop.found h).1, fun hlead => ?_⟩
      by_contra hnot
      obtain ⟨b, hb, hlead⟩ := hlead.exists_edge
      exact (hloop.none (Bool.not_eq_true _ ▸ hnot)).1 b hb hlead
    refine ⟨hfound, hloop.visited, fun x hx => ?_, fun x hx hnot => ?_, fun x hx => ?_,
      fun x hx => ?_, (grows_enter s a).trans hloop.grows, hloop.grows.visited a hvisited,
      hloop.victims⟩
    · by_cases hxa : x = a
      · -- the mark of the node itself is kept only if it leads to a cycle
        refine .inr (hxa ▸ hfound.mp ?_)
        by_contra hnone
        rw [hxa, (hloop.none (Bool.not_eq_true _ ▸ hnone)).2] at hx
        cases hx
      · refine (hloop.marked x hx).imp_left fun hx => ?_
        simpa [enter, hxa] using hx
    · by_cases hxa : x = a
      · rw [hxa, ← hfound]
        intro htrue
        rw [hxa, (hloop.found htrue).2] at hnot
        cases hnot
      · exact hloop.left x hxa hx hnot
    · refine hloop.keeps x (hne hx) ?_
      simpa [enter, hne hx] using hx
    · by_cases hxa : x = a
      · exact .inr (hxa ▸ .refl)
      · refine (hloop.visits x hx).imp_left fun hx => ?_
        simpa [enter, hxa] using hx

/-! ### All searches -/

/-- Between two searches: of the nodes that have been visited, those that
lead to a cycle are marked. -/
structure Settled (next : α → List α) (s : Search α) : Prop where
  visited : ∀ x, s.inStack x = true → s.visited x = true
  marked : ∀ x, s.inStack x = true → LeadsToCycle next x
  left : ∀ x, s.visited x = true → s.inStack x = false → ¬ LeadsToCycle next x

omit [DecidableEq α] in
theorem settled_start : Settled next (start : Search α) := ⟨nofun, nofun, nofun⟩

omit [DecidableEq α] in
theorem Settled.before (h : Settled next s) (a : α) : Before next a s :=
  ⟨h.visited, fun x hx => .inl (h.marked x hx), h.left⟩

omit [DecidableEq α] in
theorem Outcome.settled (h : Outcome next a s r) (hs : Settled next s) : Settled next r.2 :=
  ⟨h.visited, fun x hx => (h.marked x hx).elim (hs.marked x) id, h.left⟩

theorem dfsAll_victims {as : List α} {s' : Search α} (hs : Settled next s)
    (hrun : dfsAll next fuel as s = some s') :
    Grows s s' ∧ ∀ v ∈ s'.victims, v ∈ s.victims ∨ LeadsToCycle next v := by
  induction as generalizing s with
  | nil =>
    cases hrun
    exact ⟨.refl _, fun _ => .inl⟩
  | cons a as ih =>
    rw [dfsAll] at hrun
    cases hvisited : s.visited a with
    | false =>
      rw [hvisited, if_pos (by decide)] at hrun
      obtain ⟨r, hdfs, hrun⟩ := Option.bind_eq_some_iff.mp hrun
      have hout := dfs_outcome hvisited (hs.before a) hdfs
      obtain ⟨hgrows, hvictims⟩ := ih (hout.settled hs) hrun
      exact ⟨hout.grows.trans hgrows, fun v hv => (hvictims v hv).elim (hout.victims v) .inr⟩
    | true =>
      rw [hvisited, if_neg (by decide)] at hrun
      exact ih hs hrun

/-! ### A victim that is not on a cycle -/

/-- Behind neighbours that lead to no cycle, an edge to a marked node makes
the node a victim. -/
theorem dfsLoop_blames {pre post : List α} (hpre : ∀ c ∈ pre, c ∈ next a ∧ ¬ LeadsToCycle next c)
    (hs : Before next a s) (ha : s.inStack a = true) (hb : s.visited b = true)
    (hmarked : s.inStack b = true)
    (hrun : dfsLoop (dfs next fuel) a (pre ++ b :: post) s = some r) :
    a ∈ r.2.victims := by
  induction pre generalizing s with
  | nil =>
    rw [List.nil_append, dfsLoop, hb, if_neg (by decide), if_pos hmarked] at hrun
    cases hrun
    exact List.mem_append_right _ (List.mem_singleton_self a)
  | cons c pre ih =>
    obtain ⟨⟨hc, hnot⟩, hpre⟩ := List.forall_mem_cons.mp hpre
    rw [List.cons_append, dfsLoop] at hrun
    cases hvisited : s.visited c with
    | false =>
      rw [hvisited, if_pos (by decide)] at hrun
      obtain ⟨⟨found, s'⟩, hdfs, hrun⟩ := Option.bind_eq_some_iff.mp hrun
      have hout := dfs_outcome hvisited (hs.step hc) hdfs
      cases found with
      | true => exact absurd (hout.found.mp rfl) hnot
      | false =>
        exact ih hpre (hout.before hs) (hout.keeps a ha) (hout.grows.visited b hb)
          (hout.keeps b hmarked) hrun
    | true =>
      rw [hvisited, if_neg (by decide)] at hrun
      split at hrun
      · next hin =>
          obtain hlead | hback := hs.marked c hin
          · exact absurd hlead hnot
          · exact absurd ((onCycle_of_back hc hback).leads.of_reaches hback) hnot
      · exact ih hpre hs ha hb hmarked hrun

/-- A node that leads to a cycle without lying on one is blamed, if the
search starts at the first neighbour that leads to a cycle and goes on with
the node. -/
theorem dfsAll_blames (hlead : LeadsToCycle next a) (hnot : ¬ OnCycle next a) :
    ∃ b ∈ next a, LeadsToCycle next b ∧ b ≠ a ∧ ∀ fuel as s,
      dfsAll next fuel (b :: a :: as) .start = some s → a ∈ s.victims := by
  classical
  obtain ⟨b, hfind⟩ : ∃ b, (next a).find? (fun b => decide (LeadsToCycle next b)) = some b := by
    rw [← Option.isSome_iff_exists, List.find?_isSome]
    obtain ⟨b, hb, hlead⟩ := hlead.exists_edge
    exact ⟨b, hb, decide_eq_true hlead⟩
  obtain ⟨hb, pre, post, hsplit, hpre⟩ := List.find?_eq_some_iff_append.mp hfind
  have hleadb : LeadsToCycle next b := of_decide_eq_true hb
  have hmem : b ∈ next a := by rw [hsplit]; simp
  have hback : ¬ Reaches next b a := fun h => hnot (onCycle_of_back hmem h)
  have hne : b ≠ a := fun h => hback (h ▸ .refl)
  refine ⟨b, hmem, hleadb, hne, fun fuel as s hrun => ?_⟩
  rw [dfsAll, if_pos (by rfl)] at hrun
  obtain ⟨r, hdfs, hrun⟩ := Option.bind_eq_some_iff.mp hrun
  change dfsAll next fuel (a :: as) r.2 = some s at hrun
  have hout := dfs_outcome rfl (settled_start.before b) hdfs
  have hsettled := hout.settled settled_start
  have hmarked : r.2.inStack b = true := by
    by_contra hfalse
    exact hout.left b hout.self (Bool.not_eq_true _ ▸ hfalse) hleadb
  have hnew : r.2.visited a = false := by
    rw [Bool.eq_false_iff]
    exact fun h => (hout.visits a h).elim Bool.false_ne_true hback
  rw [dfsAll, hnew, if_pos (by decide)] at hrun
  obtain ⟨r', hdfs', hrun⟩ := Option.bind_eq_some_iff.mp hrun
  have hout' := dfs_outcome hnew (hsettled.before a) hdfs'
  have hblamed : a ∈ r'.2.victims := by
    obtain _ | fuel := fuel
    · cases hdfs'
    rw [dfs, hsplit] at hdfs'
    refine dfsLoop_blames (fun c hc => ⟨?_, ?_⟩) (before_enter (hsettled.before a)) ?_ ?_ ?_ hdfs'
    · rw [hsplit]
      exact List.mem_append_left _ hc
    · simpa using hpre c hc
    · simp [enter]
    · exact (grows_enter _ a).visited b hout.self
    · simpa [enter, hne] using hmarked
  exact (dfsAll_victims (hout'.settled hsettled) hrun).1.victims.subset hblamed

end MySQLight.Data
