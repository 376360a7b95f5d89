import Mathlib.Data.List.Chain
import MySQLight.Data.CycleBlame

/-!
Which cycles a search for cycles hits.

The search stops at the first edge that leads back into its path. If every
node on a cycle has one neighbour only that leads to a cycle, the search can
but follow the cycle, and blames a node of it (`dfsAll_hits`). If a node on a
cycle has another one, then there is a cycle with an exit at its last node
(`Escape`): a search that goes along the cycle and takes the exit before the
edge back leaves the cycle without a victim (`dfsAll_misses`).
-/

namespace MySQLight.Data

open Relation Search

variable {α : Type} {next : α → List α}

/-! ### Cycles that are hit -/

section Hits

variable {C : α → Prop} [DecidableEq α]

/-- After a search one of the nodes is a victim, or it has visited none of
them. -/
def Hits (C : α → Prop) (s s' : Search α) : Prop :=
  (∃ v ∈ s'.victims, C v) ∨ ∀ x, C x → s'.visited x = true → s.visited x = true

omit [DecidableEq α] in
theorem Hits.trans {s₁ s₂ s₃ : Search α} (h : Hits C s₁ s₂) (h' : Hits C s₂ s₃)
    (hgrows : Grows s₂ s₃) : Hits C s₁ s₃ := by
  obtain ⟨v, hv, hC⟩ | h := h
  · exact .inl ⟨v, hgrows.victims.subset hv, hC⟩
  · exact h'.imp_right fun h' x hx hvisited => h x hx (h' x hx hvisited)

theorem dfsLoop_hits {a : α} {dfs : α → Search α → Option (Bool × Search α)}
    (hdfs : ∀ b s r, s.visited b = false → Before next b s → dfs b s = some r →
      Outcome next b s r ∧ Hits C s r.2)
    (hclosed : C a → ∀ b ∈ next a, LeadsToCycle next b → C b) {bs : List α}
    (hbs : ∀ b ∈ bs, b ∈ next a) {s : Search α} {r : Bool × Search α} (hs : Before next a s)
    (ha : s.inStack a = true) (hrun : dfsLoop dfs a bs s = some r) :
    Hits C s r.2 ∧ (C a → ∀ b ∈ bs, LeadsToCycle next b → ∃ v ∈ r.2.victims, C v) := by
  induction bs generalizing s with
  | nil =>
    cases hrun
    exact ⟨.inr fun _ _ h => h, nofun⟩
  | cons c bs ih =>
    obtain ⟨hc, hbs⟩ := List.forall_mem_cons.mp hbs
    rw [dfsLoop] at hrun
    cases hvisited : s.visited c with
    | false =>
      rw [hvisited, if_pos (by decide)] at hrun
      obtain ⟨⟨found, s'⟩, hdfs', hrun⟩ := Option.bind_eq_some_iff.mp hrun
      obtain ⟨hout, hhits⟩ := hdfs c s _ hvisited (hs.step hc) hdfs'
      cases found with
      | true =>
        cases hrun
        refine ⟨hhits, fun hC b _ _ => ?_⟩
        -- the node that has been visited is one of them
        obtain hvictim | hnone := hhits
        · exact hvictim
        · have := hnone c (hclosed hC c hc (hout.found.mp rfl)) hout.self
          rw [hvisited] at this
          cases this
      | false =>
        have hgrows := (dfsLoop_looped (fun b s r h h' h'' => (hdfs b s r h h' h'').1) hbs
          (hout.before hs) (hout.keeps a ha) hrun).grows
        obtain ⟨hhits', hvictim⟩ := ih hbs (hout.before hs) (hout.keeps a ha) hrun
        refine ⟨hhits.trans hhits' hgrows, fun hC b hb hlead => ?_⟩
        obtain rfl | hb := List.mem_cons.mp hb
        · cases hout.found.mpr hlead
        · exact hvictim hC b hb hlead
    | true =>
      rw [hvisited, if_neg (by decide)] at hrun
      split at hrun
      · cases hrun
        exact ⟨.inr fun _ _ h => h, fun hC _ _ _ => ⟨a, by simp [blame], hC⟩⟩
      · next hmarked =>
          obtain ⟨hhits, hvictim⟩ := ih hbs hs ha hrun
          refine ⟨hhits, fun hC b hb hlead => ?_⟩
          obtain rfl | hb := List.mem_cons.mp hb
          · exact absurd hlead (hs.left b hvisited (Bool.not_eq_true _ ▸ hmarked))
          · exact hvictim hC b hb hlead

section Closed

variable (hclosed : ∀ a, C a → ∀ b ∈ next a, LeadsToCycle next b → C b)
  (hlead : ∀ a, C a → LeadsToCycle next a)
include hclosed hlead

theorem dfs_hits {fuel : Nat} {a : α} {s : Search α} {r : Bool × Search α}
    (hnew : s.visited a = false) (hs : Before next a s) (hrun : dfs next fuel a s = some r) :
    Hits C s r.2 := by
  induction fuel generalizing a s r with
  | zero => cases hrun
  | succ fuel ih =>
    obtain ⟨hhits, hvictim⟩ := dfsLoop_hits (C := C)
      (fun b s r h h' h'' => ⟨dfs_outcome h h' h'', ih h h' h''⟩) (hclosed a) (fun _ h => h)
      (before_enter hs) (by simp [enter]) hrun
    by_cases hC : C a
    · obtain ⟨b, hb, hleadb⟩ := (hlead a hC).exists_edge
      exact .inl (hvictim hC b hb hleadb)
    · refine hhits.imp_right fun h x hx hvisited => ?_
      have hne : x ≠ a := fun hxa => hC (hxa ▸ hx)
      simpa [enter, hne] using h x hx hvisited

/-- Nodes that lead to a cycle only among themselves are hit, as soon as the
search starts from one of them. -/
theorem dfsAll_hits {fuel : Nat} {as : List α} {s s' : Search α} (hs : Settled next s)
    (hrun : dfsAll next fuel as s = some s') :
    Hits C s s' ∧ Grows s s' ∧ ∀ a ∈ as, s'.visited a = true := by
  induction as generalizing s with
  | nil =>
    cases hrun
    exact ⟨.inr fun _ _ h => h, .refl _, nofun⟩
  | cons a as ih =>
    rw [dfsAll] at hrun
    cases hvisited : s.visited a with
    | false =>
      rw [hvisited, if_pos (by decide)] at hrun
      obtain ⟨r, hdfs, hrun⟩ := Option.bind_eq_some_iff.mp hrun
      have hout := dfs_outcome hvisited (hs.before a) hdfs
      have hhits := dfs_hits hclosed hlead hvisited (hs.before a) hdfs
      obtain ⟨hhits', hgrows, hall⟩ := ih (hout.settled hs) hrun
      exact ⟨hhits.trans hhits' hgrows, hout.grows.trans hgrows,
        List.forall_mem_cons.mpr ⟨hgrows.visited a hout.self, hall⟩⟩
    | true =>
      rw [hvisited, if_neg (by decide)] at hrun
      obtain ⟨hhits, hgrows, hall⟩ := ih hs hrun
      exact ⟨hhits, hgrows, List.forall_mem_cons.mpr ⟨hgrows.visited a hvisited, hall⟩⟩

end Closed

end Hits

/-! ### A cycle with an exit -/

section Escape

variable {edge : α → α → Prop} {path : List α} {a b m t x : α}

/-- A path around a cycle, from the node `a` to one that has an edge back to
`a` and another one to `m`, off the cycle but on the way to a cycle. -/
structure Escape (edge : α → α → Prop) (path : List α) (a m : α) : Prop where
  head : path.head? = some a
  nodup : (m :: path).Nodup
  back : (path ++ [a]).IsChain edge
  exit : (path ++ [m]).IsChain edge
  leads : ∃ c, ReflTransGen edge m c ∧ TransGen edge c c

theorem exists_path (h : ReflTransGen edge a b) :
    ∃ path, path.head? = some a ∧ path.Nodup ∧ ∀ x, edge b x → (path ++ [x]).IsChain edge := by
  induction h using ReflTransGen.head_induction_on with
  | refl => exact ⟨[b], rfl, List.nodup_singleton b, fun x hx => by simpa using hx⟩
  | @head a c hac _ ih =>
    obtain ⟨path, hhead, hnodup, hchain⟩ := ih
    by_cases ha : a ∈ path
    · -- cut off what is before the node
      obtain ⟨front, rest, rfl⟩ := List.append_of_mem ha
      refine ⟨a :: rest, rfl, (List.nodup_append.mp hnodup).2.1, fun x hx => ?_⟩
      have hx := hchain x hx
      rw [List.append_assoc, List.cons_append, List.isChain_split] at hx
      exact hx.2
    · refine ⟨a :: path, rfl, List.nodup_cons.mpr ⟨ha, hnodup⟩, fun x hx => ?_⟩
      rw [List.cons_append, List.isChain_cons]
      refine ⟨fun y hy => ?_, hchain x hx⟩
      rw [List.head?_append, hhead] at hy
      cases hy
      exact hac

theorem transGen_of_isChain (hhead : path.head? = some a) (hback : (path ++ [a]).IsChain edge) :
    TransGen edge a a := by
  obtain ⟨rest, rfl⟩ := List.head?_eq_some_iff.mp hhead
  obtain ⟨b, rest', hrest⟩ := List.exists_cons_of_ne_nil
    (List.append_ne_nil_of_right_ne_nil rest (List.cons_ne_nil a []))
  rw [List.cons_append, hrest, List.isChain_cons_cons] at hback
  refine .head' hback.1 (List.relationReflTransGen_of_exists_isChain_cons rest' hback.2 ?_)
  simp only [← hrest, List.getLast_append_singleton]

theorem Escape.leads_of_mem (h : Escape edge path a m) (hx : x ∈ path) :
    ∃ c, ReflTransGen edge x c ∧ TransGen edge c c := by
  obtain ⟨front, rest, rfl⟩ := List.append_of_mem hx
  have hback := h.back
  rw [List.append_assoc, List.cons_append, List.isChain_split] at hback
  exact ⟨a, List.relationReflTransGen_of_exists_isChain_cons (rest ++ [a]) hback.2 (by simp),
    transGen_of_isChain h.head h.back⟩

/-- A node on a cycle with two neighbours that lead to cycles is the last
one of a cycle with an exit. -/
theorem exists_escape {n n' : α} (ht : TransGen edge t t) (hn : edge t n) (hn' : edge t n')
    (hne : n ≠ n') (hlead : ∃ c, ReflTransGen edge n c ∧ TransGen edge c c)
    (hlead' : ∃ c, ReflTransGen edge n' c ∧ TransGen edge c c) :
    ∃ path a m, Escape edge path a m := by
  obtain ⟨a, hta, hat⟩ := TransGen.head'_iff.mp ht
  obtain ⟨path, hhead, hnodup, hchain⟩ := exists_path hat
  obtain ⟨m, hm, hma, hlead⟩ : ∃ m, edge t m ∧ m ≠ a ∧
      ∃ c, ReflTransGen edge m c ∧ TransGen edge c c := by
    by_cases hna : n = a
    · exact ⟨n', hn', fun h => hne (hna.trans h.symm), hlead'⟩
    · exact ⟨n, hn, hna, hlead⟩
  have hback := hchain a hta
  have hexit := hchain m hm
  by_cases hmem : m ∈ path
  · -- the other neighbour is on the path: the cycle from there, with the first one as the exit
    obtain ⟨front, rest, rfl⟩ := List.append_of_mem hmem
    have hfront : a ∈ front := by
      rcases front with _ | ⟨b, front⟩
      · cases hhead
        exact absurd rfl hma
      · cases hhead
        exact List.mem_cons_self
    obtain ⟨-, hnodup', hdisjoint⟩ := List.nodup_append.mp hnodup
    rw [List.append_assoc, List.cons_append, List.isChain_split] at hback hexit
    refine ⟨m :: rest, m, a, rfl, List.nodup_cons.mpr ⟨?_, hnodup'⟩, hexit.2, hback.2, ?_⟩
    · exact fun ha => hdisjoint a hfront a ha rfl
    · exact ⟨t, hat, ht⟩
  · exact ⟨path, a, m, hhead, List.nodup_cons.mpr ⟨hmem, hnodup⟩, hback, hexit, hlead⟩

/-- A shortcut, or a cycle within the cycle, would be a shorter cycle with an
exit. -/
theorem Escape.exists_shorter {c c' d : α} {front rest : List α} (h : Escape edge path a m)
    (hpath : path = front ++ c' :: d :: rest) (hc : c ∈ path) (hcd : edge c d) (hne : c ≠ c') :
    ∃ path' a' m', Escape edge path' a' m' ∧ path'.length < path.length := by
  subst hpath
  obtain ⟨hm, hnodup⟩ := List.nodup_cons.mp h.nodup
  have hback := h.back
  have hexit := h.exit
  have hcases : c ∈ front ∨ c ∈ d :: rest := by
    rw [List.mem_append, List.mem_cons] at hc
    tauto
  obtain hc | hc := hcases
  · -- leave out what is between the two ends of the shortcut
    obtain ⟨front, between, rfl⟩ := List.append_of_mem hc
    have hsub : (front ++ c :: d :: rest).Sublist ((front ++ c :: between) ++ c' :: d :: rest) := by
      simp
    have hshort {x : α} (hx : ((front ++ c :: between ++ c' :: d :: rest) ++ [x]).IsChain edge) :
        ((front ++ c :: d :: rest) ++ [x]).IsChain edge := by
      rw [List.append_assoc, List.cons_append, List.cons_append, List.isChain_append_cons_cons,
        List.append_assoc, List.cons_append, List.isChain_split] at hx
      rw [List.append_assoc, List.cons_append, List.cons_append, List.isChain_append_cons_cons]
      exact ⟨hx.1.1, hcd, hx.2.2⟩
    refine ⟨front ++ c :: d :: rest, a, m, ⟨?_, ?_, hshort hback, hshort hexit, h.leads⟩, ?_⟩
    · have hhead := h.head
      cases front <;> simpa using hhead
    · exact List.nodup_cons.mpr ⟨fun hmem => hm (hsub.subset hmem), hnodup.sublist hsub⟩
    · simp only [List.length_append, List.length_cons]
      omega
  · -- the cycle from the one end of the edge to the other; the way on is the exit
    obtain ⟨inner, outer, hsplit⟩ := List.append_of_mem hc
    have hhead : (inner ++ [c]).head? = some d := by
      cases inner <;> cases hsplit <;> rfl
    obtain ⟨m', outer', houter⟩ := List.exists_cons_of_ne_nil
      (List.append_ne_nil_of_right_ne_nil outer (List.cons_ne_nil a []))
    have hmem : m' ∈ outer ∨ m' ∈ front ++ [c'] := by
      have hm' : m' ∈ outer ++ [a] := houter ▸ List.mem_cons_self
      obtain hm' | hm' := List.mem_append.mp hm'
      · exact .inl hm'
      · cases List.mem_singleton.mp hm'
        have hhead := h.head
        cases front <;> simp_all
    rw [hsplit] at hback hnodup ⊢
    have hinner : (inner ++ [c, m']).IsChain edge := by
      refine hback.infix ⟨front ++ [c'], outer', ?_⟩
      simp [houter]
    rw [List.isChain_append_cons_cons] at hinner
    have hnodup' : ((inner ++ [c]) ++ (outer ++ (front ++ [c']))).Nodup := by
      have hcomm : ((front ++ [c']) ++ ((inner ++ [c]) ++ outer)).Perm
          ((inner ++ [c]) ++ outer ++ (front ++ [c'])) := List.perm_append_comm
      simp only [List.append_assoc, List.singleton_append] at hcomm ⊢
      exact hcomm.nodup_iff.mp hnodup
    refine ⟨inner ++ [c], d, m', ⟨hhead, ?_, ?_, ?_, ?_⟩, ?_⟩
    · refine List.nodup_cons.mpr ⟨fun hin => ?_, (List.nodup_append.mp hnodup').1⟩
      exact (List.nodup_append.mp hnodup').2.2 m' hin m' (List.mem_append.mpr hmem) rfl
    · rw [List.append_assoc, List.singleton_append, List.isChain_append_cons_cons]
      exact ⟨hinner.1, hcd, .singleton d⟩
    · rw [List.append_assoc, List.singleton_append, List.isChain_append_cons_cons]
      exact hinner
    · refine h.leads_of_mem ?_
      rw [hsplit]
      simp only [List.mem_append, List.mem_cons, List.not_mem_nil, or_false] at hmem ⊢
      tauto
    · simp only [List.length_append, List.length_cons, List.length_nil]
      omega

/-- A cycle with an exit, from which only the edges along the cycle lead to
nodes on it other than the first one. -/
theorem Escape.exists_straight (h : Escape edge path a m) :
    ∃ path a m, Escape edge path a m ∧
      ∀ c c' d front rest, path = front ++ c' :: d :: rest → c ∈ path → edge c d → c = c' := by
  induction hlen : path.length using Nat.strong_induction_on generalizing path a m with
  | _ n ih =>
    subst hlen
    by_cases hall : ∀ c c' d front rest, path = front ++ c' :: d :: rest → c ∈ path →
        edge c d → c = c'
    · exact ⟨path, a, m, h, hall⟩
    · push Not at hall
      obtain ⟨c, c', d, front, rest, hpath, hc, hcd, hne⟩ := hall
      obtain ⟨path', a', m', h', hlt⟩ := h.exists_shorter hpath hc hcd hne
      exact ih path'.length hlt h' rfl

end Escape

/-! ### A cycle that is missed -/

section Misses

variable {s : Search α} {r : Bool × Search α} {fuel : Nat}

theorem Search.Grows.unvisited {s' : Search α} (h : Grows s s') {v : α}
    (hv : s'.visited v = false) :
    s.visited v = false := by
  rw [Bool.eq_false_iff] at hv ⊢
  exact mt (h.visited v) hv

variable [DecidableEq α] {a m : α} {path : List α}

theorem dfsLoop_fresh {dfs : α → Search α → Option (Bool × Search α)}
    (hdfs : ∀ b s r, s.visited b = false → dfs b s = some r →
      Grows s r.2 ∧ ∀ v ∈ r.2.victims, v ∈ s.victims ∨ s.visited v = false) {bs : List α}
    (hrun : dfsLoop dfs a bs s = some r) :
    Grows s r.2 ∧ ∀ v ∈ r.2.victims, v ∈ s.victims ∨ v = a ∨ s.visited v = false := by
  induction bs generalizing s with
  | nil =>
    cases hrun
    exact ⟨⟨fun _ h => h, List.prefix_refl _⟩, fun _ => .inl⟩
  | cons b bs ih =>
    rw [dfsLoop] at hrun
    cases hvisited : s.visited b with
    | false =>
      rw [hvisited, if_pos (by decide)] at hrun
      obtain ⟨⟨found, s'⟩, hdfs', hrun⟩ := Option.bind_eq_some_iff.mp hrun
      obtain ⟨hgrows, hfresh⟩ := hdfs b s _ hvisited hdfs'
      cases found with
      | true =>
        cases hrun
        exact ⟨hgrows, fun v hv => (hfresh v hv).imp_right .inr⟩
      | false =>
        obtain ⟨hgrows', hfresh'⟩ := ih hrun
        refine ⟨hgrows.trans hgrows', fun v hv => ?_⟩
        obtain hv | hv | hv := hfresh' v hv
        · exact (hfresh v hv).imp_right .inr
        · exact .inr (.inl hv)
        · exact .inr (.inr (hgrows.unvisited hv))
    | true =>
      rw [hvisited, if_neg (by decide)] at hrun
      split at hrun
      · cases hrun
        refine ⟨⟨fun _ h => h, List.prefix_append _ _⟩, fun v hv => ?_⟩
        rw [blame, List.mem_append, List.mem_singleton] at hv
        exact hv.imp_right .inl
      · exact ih hrun

/-- The victims of a search are nodes that it has visited itself. -/
theorem dfs_fresh (hnew : s.visited a = false) (hrun : dfs next fuel a s = some r) :
    Grows s r.2 ∧ ∀ v ∈ r.2.victims, v ∈ s.victims ∨ s.visited v = false := by
  induction fuel generalizing a s r with
  | zero => cases hrun
  | succ fuel ih =>
    obtain ⟨hgrows, hfresh⟩ := dfsLoop_fresh (fun b s r => ih) hrun
    refine ⟨(grows_enter s a).trans hgrows, fun v hv => ?_⟩
    obtain hv | rfl | hv := hfresh v hv
    · exact .inl hv
    · exact .inr hnew
    · exact .inr ((grows_enter s a).unvisited hv)

theorem dfsAll_fresh {as : List α} {s' : Search α} (hrun : dfsAll next fuel as s = some s') :
    ∀ v ∈ s'.victims, v ∈ s.victims ∨ s.visited v = false := by
  induction as generalizing s with
  | nil =>
    cases hrun
    exact fun _ => .inl
  | cons a as ih =>
    rw [dfsAll] at hrun
    cases hvisited : s.visited a with
    | false =>
      rw [hvisited, if_pos (by decide)] at hrun
      obtain ⟨r, hdfs, hrun⟩ := Option.bind_eq_some_iff.mp hrun
      obtain ⟨hgrows, hfresh⟩ := dfs_fresh hvisited hdfs
      intro v hv
      obtain hv | hv := ih hrun v hv
      · exact hfresh v hv
      · exact .inr (hgrows.unvisited hv)
    | true =>
      rw [hvisited, if_neg (by decide)] at hrun
      exact ih hrun

/-- The search goes along the path, if the next node on it is the first
neighbour, and finds a cycle behind it. -/
theorem dfs_along (hchain : (path ++ [m]).IsChain fun c d => ∃ others, next c = d :: others)
    (hnodup : (path ++ [m]).Nodup) (hlead : LeadsToCycle next m)
    (hnew : ∀ x ∈ path ++ [m], s.visited x = false) (ha : (path ++ [m]).head? = some a)
    (hs : Before next a s) (hrun : dfs next fuel a s = some r) :
    r.1 = true ∧ (∀ x ∈ path, r.2.visited x = true) ∧
      ∀ v ∈ r.2.victims, v ∈ s.victims ∨ s.visited v = false ∧ v ∉ path := by
  induction path generalizing fuel a s r with
  | nil =>
    cases ha
    have hm := hnew m (by simp)
    refine ⟨(dfs_outcome hm hs hrun).found.mpr hlead, nofun, fun v hv => ?_⟩
    exact ((dfs_fresh hm hrun).2 v hv).imp_right fun h => ⟨h, nofun⟩
  | cons c path ih =>
    cases ha
    obtain _ | fuel := fuel
    · cases hrun
    obtain ⟨d, rest, hrest⟩ := List.exists_cons_of_ne_nil
      (List.append_ne_nil_of_right_ne_nil path (List.cons_ne_nil m []))
    rw [List.cons_append, List.nodup_cons] at hnodup
    rw [List.cons_append, hrest, List.isChain_cons_cons] at hchain
    obtain ⟨⟨others, hothers⟩, hchain⟩ := hchain
    have hne {x : α} (hx : x ∈ path ++ [m]) : x ≠ c := fun h => hnodup.1 (h ▸ hx)
    have hnew' : ∀ x ∈ path ++ [m], (s.enter c).visited x = false := by
      intro x hx
      simpa [enter, hne hx] using hnew x (List.mem_cons_of_mem _ hx)
    have hd : d ∈ path ++ [m] := hrest ▸ List.mem_cons_self
    rw [dfs, hothers, dfsLoop, hnew' d hd, if_pos (by decide)] at hrun
    obtain ⟨r', hdfs, hrun⟩ := Option.bind_eq_some_iff.mp hrun
    have hbefore : Before next d (s.enter c) :=
      (before_enter hs).step (hothers ▸ List.mem_cons_self)
    obtain ⟨hfound, hvisited, hvictims⟩ := ih (hrest ▸ hchain) hnodup.2 hnew' (by rw [hrest]; rfl)
      hbefore hdfs
    obtain ⟨found, s'⟩ := r'
    cases hfound
    cases hrun
    have hgrows := (dfs_fresh (hnew' d hd) hdfs).1
    refine ⟨rfl, List.forall_mem_cons.mpr ⟨hgrows.visited c (by simp [enter]), hvisited⟩, ?_⟩
    intro v hv
    refine (hvictims v hv).imp_right fun h => ?_
    have hvc : v ≠ c := by
      rintro rfl
      simp [enter] at h
    simp only [enter, Function.update_of_ne hvc] at h
    exact ⟨h.1, fun hmem => (List.mem_cons.mp hmem).elim hvc h.2⟩

/-- No node of the path is a victim, if the search starts at its first one. -/
theorem dfsAll_misses {as : List α}
    (hchain : (path ++ [m]).IsChain fun c d => ∃ others, next c = d :: others)
    (hnodup : (path ++ [m]).Nodup) (hlead : LeadsToCycle next m) (ha : (path ++ [m]).head? = some a)
    (hrun : dfsAll next fuel (a :: as) .start = some s) : ∀ x ∈ path, x ∉ s.victims := by
  intro x hx hvictim
  rw [dfsAll, if_pos (by rfl)] at hrun
  obtain ⟨r, hdfs, hrun⟩ := Option.bind_eq_some_iff.mp hrun
  obtain ⟨-, hvisited, hvictims⟩ := dfs_along hchain hnodup hlead (fun _ _ => rfl) ha
    (settled_start.before a) hdfs
  obtain hold | hnew := dfsAll_fresh hrun x hvictim
  · obtain hnone | hnot := hvictims x hold
    · cases hnone
    · exact hnot.2 hx
  · rw [hvisited x hx] at hnew
    cases hnew

end Misses

end MySQLight.Data
