import Mathlib.Data.List.Basic
import Mathlib.Data.List.Perm.Basic
import Mathlib.Logic.Function.Basic
import Mathlib.Order.Basic
import Mathlib.Order.Defs.LinearOrder
import Mathlib.Order.Lattice
import Mathlib.Tactic.Common

/-!
Finite maps with their entries in key order.

This is what a search tree is for: a key has at most one value, the
entries are enumerated from the least key to the greatest, and two maps
that answer every lookup alike are the same map.
-/

namespace MySQLight.Data

/-- Entries with strictly ascending keys. -/
structure OrderedMap (α β : Type) [LinearOrder α] where
  entries : List (α × β)
  sorted : entries.Pairwise fun a b => a.1 < b.1

namespace OrderedMap

variable {α β : Type} [LinearOrder α] {m m' : OrderedMap α β} {k k' : α} {v v' : β}

def empty : OrderedMap α β := ⟨[], .nil⟩

def lookup (m : OrderedMap α β) (k : α) : Option β :=
  (m.entries.find? fun e => e.1 = k).map (·.2)

/-- Bind `k` to `v`, in place of what it was bound to. -/
def insert (m : OrderedMap α β) (k : α) (v : β) : OrderedMap α β where
  entries := m.entries.filter (fun e => e.1 < k) ++ (k, v) :: m.entries.filter fun e => k < e.1
  sorted := by
    refine List.pairwise_append.mpr ⟨m.sorted.filter _, List.pairwise_cons.mpr
      ⟨fun e he => ?_, m.sorted.filter _⟩, fun e he e' he' => ?_⟩
    · simpa using (List.mem_filter.mp he).2
    · have hlt : e.1 < k := by simpa using (List.mem_filter.mp he).2
      obtain rfl | he' := List.mem_cons.mp he'
      · exact hlt
      · exact hlt.trans (by simpa using (List.mem_filter.mp he').2)

def erase (m : OrderedMap α β) (k : α) : OrderedMap α β where
  entries := m.entries.filter fun e => e.1 ≠ k
  sorted := m.sorted.filter _

/-! ### Entries and lookups -/

/-- A key has one value. -/
theorem eq_of_mem (h : (k, v) ∈ m.entries) (h' : (k, v') ∈ m.entries) : v = v' := by
  have hkeys : ∀ a ∈ m.entries, ∀ b ∈ m.entries, a.1 = b.1 → a = b :=
    List.Pairwise.forall_of_forall_of_flip (fun _ _ _ => rfl)
      (m.sorted.imp fun hab heq => absurd heq hab.ne)
      (m.sorted.imp fun hab heq => absurd heq hab.ne')
  exact congrArg Prod.snd (hkeys _ h _ h' rfl)

theorem mem_of_lookup (h : m.lookup k = some v) : (k, v) ∈ m.entries := by
  obtain ⟨⟨k', v'⟩, hfind, rfl⟩ := Option.map_eq_some_iff.mp h
  have hk : k' = k := by simpa using List.find?_some hfind
  rw [← hk]
  exact List.mem_of_find?_eq_some hfind

theorem mem_entries : (k, v) ∈ m.entries ↔ m.lookup k = some v := by
  refine ⟨fun h => ?_, mem_of_lookup⟩
  cases hlookup : m.lookup k with
  | none =>
    have hnone := List.find?_eq_none.mp (Option.map_eq_none_iff.mp hlookup) _ h
    simp at hnone
  | some v' => rw [eq_of_mem (mem_of_lookup hlookup) h]

@[simp] theorem lookup_empty (k : α) : (empty : OrderedMap α β).lookup k = none := rfl

theorem lookup_insert_self (m : OrderedMap α β) (k : α) (v : β) :
    (m.insert k v).lookup k = some v :=
  mem_entries.mp (List.mem_append_right _ List.mem_cons_self)

theorem lookup_insert_of_ne (m : OrderedMap α β) (v : β) (h : k' ≠ k) :
    (m.insert k v).lookup k' = m.lookup k' := by
  refine Option.ext fun w => ?_
  rw [← mem_entries, ← mem_entries, insert, List.mem_append, List.mem_cons, List.mem_filter,
    List.mem_filter]
  constructor
  · rintro (⟨hmem, -⟩ | heq | ⟨hmem, -⟩)
    · exact hmem
    · exact absurd (congrArg Prod.fst heq) h
    · exact hmem
  · intro hmem
    obtain hlt | hgt := lt_or_gt_of_ne h
    · exact .inl ⟨hmem, by simpa using hlt⟩
    · exact .inr (.inr ⟨hmem, by simpa using hgt⟩)

theorem lookup_insert (m : OrderedMap α β) (k k' : α) (v : β) :
    (m.insert k v).lookup k' = if k' = k then some v else m.lookup k' := by
  split_ifs with h
  · rw [h, lookup_insert_self]
  · exact lookup_insert_of_ne m v h

theorem lookup_erase (m : OrderedMap α β) (k k' : α) :
    (m.erase k).lookup k' = if k' = k then none else m.lookup k' := by
  refine Option.ext fun w => ?_
  rw [← mem_entries, erase, List.mem_filter, mem_entries]
  split_ifs with h
  · simp [h]
  · simp [h]

/-! ### The place of a key -/

/-- Entries with keys on both sides of a key. -/
def Around (es : List (α × β)) (k : α) (es' : List (α × β)) : Prop :=
  (∀ e ∈ es, e.1 < k) ∧ ∀ e ∈ es', k < e.1

/-- A key has an entry, or there is a place for it. -/
theorem cut (m : OrderedMap α β) (k : α) : ∃ es es', Around es k es' ∧
    ((∃ v, m.lookup k = some v ∧ m.entries = es ++ (k, v) :: es') ∨
      m.lookup k = none ∧ m.entries = es ++ es') := by
  have hsorted := m.sorted
  rw [← List.takeWhile_append_dropWhile (p := fun e => e.1 < k) (l := m.entries),
    List.pairwise_append] at hsorted
  have hsplit := List.takeWhile_append_dropWhile (p := fun e => e.1 < k) (l := m.entries)
  have hlow : ∀ e ∈ m.entries.takeWhile fun e => e.1 < k, e.1 < k :=
    fun e he => by simpa using List.all_eq_true.mp List.all_takeWhile e he
  have hhead := List.head?_dropWhile_not (fun e => decide (e.1 < k)) m.entries
  generalize m.entries.takeWhile (fun e => e.1 < k) = es at hsplit hsorted hlow
  generalize m.entries.dropWhile (fun e => e.1 < k) = rest at hsplit hsorted hhead
  have hnone (h : ∀ e ∈ es ++ rest, e.1 ≠ k) : m.lookup k = none := by
    cases hk : m.lookup k with
    | none => rfl
    | some v => exact absurd rfl (h _ (hsplit ▸ mem_of_lookup hk))
  cases rest with
  | nil => exact ⟨es, [], ⟨hlow, by simp⟩, .inr
      ⟨hnone fun e he => (hlow e (by simpa using he)).ne, hsplit.symm⟩⟩
  | cons e rest =>
    have hrest := (List.pairwise_cons.mp hsorted.2.1).1
    rcases lt_trichotomy e.1 k with hlt | rfl | hgt
    · simp [hlt] at hhead
    · exact ⟨es, rest, ⟨hlow, hrest⟩, .inl
        ⟨e.2, mem_entries.mp (hsplit ▸ by simp), hsplit.symm⟩⟩
    · have habove : ∀ a ∈ e :: rest, k < a.1 := by
        intro a ha
        rcases List.mem_cons.mp ha with rfl | ha
        · exact hgt
        · exact hgt.trans (hrest a ha)
      refine ⟨es, e :: rest, ⟨hlow, habove⟩, .inr ⟨hnone fun a ha => ?_, hsplit.symm⟩⟩
      rcases List.mem_append.mp ha with ha | ha
      · exact (hlow a ha).ne
      · exact (habove a ha).ne'

variable {es es' : List (α × β)}

theorem entries_insert_of_cut (h : Around es k es') (hm : m.entries = es ++ es') :
    (m.insert k v).entries = es ++ (k, v) :: es' := by
  change m.entries.filter _ ++ (k, v) :: m.entries.filter _ = _
  rw [hm, List.filter_append, List.filter_append,
    List.filter_eq_self.mpr (by simpa using h.1), List.filter_eq_nil_iff.mpr (by
      simpa using fun a b hab => (h.2 (a, b) hab).le), List.filter_eq_nil_iff.mpr (by
      simpa using fun a b hab => (h.1 (a, b) hab).le), List.filter_eq_self.mpr (by
      simpa using h.2), List.append_nil, List.nil_append]

theorem entries_erase_of_cut (h : Around es k es') (hm : m.entries = es ++ (k, v) :: es') :
    (m.erase k).entries = es ++ es' := by
  change m.entries.filter _ = _
  rw [hm, List.filter_append, List.filter_cons_of_neg (by simp),
    List.filter_eq_self.mpr (by simpa using fun a b hab => (h.1 (a, b) hab).ne),
    List.filter_eq_self.mpr (by simpa using fun a b hab => (h.2 (a, b) hab).ne')]

/-! ### Going through the entries -/

section BindAll

variable [DecidableEq α]

/-- The bindings after those of the entries are made one after the other. -/
def bindAll (bound : α → Option β) (es : List (α × β)) : α → Option β :=
  es.foldl (fun bound e => Function.update bound e.1 (some e.2)) bound

omit [LinearOrder α] in
theorem bindAll_of_not_mem {bound : α → Option β} {es : List (α × β)} (h : ∀ e ∈ es, e.1 ≠ k) :
    bindAll bound es k = bound k := by
  induction es generalizing bound with
  | nil => rfl
  | cons e es ih =>
    obtain ⟨he, hes⟩ := List.forall_mem_cons.mp h
    exact (ih hes).trans (Function.update_of_ne he.symm ..)

theorem bindAll_of_mem {bound : α → Option β} {es : List (α × β)}
    (hes : es.Pairwise fun a b => a.1 < b.1) (h : (k, v) ∈ es) : bindAll bound es k = some v := by
  induction es generalizing bound with
  | nil => cases h
  | cons e es ih =>
    obtain ⟨he, hes⟩ := List.pairwise_cons.mp hes
    obtain rfl | h := List.mem_cons.mp h
    · exact (bindAll_of_not_mem fun e' he' => (he e' he').ne').trans (Function.update_self ..)
    · exact ih hes h

theorem bindAll_entries (m : OrderedMap α β) :
    bindAll (fun _ => none) m.entries = m.lookup := by
  funext k
  cases hk : m.lookup k with
  | some v => exact bindAll_of_mem m.sorted (mem_entries.mpr hk)
  | none =>
    refine bindAll_of_not_mem fun e he heq => ?_
    rw [← heq, mem_entries.mp he] at hk
    cases hk

end BindAll

end OrderedMap

end MySQLight.Data
