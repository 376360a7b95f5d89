import Mathlib.Data.List.Forall2
import MySQLight.Effect.Stream

/-!
What a stream delivers.

A delivery is a stream that calls nothing: elements one after the other, up
to an end or an error. It says what a consumer sees who asks for one element
after the other; a consumer who stops does not see the rest.

A stream over a layer below `Delivers` a delivery if, whenever it is asked,
from a state that the relation `R` allows, it comes up with the elements of
the delivery and with its end. It may also stop with an error of a kind that
is given beforehand. Each way of building streams keeps this, so what a
stream delivers is computed from what its parts deliver.
-/

namespace MySQLight.Effect

/-- The interface without operations. -/
abbrev Interface.empty : Interface := ⟨Empty, fun _ => Unit⟩

/-- Elements, up to an end or an error. -/
abbrev Delivery (ε α : Type) : Type := Stream .empty ε α

/-- Errors that are related, or results that are. -/
inductive Alike {ε α β : Type} (E : ε → ε → Prop) (P : α → β → Prop) :
    Except ε α → Except ε β → Prop
  | error {e e' : ε} (h : E e e') : Alike E P (.error e) (.error e')
  | ok {a : α} {b : β} (h : P a b) : Alike E P (.ok a) (.ok b)

namespace Alike

variable {ε α β γ δ : Type} {E : ε → ε → Prop} {P : α → β → Prop} {Q : γ → δ → Prop}
  {x : Except ε α} {y : Except ε β}

theorem bind {f : α → Except ε γ} {g : β → Except ε δ} (h : Alike E P x y)
    (hf : ∀ a b, P a b → Alike E Q (f a) (g b)) : Alike E Q (x >>= f) (y >>= g) := by
  cases h with
  | error h => exact .error h
  | ok h => exact hf _ _ h

theorem imp {P' : α → β → Prop} (h : Alike E P x y) (hP : ∀ a b, P a b → P' a b) :
    Alike E P' x y := by
  cases h with
  | error h => exact .error h
  | ok h => exact .ok (hP _ _ h)

theorem eq {y : Except ε α} (h : Alike Eq Eq x y) : x = y := by
  cases h with
  | error h => rw [h]
  | ok h => rw [h]

theorem of_eq [Std.Refl E] {y : Except ε α} (h : x = y) : Alike E Eq x y := by
  subst h
  cases x with
  | error e => exact .error (refl_of E e)
  | ok a => exact .ok rfl

theorem exists_of_left {a : α} (h : Alike E P (.ok a) y) : ∃ b, y = .ok b ∧ P a b := by
  cases h with
  | ok h => exact ⟨_, rfl, h⟩

theorem exists_of_right {b : β} (h : Alike E P x (.ok b)) : ∃ a, x = .ok a ∧ P a b := by
  cases h with
  | ok h => exact ⟨_, rfl, h⟩

theorem symm [Std.Symm E] {y : Except ε α} (h : Alike E Eq x y) : Alike E Eq y x := by
  cases h with
  | error h => exact .error (symm_of E h)
  | ok h => exact .ok h.symm

end Alike

namespace Stream

variable {I : Interface} {ε α β γ δ σ τ : Type}

/-! ### All elements of a delivery -/

/-- All elements, or the error that comes after some of them. -/
def drain : Delivery ε α → Except ε (List α)
  | done => .ok []
  | fail e => .error e
  | emit a rest => rest.drain.map (a :: ·)
  | call o _ => o.elim

@[simp] theorem drain_ofList (as : List α) : drain (ofList as : Delivery ε α) = .ok as := by
  induction as with
  | nil => rfl
  | cons a as ih => rw [ofList, drain, ih]; rfl

variable {s : Delivery ε α}

theorem drain_eq_ok {as : List α} : s.drain = .ok as ↔ s = ofList as := by
  refine ⟨fun h => ?_, fun h => by rw [h, drain_ofList]⟩
  induction s generalizing as with
  | done =>
    cases h
    rfl
  | fail e => cases h
  | emit a rest ih =>
    rw [drain] at h
    cases hrest : rest.drain with
    | error e =>
      rw [hrest] at h
      cases h
    | ok bs =>
      rw [hrest] at h
      cases h
      rw [ih hrest]
      rfl
  | call o => exact o.elim

theorem drain_filterMap_of_ok {f : α → Except ε (Option β)} {g : α → Option β} {as : List α}
    (h : ∀ a ∈ as, f a = .ok (g a)) :
    drain (filterMap f (ofList as) : Delivery ε β) = .ok (as.filterMap g) := by
  induction as with
  | nil => rfl
  | cons a as ih =>
    obtain ⟨ha, has⟩ := List.forall_mem_cons.mp h
    rw [ofList, filterMap, ha, List.filterMap_cons]
    cases g a with
    | none => exact ih has
    | some b => exact congrArg (Except.map (b :: ·)) (ih has)

/-- Consuming a delivery needs no layer below. -/
def collect (f : β → α → Except ε β) (b : β) : Delivery ε α → Except ε β
  | done => .ok b
  | fail e => .error e
  | emit a rest => (f b a).bind fun b' => rest.collect f b'
  | call o _ => o.elim

theorem collect_append (s : Delivery ε α) (as : List α) :
    s.collect (fun as a => .ok (as ++ [a])) as = s.drain.map (as ++ ·) := by
  induction s generalizing as with
  | done => exact congrArg Except.ok (List.append_nil as).symm
  | fail e => rfl
  | emit a rest ih =>
    refine (ih (as ++ [a])).trans ?_
    rw [drain]
    cases rest.drain with
    | error e => rfl
    | ok bs => exact congrArg Except.ok (List.append_assoc as [a] bs)
  | call o => exact o.elim

/-! ### One stream for each element -/

theorem append_assoc (s t u : Stream I ε α) : (s.append t).append u = s.append (t.append u) := by
  induction s with
  | done => rfl
  | fail e => rfl
  | emit a rest ih => exact congrArg (emit a) ih
  | call o k ih => exact congrArg (call o) (funext ih)

theorem append_flatMap (s t : Stream I ε α) (f : α → Stream I ε β) :
    (s.append t).flatMap f = (s.flatMap f).append (t.flatMap f) := by
  induction s with
  | done => rfl
  | fail e => rfl
  | emit a rest ih => exact (congrArg (f a).append ih).trans (append_assoc ..).symm
  | call o k ih => exact congrArg (call o) (funext ih)

theorem flatMap_flatMap (s : Stream I ε α) (f : α → Stream I ε β) (g : β → Stream I ε γ) :
    (s.flatMap f).flatMap g = s.flatMap fun a => (f a).flatMap g := by
  induction s with
  | done => rfl
  | fail e => rfl
  | emit a rest ih => exact (append_flatMap ..).trans (congrArg ((f a).flatMap g).append ih)
  | call o k ih => exact congrArg (call o) (funext ih)

theorem flatMap_emit (s : Stream I ε α) : s.flatMap (emit · done) = s := by
  induction s with
  | done => rfl
  | fail e => rfl
  | emit a rest ih => exact congrArg (emit a) ih
  | call o k ih => exact congrArg (call o) (funext ih)

/-- At most one element, or an error. -/
def ofOption : Except ε (Option α) → Stream I ε α
  | .error e => fail e
  | .ok none => done
  | .ok (some a) => emit a done

theorem filterMap_eq_flatMap (f : α → Except ε (Option β)) (s : Stream I ε α) :
    s.filterMap f = s.flatMap fun a => ofOption (f a) := by
  induction s with
  | done => rfl
  | fail e => rfl
  | emit a rest ih =>
    rw [filterMap, flatMap, ih]
    split
    · next ha => rw [ha]; rfl
    · next ha => rw [ha]; rfl
    · next b ha => rw [ha]; rfl
  | call o k ih => exact congrArg (call o) (funext ih)

/-! ### Where a delivery fails -/

/-- The elements up to the end or the error. -/
def elements : Delivery ε α → List α
  | done | fail _ => []
  | emit a rest => a :: rest.elements
  | call o _ => o.elim

/-- A consumer of all elements comes to an error. -/
def Fails : Delivery ε α → Prop
  | done => False
  | fail _ => True
  | emit _ rest => rest.Fails
  | call o _ => o.elim

@[simp] theorem not_fails_ofList (as : List α) : ¬ (ofList as : Delivery ε α).Fails := by
  induction as with
  | nil => exact not_false
  | cons a as ih => exact ih

@[simp] theorem elements_ofList (as : List α) : (ofList as : Delivery ε α).elements = as := by
  induction as with
  | nil => rfl
  | cons a as ih => exact congrArg (a :: ·) ih

theorem eq_ofList_of_not_fails (h : ¬ s.Fails) : s = ofList s.elements := by
  induction s with
  | done => rfl
  | fail e => exact absurd trivial h
  | emit a rest ih => exact congrArg (emit a) (ih h)
  | call o => exact o.elim

theorem fails_iff_drain : s.Fails ↔ ∃ e, s.drain = .error e := by
  refine ⟨fun h => ?_, fun ⟨e, he⟩ => ?_⟩
  · cases hdrain : s.drain with
    | error e => exact ⟨e, rfl⟩
    | ok as =>
      rw [drain_eq_ok.mp hdrain] at h
      exact absurd h (not_fails_ofList as)
  · by_contra hnot
    rw [eq_ofList_of_not_fails hnot, drain_ofList] at he
    cases he

theorem fails_append {t : Delivery ε α} : (s.append t).Fails ↔ s.Fails ∨ t.Fails := by
  induction s with
  | done => exact (or_iff_right not_false).symm
  | fail e => exact iff_of_true trivial (.inl trivial)
  | emit a rest ih => exact ih
  | call o => exact o.elim

theorem fails_flatMap {f : α → Delivery ε β} :
    (s.flatMap f).Fails ↔ s.Fails ∨ ∃ a ∈ s.elements, (f a).Fails := by
  induction s with
  | done => simp [flatMap, Fails, elements]
  | fail e => simp [flatMap, Fails]
  | emit a rest ih =>
    rw [flatMap, fails_append, ih, Fails, elements]
    simp only [List.mem_cons, exists_eq_or_imp]
    exact or_left_comm
  | call o => exact o.elim

theorem mem_elements_append {t : Delivery ε α} {a : α} (h : a ∈ (s.append t).elements) :
    a ∈ s.elements ∨ a ∈ t.elements := by
  induction s with
  | done => exact .inr h
  | fail e => exact .inl h
  | emit b rest ih =>
    obtain rfl | h := List.mem_cons.mp h
    · exact .inl List.mem_cons_self
    · exact (ih h).imp_left (List.mem_cons_of_mem b)
  | call o => exact o.elim

theorem mem_elements_flatMap {f : α → Delivery ε β} {b : β} (h : b ∈ (s.flatMap f).elements) :
    ∃ a ∈ s.elements, b ∈ (f a).elements := by
  induction s with
  | done => cases h
  | fail e => cases h
  | emit a rest ih =>
    obtain h | h := mem_elements_append h
    · exact ⟨a, List.mem_cons_self, h⟩
    · obtain ⟨a', ha', hb⟩ := ih h
      exact ⟨a', List.mem_cons_of_mem a ha', hb⟩
  | call o => exact o.elim

theorem mem_elements_ofOption {x : Except ε (Option α)} {a : α}
    (h : a ∈ (ofOption x : Delivery ε α).elements) : x = .ok (some a) := by
  match x with
  | .error e => cases h
  | .ok none => cases h
  | .ok (some b) => rw [List.mem_singleton.mp h]

/-! ### Deliveries and lists -/

/-- The elements are the first ones of the list, and all of them if the end
is reached without an error. -/
def Follows : Delivery ε α → List α → Prop
  | done, as => as = []
  | fail _, _ => True
  | emit a rest, as => ∃ as', as = a :: as' ∧ rest.Follows as'
  | call o _, _ => o.elim

namespace Follows

variable {s next : Delivery ε α} {as bs : List α}

theorem ofList (as : List α) : (Stream.ofList as : Delivery ε α).Follows as := by
  induction as with
  | nil => rfl
  | cons a as ih => exact ⟨as, rfl, ih⟩

theorem eq_of_drain (h : s.Follows as) (hdrain : s.drain = .ok bs) : bs = as := by
  rw [drain_eq_ok] at hdrain
  subst hdrain
  induction bs generalizing as with
  | nil => exact h.symm
  | cons b bs ih =>
    obtain ⟨as', rfl, h'⟩ := h
    rw [ih h']

theorem append (h : s.Follows as) (hnext : next.Follows bs) :
    (s.append next).Follows (as ++ bs) := by
  induction s generalizing as with
  | done =>
    obtain rfl := h
    exact hnext
  | fail e => trivial
  | emit a rest ih =>
    obtain ⟨as', rfl, h'⟩ := h
    exact ⟨as' ++ bs, rfl, ih h'⟩
  | call o => exact o.elim

theorem flatMap {f : α → Delivery ε β} {f' : α → List β} (h : s.Follows as)
    (hf : ∀ a, (f a).Follows (f' a)) : (s.flatMap f).Follows (as.flatMap f') := by
  induction s generalizing as with
  | done =>
    obtain rfl := h
    rfl
  | fail e => trivial
  | emit a rest ih =>
    obtain ⟨as', rfl, h'⟩ := h
    rw [List.flatMap_cons]
    exact (hf a).append (ih h')
  | call o => exact o.elim

theorem filterMap {f : α → Except ε (Option β)} {f' : α → Option β} (h : s.Follows as)
    (hf : ∀ a b, f a = .ok b → f' a = b) : (s.filterMap f).Follows (as.filterMap f') := by
  induction s generalizing as with
  | done =>
    obtain rfl := h
    rfl
  | fail e => trivial
  | emit a rest ih =>
    obtain ⟨as', rfl, h'⟩ := h
    rw [Stream.filterMap]
    split
    · trivial
    · next ha =>
        rw [List.filterMap_cons_none (hf a _ ha)]
        exact ih h'
    · next b ha =>
        rw [List.filterMap_cons_some (hf a _ ha)]
        exact ⟨_, rfl, ih h'⟩
  | call o => exact o.elim

theorem take (n : Nat) (h : s.Follows as) : (s.take n).Follows (as.take n) := by
  induction s generalizing as n with
  | done =>
    obtain rfl := h
    exact List.take_nil
  | fail e =>
    cases n with
    | zero => exact List.take_zero
    | succ n => trivial
  | emit a rest ih =>
    obtain ⟨as', rfl, h'⟩ := h
    cases n with
    | zero => rfl
    | succ n => exact ⟨_, rfl, ih n h'⟩
  | call o => exact o.elim

end Follows

/-! ### Streams side by side -/

/-- The same calls, of those that `φ` allows, and element by element related,
up to an end or to errors that are related. -/
def Rel (φ : I.Op → Prop) (E : ε → ε → Prop) (P : α → β → Prop) :
    Stream I ε α → Stream I ε β → Prop
  | done, v => v = .done
  | fail e, v => ∃ e', v = .fail e' ∧ E e e'
  | emit a rest, v => ∃ b rest', v = .emit b rest' ∧ P a b ∧ rest.Rel φ E P rest'
  | call o k, v => φ o ∧ ∃ k', v = .call o k' ∧ ∀ r, (k r).Rel φ E P (k' r)

namespace Rel

variable {φ : I.Op → Prop} {E : ε → ε → Prop} {P : α → β → Prop} {Q : γ → δ → Prop}
  {s : Stream I ε α} {t : Stream I ε β}

theorem ofList {as : List α} {bs : List β} (h : List.Forall₂ P as bs) :
    (Stream.ofList as : Stream I ε α).Rel φ E P (.ofList bs) := by
  induction h with
  | nil => rfl
  | cons h _ ih => exact ⟨_, _, rfl, h, ih⟩

theorem eq {φ : Empty → Prop} {s t : Delivery ε α} (h : s.Rel φ Eq Eq t) : s = t := by
  induction s generalizing t with
  | done => exact h.symm
  | fail e =>
    obtain ⟨e', rfl, rfl⟩ := h
    rfl
  | emit a rest ih =>
    obtain ⟨b, rest', rfl, rfl, h'⟩ := h
    rw [ih h']
  | call o => exact o.elim

theorem append {s' : Stream I ε α} {t' : Stream I ε β} (h : s.Rel φ E P t) (h' : s'.Rel φ E P t') :
    (s.append s').Rel φ E P (t.append t') := by
  induction s generalizing t with
  | done =>
    obtain rfl := h
    exact h'
  | fail e =>
    obtain ⟨e', rfl, he⟩ := h
    exact ⟨e', rfl, he⟩
  | emit a rest ih =>
    obtain ⟨b, rest', rfl, hab, hrest⟩ := h
    exact ⟨b, _, rfl, hab, ih hrest⟩
  | call o k ih =>
    obtain ⟨ho, k', rfl, hk⟩ := h
    exact ⟨ho, _, rfl, fun r => ih r (hk r)⟩

theorem flatMap {f : α → Stream I ε γ} {g : β → Stream I ε δ} (h : s.Rel φ E P t)
    (hf : ∀ a b, P a b → (f a).Rel φ E Q (g b)) : (s.flatMap f).Rel φ E Q (t.flatMap g) := by
  induction s generalizing t with
  | done =>
    obtain rfl := h
    rfl
  | fail e =>
    obtain ⟨e', rfl, he⟩ := h
    exact ⟨e', rfl, he⟩
  | emit a rest ih =>
    obtain ⟨b, rest', rfl, hab, hrest⟩ := h
    exact (hf a b hab).append (ih hrest)
  | call o k ih =>
    obtain ⟨ho, k', rfl, hk⟩ := h
    exact ⟨ho, _, rfl, fun r => ih r (hk r)⟩

theorem filterMap {f : α → Except ε (Option γ)} {g : β → Except ε (Option δ)} (h : s.Rel φ E P t)
    (hf : ∀ a b, P a b → Alike E (Option.Rel Q) (f a) (g b)) :
    (s.filterMap f).Rel φ E Q (t.filterMap g) := by
  induction s generalizing t with
  | done =>
    obtain rfl := h
    rfl
  | fail e =>
    obtain ⟨e', rfl, he⟩ := h
    exact ⟨e', rfl, he⟩
  | emit a rest ih =>
    obtain ⟨b, rest', rfl, hab, hrest⟩ := h
    have hfa := hf a b hab
    rw [Stream.filterMap, Stream.filterMap]
    generalize f a = x, g b = y at hfa
    cases hfa with
    | error he => exact ⟨_, rfl, he⟩
    | ok hxy =>
      cases hxy with
      | none => exact ih hrest
      | some hcd => exact ⟨_, _, rfl, hcd, ih hrest⟩
  | call o k ih =>
    obtain ⟨ho, k', rfl, hk⟩ := h
    exact ⟨ho, _, rfl, fun r => ih r (hk r)⟩

theorem refl [Std.Refl E] {φ : Empty → Prop} (s : Delivery ε α) : s.Rel φ E Eq s := by
  induction s with
  | done => rfl
  | fail e => exact ⟨e, rfl, refl_of E e⟩
  | emit a rest ih => exact ⟨a, rest, rfl, rfl, ih⟩
  | call o => exact o.elim

theorem filterMap_alike {t : Stream I ε α} {f g : α → Except ε (Option β)} (h : s.Rel φ E Eq t)
    (hf : ∀ a, Alike E Eq (f a) (g a)) : (s.filterMap f).Rel φ E Eq (t.filterMap g) := by
  refine h.filterMap fun a b hab => ?_
  subst hab
  refine (hf a).imp fun c d hcd => ?_
  subst hcd
  cases c with
  | none => exact .none
  | some c => exact .some rfl

theorem take (n : Nat) (h : s.Rel φ E P t) : (s.take n).Rel φ E P (t.take n) := by
  induction s generalizing t n with
  | done =>
    obtain rfl := h
    rfl
  | fail e =>
    obtain ⟨e', rfl, he⟩ := h
    cases n with
    | zero => rfl
    | succ n => exact ⟨e', rfl, he⟩
  | emit a rest ih =>
    obtain ⟨b, rest', rfl, hab, hrest⟩ := h
    cases n with
    | zero => rfl
    | succ n => exact ⟨b, _, rfl, hab, ih n hrest⟩
  | call o k ih =>
    obtain ⟨ho, k', rfl, hk⟩ := h
    cases n with
    | zero => rfl
    | succ n => exact ⟨ho, _, rfl, fun r => ih r _ (hk r)⟩

theorem drain {φ : Empty → Prop} {s t : Delivery ε α} (h : s.Rel φ E Eq t) :
    Alike E Eq s.drain t.drain := by
  induction s generalizing t with
  | done =>
    obtain rfl := h
    exact .ok rfl
  | fail e =>
    obtain ⟨e', rfl, he⟩ := h
    exact .error he
  | emit a rest ih =>
    obtain ⟨b, rest', rfl, rfl, hrest⟩ := h
    exact (ih hrest).bind fun as bs has => .ok (congrArg (a :: ·) has)
  | call o => exact o.elim

theorem collect {φ : Empty → Prop} {s : Delivery ε α} {t : Delivery ε β} {f : γ → α → Except ε γ}
    {g : δ → β → Except ε δ} {c : γ} {d : δ} (h : s.Rel φ E P t)
    (hf : ∀ c d a b, Q c d → P a b → Alike E Q (f c a) (g d b)) (hcd : Q c d) :
    Alike E Q (s.collect f c) (t.collect g d) := by
  induction s generalizing t c d with
  | done =>
    obtain rfl := h
    exact .ok hcd
  | fail e =>
    obtain ⟨e', rfl, he⟩ := h
    exact .error he
  | emit a rest ih =>
    obtain ⟨b, rest', rfl, hab, hrest⟩ := h
    exact (hf c d a b hcd hab).bind fun c' d' h' => ih hrest h'
  | call o => exact o.elim

end Rel

/-! ### Streams over a layer below -/

/-- From every state that `R` allows after `t`, the calls of the stream are
accepted, `R` goes on, and the elements and the end are those of the
delivery, unless it stops. -/
def Delivers (g : Prog.Ideal I τ) (R : τ → τ → Prop) (stop : ε → Prop) :
    Stream I ε α → Delivery ε α → τ → Prop
  | done, v, _ => v = .done
  | fail e, v, _ => stop e ∨ v = .fail e
  | emit a rest, v, t => ∃ v', v = .emit a v' ∧ rest.Delivers g R stop v' t
  | call o k, v, t => ∀ t', R t t' → (g o t').Holds fun a =>
    R t' a.2 ∧ (k a.1).Delivers g R stop v a.2

/-- An outcome that is expected, or a stop. -/
def Expected (stop : ε → Prop) (r expected : Except ε α) : Prop :=
  (∃ e, stop e ∧ r = .error e) ∨ r = expected

namespace Delivers

variable {g : Prog.Ideal I τ} {R : τ → τ → Prop} {stop : ε → Prop} {t t' : τ}
  {s : Stream I ε α} {v : Delivery ε α}

theorem mono [IsTrans τ R] (hs : s.Delivers g R stop v t) (ht : R t t') :
    s.Delivers g R stop v t' := by
  induction s generalizing v with
  | done | fail => exact hs
  | emit a rest ih =>
    obtain ⟨v', rfl, hrest⟩ := hs
    exact ⟨v', rfl, ih hrest⟩
  | call o k ih => exact fun t'' ht'' => hs t'' (trans_of R ht ht'')

theorem ofList (as : List α) :
    (Stream.ofList as : Stream I ε α).Delivers g R stop (.ofList as) t := by
  induction as with
  | nil => rfl
  | cons a as ih => exact ⟨_, rfl, ih⟩

theorem append [IsTrans τ R] {next : Stream I ε α} {w : Delivery ε α}
    (hs : s.Delivers g R stop v t) (hnext : next.Delivers g R stop w t) :
    (s.append next).Delivers g R stop (v.append w) t := by
  induction s generalizing v t with
  | done =>
    obtain rfl := hs
    exact hnext
  | fail e =>
    obtain hstop | rfl := hs
    · exact .inl hstop
    · exact .inr rfl
  | emit a rest ih =>
    obtain ⟨v', rfl, hrest⟩ := hs
    exact ⟨_, rfl, ih hrest hnext⟩
  | call o k ih =>
    intro t' ht'
    refine (hs t' ht').imp fun a ha => ⟨ha.1, ih _ ha.2 ?_⟩
    exact (hnext.mono ht').mono ha.1

theorem flatMap [IsTrans τ R] {f : α → Stream I ε β} {f' : α → Delivery ε β}
    (hs : s.Delivers g R stop v t) (hf : ∀ a, (f a).Delivers g R stop (f' a) t) :
    (s.flatMap f).Delivers g R stop (v.flatMap f') t := by
  induction s generalizing v t with
  | done =>
    obtain rfl := hs
    rfl
  | fail e =>
    obtain hstop | rfl := hs
    · exact .inl hstop
    · exact .inr rfl
  | emit a rest ih =>
    obtain ⟨v', rfl, hrest⟩ := hs
    exact (hf a).append (ih hrest hf)
  | call o k ih =>
    intro t' ht'
    refine (hs t' ht').imp fun a ha => ⟨ha.1, ih _ ha.2 fun b => ?_⟩
    exact ((hf b).mono ht').mono ha.1

theorem filterMap (f : α → Except ε (Option β)) (hs : s.Delivers g R stop v t) :
    (s.filterMap f).Delivers g R stop (v.filterMap f) t := by
  induction s generalizing v t with
  | done =>
    obtain rfl := hs
    rfl
  | fail e =>
    obtain hstop | rfl := hs
    · exact .inl hstop
    · exact .inr rfl
  | emit a rest ih =>
    obtain ⟨v', rfl, hrest⟩ := hs
    rw [Stream.filterMap, Stream.filterMap]
    split
    · exact .inr rfl
    · exact ih hrest
    · exact ⟨_, rfl, ih hrest⟩
  | call o k ih => exact fun t' ht' => (hs t' ht').imp fun a ha => ⟨ha.1, ih _ ha.2⟩

theorem take [Std.Refl R] (n : Nat) (hs : s.Delivers g R stop v t) :
    (s.take n).Delivers g R stop (v.take n) t := by
  have hzero : ∀ w : Delivery ε α, w.take 0 = .done := by
    intro w
    cases w with
    | done | fail | emit => rfl
    | call o => exact o.elim
  induction s generalizing v t n with
  | done =>
    obtain rfl := hs
    rfl
  | fail e =>
    obtain rfl | n := n
    · exact hzero v
    · obtain hstop | rfl := hs
      · exact .inl hstop
      · exact .inr rfl
  | emit a rest ih =>
    obtain ⟨v', rfl, hrest⟩ := hs
    obtain rfl | n := n
    · rfl
    · exact ⟨_, rfl, ih n hrest⟩
  | call o k ih =>
    obtain rfl | n := n
    · exact hzero v
    · exact fun t' ht' => (hs t' ht').imp fun a ha => ⟨ha.1, ih _ (n + 1) ha.2⟩

/-- The stream that a program opens, if what it returns delivers it. -/
theorem ofProg {p : Prog I (Except ε (Stream I ε α) × σ)}
    (hp : p.Steady g R (fun r t' => match r.1 with
      | .error e => stop e
      | .ok s => s.Delivers g R stop v t') t) :
    (Stream.ofProg p).Delivers g R stop v t := by
  induction p generalizing t with
  | ret r =>
    obtain ⟨r | s, _⟩ := r
    · exact .inl hp
    · exact hp
  | call o k ih => exact fun t' ht' => (hp t' ht').imp fun a ha => ⟨ha.1, ih _ ha.2⟩

theorem next (hs : s.Delivers g R stop v t) :
    s.next.Steady g R (fun r t' => match r with
      | .error e => stop e ∨ v = .fail e
      | .ok none => v = .done
      | .ok (some (a, rest)) => ∃ v', v = .emit a v' ∧ rest.Delivers g R stop v' t') t := by
  induction s generalizing v t with
  | done | fail | emit => exact hs
  | call o k ih => exact fun t' ht' => (hs t' ht').imp fun a ha => ⟨ha.1, ih _ ha.2⟩

theorem fold (f : β → α → Except ε β) (b : β) (hs : s.Delivers g R stop v t) :
    (s.fold f b).Steady g R (fun r _ => Expected stop r (v.collect f b)) t := by
  induction s generalizing v t b with
  | done =>
    obtain rfl := hs
    exact .inr rfl
  | fail e =>
    obtain hstop | rfl := hs
    · exact .inl ⟨e, hstop, rfl⟩
    · exact .inr rfl
  | emit a rest ih =>
    obtain ⟨v', rfl, hrest⟩ := hs
    rw [Stream.fold, collect]
    split
    · next he =>
        rw [he]
        exact .inr rfl
    · next hb =>
        rw [hb]
        exact ih _ hrest
  | call o k ih => exact fun t' ht' => (hs t' ht').imp fun a ha => ⟨ha.1, ih _ b ha.2⟩

end Delivers

end Stream

/-! ### Procedures -/

namespace Proc

variable {I : Interface} {σ ε α β τ : Type}

/-- The calls of the procedure are accepted whenever they are made, its own
state stays, and what it returns satisfies `Q`, an error `E`. -/
def Returns (g : Prog.Ideal I τ) (R : τ → τ → Prop) (x : Proc I σ ε α) (Q : α → τ → Prop)
    (E : ε → Prop) (s : σ) (t : τ) : Prop :=
  (x s).Steady g R (fun r t' => r.2 = s ∧ match r.1 with
    | .ok a => Q a t'
    | .error e => E e) t

namespace Returns

variable {g : Prog.Ideal I τ} {R : τ → τ → Prop} {Q Q' : α → τ → Prop} {E E' : ε → Prop}
  {x : Proc I σ ε α} {s : σ} {t t' : τ}

theorem imp (hQ : ∀ a t, Q a t → Q' a t) (hE : ∀ e, E e → E' e) (hx : x.Returns g R Q E s t) :
    x.Returns g R Q' E' s t := by
  refine Prog.Steady.imp ?_ hx
  rintro ⟨r, s'⟩ t' ⟨hs, h⟩
  cases r with
  | ok a => exact ⟨hs, hQ a t' h⟩
  | error e => exact ⟨hs, hE e h⟩

theorem mono [IsTrans τ R] (hQ : ∀ a t t', R t t' → Q a t → Q a t') (ht : R t t')
    (hx : x.Returns g R Q E s t) : x.Returns g R Q E s t' := by
  refine Prog.Steady.mono ?_ ht hx
  rintro ⟨r, s'⟩ t t' ht ⟨hs, h⟩
  cases r with
  | ok a => exact ⟨hs, hQ a t t' ht h⟩
  | error e => exact ⟨hs, h⟩

theorem after [Std.Refl R] [IsTrans τ R] (hx : x.Returns g R Q E s t) :
    x.Returns g R (fun a t' => R t t' ∧ Q a t') E s t := by
  refine Prog.Steady.imp ?_ (Prog.Steady.after hx)
  rintro ⟨r, s'⟩ t' ⟨ht, hs, h⟩
  cases r with
  | ok a => exact ⟨hs, ht, h⟩
  | error e => exact ⟨hs, h⟩

theorem pure {a : α} (h : Q a t) : (pure a : Proc I σ ε α).Returns g R Q E s t := ⟨rfl, h⟩

theorem throw {e : ε} (h : E e) : (throw e : Proc I σ ε α).Returns g R Q E s t := ⟨rfl, h⟩

theorem ofExcept {r : Except ε α} (hok : ∀ a, r = .ok a → Q a t)
    (herror : ∀ e, r = .error e → E e) :
    (ofExcept r : Proc I σ ε α).Returns g R Q E s t := by
  cases r with
  | ok a => exact ⟨rfl, hok a rfl⟩
  | error e => exact ⟨rfl, herror e rfl⟩

theorem bind {f : α → Proc I σ ε β} {Q : β → τ → Prop}
    (hx : x.Returns g R (fun a t' => (f a).Returns g R Q E s t') E s t) :
    (x >>= f).Returns g R Q E s t := by
  refine Prog.Steady.bind (Prog.Steady.imp ?_ hx)
  rintro ⟨r, s'⟩ t' ⟨hs, h⟩
  subst hs
  cases r with
  | ok a => exact h
  | error e => exact ⟨rfl, h⟩

theorem get_bind {f : σ → Proc I σ ε β} {Q : β → τ → Prop} (h : (f s).Returns g R Q E s t) :
    (get >>= f).Returns g R Q E s t := h

theorem call_bind {o : I.Op} {f : I.Resp o → Proc I σ ε β} {Q : β → τ → Prop}
    (h : ∀ t', R t t' → (g o t').Holds fun a => R t' a.2 ∧ (f a.1).Returns g R Q E s a.2) :
    (call o >>= f).Returns g R Q E s t := h

theorem ofProg {p : Prog I (Except ε α)}
    (hp : p.Steady g R (fun r t' => match r with
      | .ok a => Q a t'
      | .error e => E e) t) :
    (ofProg p : Proc I σ ε α).Returns g R Q E s t := by
  refine Prog.Steady.bind (hp.imp ?_)
  rintro (e | a) t' h
  · exact ⟨rfl, h⟩
  · exact ⟨rfl, h⟩

/-- The run of a procedure on a layer that accepts every call. -/
theorem run [Std.Refl R] [IsTrans τ R] {h : Prog.Handler I τ}
    (hx : x.Returns (Prog.checked h (fun _ _ => True) fun _ _ => True) R Q E s t) :
    R t (Proc.run h x s t).2 ∧ match (Proc.run h x s t).1.1 with
      | .ok a => Q a (Proc.run h x s t).2
      | .error e => E e :=
  have h := (Prog.along_of_wp (Prog.Steady.wp hx) (Prog.along_true h (x s) t)).2
  ⟨h.1, h.2.2⟩

end Returns

end Proc

end MySQLight.Effect
