import MySQLight.Effect.Delivery

/-!
Programs side by side.

Two programs are related if they make the same calls, all of them allowed,
whatever is answered, and return related results. Run from one state they
then leave the same state. For procedures the state of their own has to stay
as it was, and the results are related errors or related values.
-/

namespace MySQLight.Effect

variable {I : Interface} {α β γ δ σ τ ε : Type}

namespace Alike

variable {E : ε → ε → Prop} {P : α → β → Prop} {Q : γ → δ → Prop}

theorem mapM {f : α → Except ε γ} {g : β → Except ε δ} {as : List α} {bs : List β}
    (h : List.Forall₂ (fun a b => Alike E Q (f a) (g b)) as bs) :
    Alike E (List.Forall₂ Q) (as.mapM f) (bs.mapM g) := by
  induction h with
  | nil => exact .ok .nil
  | cons hab _ ih =>
    rw [List.mapM_cons, List.mapM_cons]
    exact hab.bind fun c d hcd => ih.bind fun cs ds hcds => .ok (.cons hcd hcds)

theorem foldlM {f : γ → α → Except ε γ} {g : δ → β → Except ε δ} {as : List α} {bs : List β} {c : γ}
    {d : δ} (h : List.Forall₂ (fun a b => ∀ c d, Q c d → Alike E Q (f c a) (g d b)) as bs)
    (hcd : Q c d) : Alike E Q (as.foldlM f c) (bs.foldlM g d) := by
  induction h generalizing c d with
  | nil => exact .ok hcd
  | cons hab _ ih => exact (hab c d hcd).bind fun _ _ => ih

end Alike

/-! ### Programs -/

namespace Prog

/-- The same calls, of those that `φ` allows, and related results. -/
def Rel (φ : I.Op → Prop) (R : α → β → Prop) : Prog I α → Prog I β → Prop
  | ret a, q => ∃ b, q = .ret b ∧ R a b
  | call o k, q => φ o ∧ ∃ k', q = .call o k' ∧ ∀ r, (k r).Rel φ R (k' r)

namespace Rel

variable {φ : I.Op → Prop} {R : α → β → Prop} {S : γ → δ → Prop} {p : Prog I α} {q : Prog I β}

theorem imp {R' : α → β → Prop} (h : p.Rel φ R q) (hR : ∀ a b, R a b → R' a b) :
    p.Rel φ R' q := by
  induction p generalizing q with
  | ret a =>
    obtain ⟨b, rfl, hab⟩ := h
    exact ⟨b, rfl, hR a b hab⟩
  | call o k ih =>
    obtain ⟨ho, k', rfl, hk⟩ := h
    exact ⟨ho, _, rfl, fun r => ih r (hk r)⟩

theorem bind {f : α → Prog I γ} {g : β → Prog I δ} (h : p.Rel φ R q)
    (hf : ∀ a b, R a b → (f a).Rel φ S (g b)) : (p >>= f).Rel φ S (q >>= g) := by
  induction p generalizing q with
  | ret a =>
    obtain ⟨b, rfl, hab⟩ := h
    exact hf a b hab
  | call o k ih =>
    obtain ⟨ho, k', rfl, hk⟩ := h
    exact ⟨ho, _, rfl, fun r => ih r (hk r)⟩

theorem run (h : p.Rel φ R q) (g : Handler I τ) (t : τ) :
    R (p.run g t).1 (q.run g t).1 ∧ (p.run g t).2 = (q.run g t).2 := by
  induction p generalizing q t with
  | ret a =>
    obtain ⟨b, rfl, hab⟩ := h
    exact ⟨hab, rfl⟩
  | call o k ih =>
    obtain ⟨_, k', rfl, hk⟩ := h
    exact ih _ (hk _) _

theorem along (h : p.Rel φ R q) (g : Handler I τ) (t : τ) : Along g (fun o _ => φ o) p t := by
  induction p generalizing q t with
  | ret a => trivial
  | call o k ih =>
    obtain ⟨ho, k', rfl, hk⟩ := h
    exact ⟨ho, ih _ (hk _) _⟩

end Rel

end Prog

/-! ### Procedures -/

namespace Proc

/-- In the state `s`, which stays as it is, the same calls, of those that `φ`
allows, and related results. -/
def Rel (s : σ) (φ : I.Op → Prop) (E : ε → ε → Prop) (P : α → β → Prop) (x : Proc I σ ε α)
    (y : Proc I σ ε β) : Prop :=
  (x s).Rel φ (fun a b => a.2 = s ∧ b.2 = s ∧ Alike E P a.1 b.1) (y s)

namespace Rel

variable {s : σ} {φ : I.Op → Prop} {E : ε → ε → Prop} {P : α → β → Prop} {Q : γ → δ → Prop}
  {x : Proc I σ ε α} {y : Proc I σ ε β}

theorem ofExcept {r : Except ε α} {r' : Except ε β} (h : Alike E P r r') :
    Rel s φ E P (ofExcept r : Proc I σ ε α) (ofExcept r') :=
  ⟨_, rfl, rfl, rfl, h⟩

theorem pure {a : α} {b : β} (h : P a b) : Rel s φ E P (pure a : Proc I σ ε α) (pure b) :=
  ofExcept (.ok h)

theorem ofProg {p : Prog I (Except ε α)} {q : Prog I (Except ε β)}
    (h : p.Rel φ (Alike E P) q) : Rel s φ E P (ofProg p : Proc I σ ε α) (ofProg q) :=
  Prog.Rel.bind h fun _ _ hab => ⟨_, rfl, rfl, rfl, hab⟩

theorem bind {f : α → Proc I σ ε γ} {g : β → Proc I σ ε δ} (h : Rel s φ E P x y)
    (hf : ∀ a b, P a b → Rel s φ E Q (f a) (g b)) : Rel s φ E Q (x >>= f) (y >>= g) := by
  refine Prog.Rel.bind h ?_
  rintro ⟨_, _⟩ ⟨_, _⟩ ⟨rfl, rfl, hab⟩
  cases hab with
  | error he => exact ⟨_, rfl, rfl, rfl, .error he⟩
  | ok hab => exact hf _ _ hab

theorem imp {P' : α → β → Prop} (h : Rel s φ E P x y) (hP : ∀ a b, P a b → P' a b) :
    Rel s φ E P' x y :=
  Prog.Rel.imp h fun _ _ hab => ⟨hab.1, hab.2.1, hab.2.2.imp hP⟩

theorem get_bind {f : σ → Proc I σ ε γ} {g : σ → Proc I σ ε δ} (hf : Rel s φ E Q (f s) (g s)) :
    Rel s φ E Q (get >>= f) (get >>= g) :=
  hf

theorem forEach {f : α → Proc I σ ε Unit} {g : β → Proc I σ ε Unit} {as : List α} {bs : List β}
    (h : List.Forall₂ (fun a b => Rel s φ E Eq (f a) (g b)) as bs) :
    Rel s φ E Eq (forEach f as) (forEach g bs) := by
  induction h with
  | nil => exact .pure rfl
  | cons hab _ ih => exact hab.bind fun _ _ _ => ih

end Rel

/-! ### One procedure -/

/-- The procedure makes allowed calls only and leaves its state as it is. -/
abbrev Calm (s : σ) (φ : I.Op → Prop) (E : ε → ε → Prop) (x : Proc I σ ε α) : Prop :=
  Rel s φ E Eq x x

namespace Calm

variable {s : σ} {φ : I.Op → Prop} {E : ε → ε → Prop} {Q : γ → δ → Prop} {x : Proc I σ ε α}
  {f : α → Proc I σ ε γ} {g : α → Proc I σ ε δ}

theorem ofExcept [Std.Refl E] (r : Except ε α) : Calm s φ E (ofExcept r : Proc I σ ε α) :=
  Rel.ofExcept (.of_eq rfl)

theorem call {o : I.Op} (ho : φ o) : Calm s φ E (call o : Proc I σ ε (I.Resp o)) :=
  ⟨ho, _, rfl, fun _ => ⟨_, rfl, rfl, rfl, .ok rfl⟩⟩

theorem bind (h : Calm s φ E x) (hf : ∀ a, Rel s φ E Q (f a) (g a)) :
    Rel s φ E Q (x >>= f) (x >>= g) :=
  Rel.bind h fun a _ hab => hab ▸ hf a

theorem forEach {f : α → Proc I σ ε Unit} (h : ∀ a, Calm s φ E (f a)) (as : List α) :
    Calm s φ E (forEach f as) :=
  Rel.forEach (List.forall₂_same.mpr fun a _ => h a)

end Calm

end Proc

/-! ### Streams -/

namespace Stream.Rel

variable {φ : I.Op → Prop} {E : ε → ε → Prop} {P : α → β → Prop} {Q : γ → δ → Prop}
  {s : Stream I ε α} {t : Stream I ε β}

/-- The next element of both, and the rests. -/
theorem next (h : s.Rel φ E P t) : s.next.Rel φ
    (Alike E (Option.Rel fun a b => P a.1 b.1 ∧ a.2.Rel φ E P b.2)) t.next := by
  induction s generalizing t with
  | done =>
    obtain rfl := h
    exact ⟨_, rfl, .ok .none⟩
  | fail e =>
    obtain ⟨e', rfl, he⟩ := h
    exact ⟨_, rfl, .error he⟩
  | emit a rest ih =>
    obtain ⟨b, rest', rfl, hab, hrest⟩ := h
    exact ⟨_, rfl, .ok (.some ⟨hab, hrest⟩)⟩
  | call o k ih =>
    obtain ⟨ho, k', rfl, hk⟩ := h
    exact ⟨ho, _, rfl, fun r => ih r (hk r)⟩

theorem fold {f : γ → α → Except ε γ} {g : δ → β → Except ε δ} {c : γ} {d : δ}
    (h : s.Rel φ E P t) (hf : ∀ c d a b, Q c d → P a b → Alike E Q (f c a) (g d b)) (hcd : Q c d) :
    (s.fold f c).Rel φ (Alike E Q) (t.fold g d) := by
  induction s generalizing t c d with
  | done =>
    obtain rfl := h
    exact ⟨_, rfl, .ok hcd⟩
  | fail e =>
    obtain ⟨e', rfl, he⟩ := h
    exact ⟨_, rfl, .error he⟩
  | emit a rest ih =>
    obtain ⟨b, rest', rfl, hab, hrest⟩ := h
    have hab := hf c d a b hcd hab
    rw [Stream.fold, Stream.fold]
    generalize f c a = x, g d b = y at hab
    cases hab with
    | error he => exact ⟨_, rfl, .error he⟩
    | ok hcd => exact ih hrest hcd
  | call o k ih =>
    obtain ⟨ho, k', rfl, hk⟩ := h
    exact ⟨ho, _, rfl, fun r => ih r (hk r) hcd⟩

theorem ofProg {p : Prog I (Except ε (Stream I ε α) × σ)} {q : Prog I (Except ε (Stream I ε β) × σ)}
    (h : p.Rel φ (fun a b => Alike E (Stream.Rel φ E P) a.1 b.1) q) :
    (Stream.ofProg p).Rel φ E P (Stream.ofProg q) := by
  induction p generalizing q with
  | ret a =>
    obtain ⟨b, rfl, hab⟩ := h
    obtain ⟨r, _⟩ := a
    obtain ⟨r', _⟩ := b
    cases hab with
    | error he => exact ⟨_, rfl, he⟩
    | ok hst => exact hst
  | call o k ih =>
    obtain ⟨ho, k', rfl, hk⟩ := h
    exact ⟨ho, _, rfl, fun r => ih r (hk r)⟩

end Stream.Rel

end MySQLight.Effect
