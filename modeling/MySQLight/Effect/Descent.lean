import Mathlib.Data.List.Forall2
import Mathlib.Logic.Function.Iterate
import MySQLight.Effect.Delivery

/-!
Recursive descent over a source of tokens.

A source shows its current token and can be advanced to the next one. A
parser looks at the current token, and takes it or leaves it: `choose` is
the only way to look. Repetition is `loop`, which takes a token in every
round, with a bound on the rounds.

Two things follow for parsers that are built in this way. What a parser
returns depends on the tokens that it has taken and on the one it has seen
and left, which could as well have been the end of the input; and a bound
that is larger than the number of tokens is never reached (`Tame`). And on
two sources with similar tokens a parser does similar things (`Related`).
-/

namespace MySQLight.Effect

/-- A source of tokens. There may be tokens that stand for the end of the
input, and before that only so many tokens are left. -/
class Source (σ : Type) (τ : outParam Type) where
  current : σ → τ
  advance : σ → σ
  eof : τ → Prop
  remaining : σ → Nat
  remaining_advance_le : ∀ s, remaining (advance s) ≤ remaining s
  remaining_advance_lt : ∀ s, ¬ eof (current s) → remaining (advance s) < remaining s

open Source

/-- A parser on the source `σ` that returns an `α` or an error. -/
abbrev Descent (σ ε α : Type) : Type := StateT σ (Except ε) α

namespace Descent

variable {σ τ ε α β γ : Type} [Source σ τ]

/-- Take the current token, whatever it is. -/
def next : Descent σ ε τ := fun s => .ok (current s, advance s)

/-- Fail, with an error that may say where. -/
def fail (e : σ → ε) : Descent σ ε α := fun s => .error (e s)

/-- Take the current token and go on with it, or leave it. -/
def choose (k : τ → Option (Descent σ ε α)) (otherwise : Descent σ ε α) : Descent σ ε α := fun s =>
  match k (current s) with
  | some x => x (advance s)
  | none => otherwise s

/-- Take the current token if it is acceptable. -/
def branch (accept : τ → Bool) (yes : τ → Descent σ ε α) (no : Descent σ ε α) : Descent σ ε α :=
  choose (fun t => if accept t then some (yes t) else none) no

/-- Go on as long as the current token is one to go on with. -/
def loop (out : ε) (k : β → τ → Option (Descent σ ε β)) : Nat → β → Descent σ ε β
  | 0, _ => fail fun _ => out
  | fuel + 1, b => choose (fun t => (k b t).map fun x => x >>= loop out k fuel) (pure b)

/-- Items with separators between them. -/
def sepBy (out : ε) (separator : τ → Bool) (item : Descent σ ε α) (fuel : Nat) :
    Descent σ ε (List α) := do
  let first ← item
  loop out (fun items t => if separator t then some do return items ++ [← item] else none) fuel
    [first]

/-! ### Steps of a parser -/

variable {x : Descent σ ε α} {f : α → Descent σ ε β} {s s' t t' : σ} {a : α} {b : β}

theorem pure_apply (a : α) (s : σ) : (pure a : Descent σ ε α) s = .ok (a, s) := rfl

theorem bind_of_ok (h : x s = .ok (a, s')) : (x >>= f) s = f a s' := by
  show (x s >>= fun r => f r.1 r.2) = _
  rw [h]
  rfl

theorem bind_of_error {e : ε} (h : x s = .error e) : (x >>= f) s = .error e := by
  show (x s >>= fun r => f r.1 r.2) = _
  rw [h]
  rfl

theorem bind_eq_ok (h : (x >>= f) s = .ok (b, s')) :
    ∃ a m, x s = .ok (a, m) ∧ f a m = .ok (b, s') := by
  cases hx : x s with
  | error e =>
    rw [bind_of_error hx] at h
    cases h
  | ok r =>
    rw [bind_of_ok hx] at h
    exact ⟨r.1, r.2, rfl, h⟩

theorem choose_of_some {k : τ → Option (Descent σ ε α)} {y : Descent σ ε α}
    (h : k (current s) = some x) : choose k y s = x (advance s) := by
  rw [choose, h]

theorem choose_of_none {k : τ → Option (Descent σ ε α)} {y : Descent σ ε α}
    (h : k (current s) = none) : choose k y s = y s := by
  rw [choose, h]

theorem branch_of_accept {accept : τ → Bool} {yes : τ → Descent σ ε α} {no : Descent σ ε α}
    (h : accept (current s)) : branch accept yes no s = yes (current s) (advance s) :=
  choose_of_some (if_pos h)

theorem branch_of_not {accept : τ → Bool} {yes : τ → Descent σ ε α} {no : Descent σ ε α}
    (h : accept (current s) = false) : branch accept yes no s = no s :=
  choose_of_none (if_neg (by rw [h]; exact Bool.false_ne_true))

theorem loop_of_some {out : ε} {k : α → τ → Option (Descent σ ε α)}
    (h : k a (current s) = some x) (fuel : Nat) :
    loop out k (fuel + 1) a s = (x >>= loop out k fuel) (advance s) :=
  choose_of_some (by rw [h]; rfl)

theorem loop_of_none {out : ε} {k : α → τ → Option (Descent σ ε α)}
    (h : k a (current s) = none) (fuel : Nat) :
    loop out k (fuel + 1) a s = .ok (a, s) := by
  rw [loop, choose_of_none (by rw [h]; rfl), pure_apply]

/-! ### The tokens that are taken -/

/-- From the one state to the other, these tokens are taken. -/
def Reads : σ → List τ → σ → Prop
  | s, [], s' => s' = s
  | s, t :: ts, s' => current s = t ∧ Reads (advance s) ts s'

variable {ts : List τ}

theorem Reads.append {us : List τ} {m : σ} (h : Reads s ts m) (h' : Reads m us s') :
    Reads s (ts ++ us) s' := by
  induction ts generalizing s with
  | nil =>
    obtain rfl := h
    exact h'
  | cons t ts ih => exact ⟨h.1, ih h.2⟩

theorem Reads.split {us : List τ} (h : Reads s (ts ++ us) s') :
    ∃ m, Reads s ts m ∧ Reads m us s' := by
  induction ts generalizing s with
  | nil => exact ⟨s, rfl, h⟩
  | cons t ts ih =>
    obtain ⟨m, hm, hs'⟩ := ih h.2
    exact ⟨m, ⟨h.1, hm⟩, hs'⟩

theorem Reads.remaining_le (h : Reads s ts s') : remaining s' ≤ remaining s := by
  induction ts generalizing s with
  | nil =>
    obtain rfl := h
    exact Nat.le_refl _
  | cons t ts ih => exact Nat.le_trans (ih h.2) (remaining_advance_le s)

/-- The current token is the same, or the end. -/
def StopsLike (t s : σ) : Prop := current t = current s ∨ eof σ (current t)

theorem StopsLike.of_reads {m m' : σ} (hs : Reads m ts s') (ht : Reads m' ts t')
    (h : StopsLike t' s') : StopsLike m' m := by
  cases ts with
  | nil =>
    obtain rfl := hs
    obtain rfl := ht
    exact h
  | cons t ts => exact .inl (ht.1.trans hs.1.symm)

/-- The parser takes tokens as `G` says; what it returns depends on them and
on the token behind them, but not if that is the end. If fewer than `n`
tokens remain, the error `out` does not come up. -/
structure Tame (out : ε) (n : Nat) (G : List τ → Prop) (x : Descent σ ε α) : Prop where
  reads : ∀ {s a s'}, x s = .ok (a, s') → ∃ ts, G ts ∧ Reads s ts s' ∧
    ∀ t t', Reads t ts t' → StopsLike t' s' → x t = .ok (a, t')
  returns : ∀ {s}, remaining s < n → x s ≠ .error out

namespace Tame

variable {out : ε} {n m : Nat} {G H K : List τ → Prop}

theorem mono (h : Tame out n G x) (hm : m ≤ n) (hGH : ∀ ts, G ts → H ts) : Tame out m H x where
  reads hs := by
    obtain ⟨ts, hts, hrest⟩ := h.reads hs
    exact ⟨ts, hGH ts hts, hrest⟩
  returns hs := h.returns (Nat.lt_of_lt_of_le hs hm)

theorem pure (a : α) (hG : G []) : Tame out n G (pure a : Descent σ ε α) where
  reads hs := by
    cases hs
    refine ⟨[], hG, rfl, fun t t' ht _ => ?_⟩
    rw [pure_apply, ht]
  returns _ := nofun

theorem fail {e : σ → ε} (he : ∀ s, e s ≠ out) : Tame out n G (fail e : Descent σ ε α) where
  reads hs := by cases hs
  returns {s} _ hs := he s (Except.error.inj hs)

/-- With no fuel nothing is asked of the error. -/
theorem fail_zero (e : σ → ε) : Tame out 0 G (Descent.fail e : Descent σ ε α) where
  reads hs := by cases hs
  returns hs := absurd hs (Nat.not_lt_zero _)

theorem next (hG : ∀ t, G [t]) : Tame out n G (next : Descent σ ε τ) where
  reads {s a s'} hs := by
    cases hs
    refine ⟨[current s], hG _, ⟨rfl, rfl⟩, fun t t' ht _ => ?_⟩
    obtain ⟨hcurrent, rfl⟩ := ht
    rw [Descent.next, hcurrent]
  returns _ := nofun

theorem bind (hx : Tame out n G x) (hf : ∀ a, Tame out n H (f a))
    (hK : ∀ ts us, G ts → H us → K (ts ++ us)) : Tame out n K (x >>= f) where
  reads {s b s'} hs := by
    obtain ⟨a, m, hxs, hfm⟩ := bind_eq_ok hs
    obtain ⟨ts, hts, hreads, hx'⟩ := hx.reads hxs
    obtain ⟨us, hus, hreads', hf'⟩ := (hf a).reads hfm
    refine ⟨ts ++ us, hK ts us hts hus, hreads.append hreads', fun t t' ht hlike => ?_⟩
    obtain ⟨m', hm', ht'⟩ := ht.split
    rw [bind_of_ok (hx' t m' hm' (.of_reads hreads' ht' hlike))]
    exact hf' m' t' ht' hlike
  returns {s} hs := by
    cases hxs : x s with
    | error e =>
      rw [bind_of_error hxs]
      exact fun he => hx.returns hs (hxs.trans (congrArg Except.error (Except.error.inj he)))
    | ok r =>
      obtain ⟨ts, -, hreads, -⟩ := hx.reads hxs
      rw [bind_of_ok hxs]
      exact (hf r.1).returns (Nat.lt_of_le_of_lt hreads.remaining_le hs)

/-- A token that is taken leaves fewer tokens. -/
theorem choose {k : τ → Option (Descent σ ε α)} {y : Descent σ ε α} (hnm : n ≤ m + 1)
    (heof : ∀ t, eof σ t → k t = none)
    (hk : ∀ t x, k t = some x → Tame out m (fun ts => G (t :: ts)) x) (hy : Tame out n G y) :
    Tame out n G (choose k y) where
  reads {s a s'} hs := by
    cases hkc : k (current s) with
    | none =>
      rw [choose_of_none hkc] at hs
      obtain ⟨ts, hts, hreads, hy'⟩ := hy.reads hs
      refine ⟨ts, hts, hreads, fun t t' ht hlike => ?_⟩
      have hnone : k (current t) = none := by
        obtain hcurrent | hend := StopsLike.of_reads hreads ht hlike
        · rw [hcurrent, hkc]
        · exact heof _ hend
      rw [choose_of_none hnone]
      exact hy' t t' ht hlike
    | some x =>
      rw [choose_of_some hkc] at hs
      obtain ⟨ts, hts, hreads, hx'⟩ := (hk _ x hkc).reads hs
      refine ⟨current s :: ts, hts, ⟨rfl, hreads⟩, fun t t' ht hlike => ?_⟩
      rw [choose_of_some (ht.1 ▸ hkc)]
      exact hx' _ t' ht.2 hlike
  returns {s} hs := by
    cases hkc : k (current s) with
    | none =>
      rw [choose_of_none hkc]
      exact hy.returns hs
    | some x =>
      rw [choose_of_some hkc]
      have hlt := remaining_advance_lt s fun hend => by
        rw [heof _ hend] at hkc
        cases hkc
      have hs := Nat.le_of_lt_succ (Nat.lt_of_lt_of_le hs hnm)
      exact (hk _ x hkc).returns (Nat.lt_of_lt_of_le hlt hs)

theorem branch {accept : τ → Bool} {yes : τ → Descent σ ε α} {no : Descent σ ε α}
    (hnm : n ≤ m + 1) (heof : ∀ t, eof σ t → accept t = false)
    (hyes : ∀ t, accept t = true → Tame out m (fun ts => G (t :: ts)) (yes t))
    (hno : Tame out n G no) : Tame out n G (branch accept yes no) := by
  refine choose hnm (fun t ht => if_neg (by simp [heof t ht])) (fun t x hx => ?_) hno
  obtain ⟨haccept, hx⟩ := Option.ite_none_right_eq_some.mp hx
  cases hx
  exact hyes t haccept

/-- The rounds of a loop each take a token. -/
theorem loop {k : β → τ → Option (Descent σ ε β)} (heof : ∀ b t, eof σ t → k b t = none)
    (hk : ∀ b t x, k b t = some x → Tame out n (fun ts => G (t :: ts)) x)
    (hnil : G []) (happend : ∀ ts us, G ts → G us → G (ts ++ us)) (b : β) :
    Tame out (n + 1) G (loop out k (n + 1) b : Descent σ ε β) := by
  suffices h : ∀ fuel, fuel ≤ n + 1 → ∀ b,
      Tame out fuel G (Descent.loop out k fuel b : Descent σ ε β)
    from h (n + 1) (Nat.le_refl _) b
  intro fuel hfuel
  induction fuel with
  | zero => exact fun b => fail_zero _
  | succ fuel ih =>
    intro b
    refine choose (Nat.le_refl _) (fun t ht => by rw [heof b t ht]; rfl) (fun t x hx => ?_)
      (pure b hnil)
    obtain ⟨y, hy, rfl⟩ := Option.map_eq_some_iff.mp hx
    have hround := (hk b t y hy).mono (Nat.le_of_succ_le_succ hfuel) fun _ => id
    refine hround.bind (ih (Nat.le_of_succ_le hfuel)) fun ts us hts hus => ?_
    exact happend (t :: ts) us hts hus

end Tame

/-! ### Similar tokens -/

/-- The tokens of the two sources are similar, one by one. -/
def SimilarSources (A : τ → τ → Prop) (s t : σ) : Prop :=
  ∀ n, A (current (advance^[n] s)) (current (advance^[n] t))

theorem SimilarSources.advance {A : τ → τ → Prop} (h : SimilarSources A s t) :
    SimilarSources A (advance s) (advance t) := fun n => h (n + 1)

theorem SimilarSources.refl {A : τ → τ → Prop} (hA : ∀ t, A t t) (s : σ) : SimilarSources A s s :=
  fun _ => hA _

/-- On similar sources the two parsers both fail, or return related results
and leave similar sources. The first one may also run into the error `out`. -/
def Related (out : ε) (A : τ → τ → Prop) (R : α → β → Prop) (x : Descent σ ε α)
    (y : Descent σ ε β) : Prop :=
  ∀ s t, SimilarSources A s t → x s = .error out ∨
    Alike (fun _ _ => True) (fun r r' => R r.1 r'.1 ∧ SimilarSources A r.2 r'.2) (x s) (y t)

namespace Related

variable {δ : Type} {out : ε} {A : τ → τ → Prop} {R : α → β → Prop} {S : γ → δ → Prop}
  {y : Descent σ ε β}

theorem pure (h : R a b) : Related out A R (pure a : Descent σ ε α) (pure b : Descent σ ε β) :=
  fun _ _ hst => .inr (.ok ⟨h, hst⟩)

theorem fail (e e' : σ → ε) :
    Related out A R (fail e : Descent σ ε α) (fail e' : Descent σ ε β) :=
  fun _ _ _ => .inr (.error trivial)

theorem fail_out (y : Descent σ ε β) :
    Related out A R (Descent.fail fun _ => out : Descent σ ε α) y := fun _ _ _ => .inl rfl

theorem next : Related out A A (next : Descent σ ε τ) next :=
  fun _ _ hst => .inr (.ok ⟨hst 0, hst.advance⟩)

theorem mono {R' : α → β → Prop} (h : Related out A R x y) (hR : ∀ a b, R a b → R' a b) :
    Related out A R' x y := by
  intro s t hst
  obtain hout | h := h s t hst
  · exact .inl hout
  · refine .inr ?_
    generalize x s = u, y t = v at h
    obtain _ | h := h
    · exact .error trivial
    · exact .ok ⟨hR _ _ h.1, h.2⟩

theorem bind {f : α → Descent σ ε γ} {g : β → Descent σ ε δ} (h : Related out A R x y)
    (hf : ∀ a b, R a b → Related out A S (f a) (g b)) : Related out A S (x >>= f) (y >>= g) := by
  intro s t hst
  obtain hout | h := h s t hst
  · exact .inl (bind_of_error hout)
  · generalize hx : x s = u, hy : y t = v at h
    obtain _ | h := h
    · rw [bind_of_error hx, bind_of_error hy]
      exact .inr (.error trivial)
    · rw [bind_of_ok hx, bind_of_ok hy]
      exact hf _ _ h.1 _ _ h.2

theorem choose {k : τ → Option (Descent σ ε α)} {l : τ → Option (Descent σ ε β)}
    {x' : Descent σ ε α} {y' : Descent σ ε β}
    (hk : ∀ t t', A t t' → Option.Rel (Related out A R) (k t) (l t'))
    (hy : Related out A R x' y') : Related out A R (choose k x') (choose l y') := by
  intro s t hst
  have h : Option.Rel _ (k (current s)) (l (current t)) := hk _ _ (hst 0)
  rw [Descent.choose, Descent.choose]
  generalize k (current s) = u, l (current t) = v at h
  obtain h | _ := h
  · exact h _ _ hst.advance
  · exact hy s t hst

theorem branch {accept accept' : τ → Bool} {yes : τ → Descent σ ε α} {yes' : τ → Descent σ ε β}
    {no : Descent σ ε α} {no' : Descent σ ε β} (haccept : ∀ t t', A t t' → accept t = accept' t')
    (hyes : ∀ t t', A t t' → accept t = true → Related out A R (yes t) (yes' t'))
    (hno : Related out A R no no') :
    Related out A R (branch accept yes no) (branch accept' yes' no') := by
  refine choose (fun t t' ht => ?_) hno
  rw [← haccept t t' ht]
  split_ifs with h
  · exact .some (hyes t t' ht h)
  · exact .none

theorem loop {k : α → τ → Option (Descent σ ε α)} {l : β → τ → Option (Descent σ ε β)}
    (hk : ∀ a b, R a b → ∀ t t', A t t' → Option.Rel (Related out A R) (k a t) (l b t'))
    {fuel fuel' : Nat} (hfuel : fuel ≤ fuel') (hab : R a b) :
    Related out A R (loop out k fuel a : Descent σ ε α) (loop out l fuel' b) := by
  induction fuel generalizing fuel' a b with
  | zero => exact fail_out _
  | succ fuel ih =>
    obtain ⟨fuel', rfl⟩ := Nat.exists_eq_succ_of_ne_zero (Nat.ne_of_gt (Nat.lt_of_lt_of_le
      (Nat.succ_pos fuel) hfuel))
    refine choose (fun t t' ht => ?_) (pure hab)
    have h := hk a b hab t t' ht
    generalize k a t = u, l b t' = v at h
    obtain h | _ := h
    · exact .some (h.bind fun a b hab => ih (Nat.le_of_succ_le_succ hfuel) hab)
    · exact .none

theorem sepBy {separator : τ → Bool} (hseparator : ∀ t t', A t t' → separator t = separator t')
    (h : Related out A R x y) {fuel fuel' : Nat} (hfuel : fuel ≤ fuel') :
    Related out A (List.Forall₂ R) (sepBy out separator x fuel) (sepBy out separator y fuel') := by
  refine h.bind fun a b hab => loop (fun as bs has t t' ht => ?_) hfuel (.cons hab .nil)
  rw [← hseparator t t' ht]
  split_ifs
  · exact .some (h.bind fun a b hab => pure (List.rel_append has (.cons hab .nil)))
  · exact .none

end Related

end Descent

end MySQLight.Effect
