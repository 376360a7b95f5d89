import MySQLight.Effect.Prog

/-!
Procedures: programs over an interface that have a state of their own and
may fail.

`Proc I σ ε α` is to `Prog I` what `Fallible` is to plain functions. The
state `σ` belongs to the caller's object (a tree, an iterator), the layer
below is reached through the operations of `I`, and a failure keeps both
as they are at that point.

`Proc.wp` lifts the weakest precondition of programs. Its rules follow
the text of a procedure from top to bottom, one rule for each construct.
-/

namespace MySQLight.Effect

/-- A procedure over the interface `I` with state `σ` and errors `ε`. -/
def Proc (I : Interface) (σ ε α : Type) : Type := σ → Prog I (Except ε α × σ)

namespace Proc

variable {I : Interface} {σ ε α β τ : Type}

instance : Monad (Proc I σ ε) where
  pure a := fun s => .ret (.ok a, s)
  bind x f := fun s => do
    match ← x s with
    | (.ok a, s') => f a s'
    | (.error e, s') => return (.error e, s')

theorem bind_eq (x : Proc I σ ε α) (f : α → Proc I σ ε β) (s : σ) : (x >>= f) s = (x s >>= fun r =>
    match r with
    | (.ok a, s') => f a s'
    | (.error e, s') => .ret (.error e, s')) := rfl

instance : LawfulMonad (Proc I σ ε) :=
  LawfulMonad.mk' _
    (fun x => by
      funext s
      change (x s >>= fun r => _) = x s
      conv_rhs => rw [← Prog.bind_ret (x s)]
      congr 1
      funext r
      rcases r with ⟨_ | _, _⟩ <;> rfl)
    (fun _ _ => rfl)
    (fun x f g => by
      funext s
      simp only [bind_eq, Prog.bind_assoc]
      congr 1
      funext r
      rcases r with ⟨_ | _, _⟩ <;> rfl)

instance : MonadExceptOf ε (Proc I σ ε) where
  throw e := fun s => .ret (.error e, s)
  tryCatch x f := fun s => do
    match ← x s with
    | (.ok a, s') => return (.ok a, s')
    | (.error e, s') => f e s'

instance : MonadStateOf σ (Proc I σ ε) where
  get := fun s => .ret (.ok s, s)
  set s' := fun _ => .ret (.ok (), s')
  modifyGet f := fun s => .ret (.ok (f s).1, (f s).2)

/-- Call an operation. -/
def call (o : I.Op) : Proc I σ ε (I.Resp o) := fun s => do
  return (.ok (← Prog.perform o), s)

/-- A result that needs neither the state nor the layer below. -/
def ofExcept (r : Except ε α) : Proc I σ ε α := fun s => .ret (r, s)

/-- A program that needs no state and may fail. -/
def ofProg (p : Prog I (Except ε α)) : Proc I σ ε α := fun s => do
  return (← p, s)

/-- A value that may be missing. -/
def orThrow (e : ε) (a : Option α) : Proc I σ ε α := ofExcept (a.elim (.error e) .ok)

/-- Run the body for every element, stopping at the first error. -/
def forEach (f : α → Proc I σ ε Unit) : List α → Proc I σ ε Unit
  | [] => pure ()
  | a :: as => do
      f a
      forEach f as

theorem forEach_append (f : α → Proc I σ ε Unit) (as bs : List α) :
    forEach f (as ++ bs) = forEach f as >>= fun _ => forEach f bs := by
  induction as with
  | nil => rfl
  | cons a as ih =>
    rw [List.cons_append, forEach, forEach, ih]
    simp only [bind_assoc]

theorem forEach_map (f : β → Proc I σ ε Unit) (g : α → β) (as : List α) :
    forEach f (as.map g) = forEach (fun a => f (g a)) as := by
  induction as with
  | nil => rfl
  | cons a as ih => rw [List.map_cons, forEach, forEach, ih]

/-- A loop in a loop is one loop. -/
theorem forEach_flatMap (f : β → Proc I σ ε Unit) (g : α → List β) (as : List α) :
    forEach f (as.flatMap g) = forEach (fun a => forEach f (g a)) as := by
  induction as with
  | nil => rfl
  | cons a as ih => rw [List.flatMap_cons, forEach_append, ih, forEach]

/-- Run a procedure to its end and hand its outcome to the caller. -/
def attempt (x : Proc I σ ε α) : Proc I σ ε (Except ε α) := fun s => do
  let r ← x s
  return (.ok r.1, r.2)

/-- Clean up when a procedure fails. -/
def onError (x : Proc I σ ε α) (cleanup : Proc I σ ε Unit) : Proc I σ ε α := do
  match ← attempt x with
  | .ok a => return a
  | .error e =>
    let _ ← attempt cleanup
    throw e

/-- Clean up when a procedure is left, in any way. -/
def defer (cleanup : Proc I σ ε Unit) (x : Proc I σ ε α) : Proc I σ ε α := do
  let r ← attempt x
  let _ ← attempt cleanup
  ofExcept r

/-! ### Weakest preconditions -/

/-- No operation is refused, and the procedure ends in an outcome, a state
and a lower state that satisfy `Q`. -/
def wp (g : Prog.Ideal I τ) (x : Proc I σ ε α) (Q : Except ε α → σ → τ → Prop) (s : σ) (t : τ) :
    Prop :=
  Prog.wp g (x s) (fun r t' => Q r.1 r.2 t') t

variable {g : Prog.Ideal I τ} {Q Q' : Except ε α → σ → τ → Prop} {s s' : σ} {t t' : τ}

theorem wp_mono {x : Proc I σ ε α} (hx : wp g x Q s t) (hQ : ∀ r s' t', Q r s' t' → Q' r s' t') :
    wp g x Q' s t :=
  Prog.wp_mono (fun r t' h => hQ r.1 r.2 t' h) hx

/-- The rule for sequences. -/
theorem wp_bind {R : Except ε α → σ → τ → Prop} {x : Proc I σ ε α} {f : α → Proc I σ ε β}
    {Q : Except ε β → σ → τ → Prop} (hx : wp g x R s t)
    (hok : ∀ a s' t', R (.ok a) s' t' → wp g (f a) Q s' t')
    (herror : ∀ e s' t', R (.error e) s' t' → Q (.error e) s' t') : wp g (x >>= f) Q s t := by
  refine (Prog.wp_bind g _ _ _ t).mpr (Prog.wp_mono ?_ hx)
  rintro ⟨r, s'⟩ t' h
  cases r with
  | ok a => exact hok a s' t' h
  | error e => exact herror e s' t' h

@[simp] theorem wp_pure_bind (b : β) (f : β → Proc I σ ε α) :
    wp g (pure b >>= f) Q s t ↔ wp g (f b) Q s t := Iff.rfl

@[simp] theorem wp_get_bind (f : σ → Proc I σ ε α) :
    wp g (get >>= f) Q s t ↔ wp g (f s) Q s t := Iff.rfl

/-- A result that is known before. -/
theorem wp_ofExcept_bind_of {r : Except ε β} {f : β → Proc I σ ε α}
    (hok : ∀ b, r = .ok b → wp g (f b) Q s t) (herror : ∀ e, r = .error e → Q (.error e) s t) :
    wp g (ofExcept r >>= f) Q s t := by
  cases r with
  | ok b => exact hok b rfl
  | error e => exact herror e rfl

variable {f : α → Proc I σ ε Unit} {as : List α}

/-- The loop rule: an invariant about the elements that are done, and what
follows from it when a round fails. -/
theorem wp_forEach_done {J : List α → σ → τ → Prop} {Q : Except ε Unit → σ → τ → Prop}
    (hs : J [] s t)
    (hstep : ∀ done a rest, as = done ++ a :: rest → ∀ s t, J done s t →
      wp g (f a) (fun r s' t' =>
        match r with
        | .ok _ => J (done ++ [a]) s' t'
        | .error e => Q (.error e) s' t') s t) (hend : ∀ s t, J as s t → Q (.ok ()) s t) :
    wp g (forEach f as) Q s t := by
  induction as generalizing J s t with
  | nil => exact hend s t hs
  | cons a as ih =>
    refine wp_bind (hstep [] a as rfl s t hs) (fun _ s' t' h => ?_) fun _ _ _ h => h
    refine ih (J := fun done => J (a :: done)) h (fun done b rest hsplit => ?_) hend
    exact hstep (a :: done) b rest (by rw [hsplit, List.cons_append])

/-- The loop rule for an invariant that every round keeps. -/
theorem wp_forEach {J : σ → τ → Prop} {Q : Except ε Unit → σ → τ → Prop} (hs : J s t)
    (hstep : ∀ a ∈ as, ∀ s t, J s t → wp g (f a) (fun r s' t' =>
      match r with
      | .ok _ => J s' t'
      | .error e => Q (.error e) s' t') s t) (hend : ∀ s t, J s t → Q (.ok ()) s t) :
    wp g (forEach f as) Q s t := by
  refine wp_forEach_done (J := fun _ => J) hs (fun done a rest hsplit => ?_) hend
  exact hstep a (by rw [hsplit]; exact List.mem_append_right _ List.mem_cons_self)

/-- The loop rule for what holds after a round whether or not it fails. -/
theorem wp_forEach_keeps {J : σ → τ → Prop} (hs : J s t)
    (hstep : ∀ a ∈ as, ∀ s t, J s t → wp g (f a) (fun _ s' t' => J s' t') s t) :
    wp g (forEach f as) (fun _ s' t' => J s' t') s t := by
  refine wp_forEach hs (fun a ha s t h => wp_mono (hstep a ha s t h) fun r s' t' h' => ?_)
    fun _ _ h => h
  cases r <;> exact h'

/-! ### Runs -/

/-- Run a procedure against a handler: the outcome, the state and the lower
state. -/
def run (h : Prog.Handler I τ) (x : Proc I σ ε α) (s : σ) (t : τ) : (Except ε α × σ) × τ :=
  Prog.run h (x s) t

section Run

variable {h : Prog.Handler I τ} {x : Proc I σ ε α} {f : α → Proc I σ ε β}

theorem run_bind_of_ok {a : α} (hx : run h x s t = ((.ok a, s'), t')) :
    run h (x >>= f) s t = run h (f a) s' t' := by
  rw [run] at hx
  rw [run, bind_eq, Prog.run_bind, hx]
  rfl

theorem run_bind_of_error {e : ε} (hx : run h x s t = ((.error e, s'), t')) :
    run h (x >>= f) s t = ((.error e, s'), t') := by
  rw [run] at hx
  rw [run, bind_eq, Prog.run_bind, hx]
  rfl

/-- A sequence goes on with what its first part returns, or ends there. -/
theorem run_bind_cases {r : Except ε α} (hx : run h x s t = ((r, s'), t')) :
    (∃ a, r = .ok a ∧ ∀ f : α → Proc I σ ε β, run h (x >>= f) s t = run h (f a) s' t') ∨
      ∃ e, r = .error e ∧ ∀ f : α → Proc I σ ε β, run h (x >>= f) s t = ((.error e, s'), t') := by
  cases r with
  | ok a => exact .inl ⟨a, rfl, fun _ => run_bind_of_ok hx⟩
  | error e => exact .inr ⟨e, rfl, fun _ => run_bind_of_error hx⟩

/-- A loop that fails does so in a round, after rounds that succeed. -/
theorem run_forEach_error {f : α → Proc I σ ε Unit} {as : List α} {e : ε}
    (hrun : run h (forEach f as) s t = ((.error e, s'), t')) :
    ∃ done a rest s₁ t₁, as = done ++ a :: rest ∧
      run h (forEach f done) s t = ((.ok (), s₁), t₁) ∧
      run h (f a) s₁ t₁ = ((.error e, s'), t') := by
  induction as generalizing s t with
  | nil => cases hrun
  | cons a as ih =>
    rcases hfirst : run h (f a) s t with ⟨⟨r, s₁⟩, t₁⟩
    cases r with
    | error e' =>
      rw [forEach, run_bind_of_error hfirst] at hrun
      cases hrun
      exact ⟨[], a, as, s, t, rfl, rfl, hfirst⟩
    | ok _ =>
      rw [forEach, run_bind_of_ok hfirst] at hrun
      obtain ⟨done, b, rest, s₂, t₂, rfl, hdone, hb⟩ := ih hrun
      refine ⟨a :: done, b, rest, s₂, t₂, rfl, ?_, hb⟩
      rw [forEach, run_bind_of_ok hfirst, hdone]

/-- What the rules show of a procedure holds of its run. -/
theorem run_of_wp (hx : wp (Prog.checked h (fun _ _ => True) fun _ _ => True) x Q s t)
    {r : Except ε α} (hrun : run h x s t = ((r, s'), t')) : Q r s' t' := by
  have hQ := (Prog.along_of_wp hx (Prog.along_true h (x s) t)).2
  rw [run] at hrun
  rwa [hrun] at hQ

end Run

end Proc

end MySQLight.Effect
