import Mathlib.Order.Defs.Unbundled
import MySQLight.Effect.Proc

/-!
Streams over an interface: what an opened iterator will still deliver.

A stream is at its end, fails, has an element and a rest, or calls the
layer below before it can go on. Nothing is called before somebody asks for
the next element, so a consumer that stops early leaves the rest undone.

A stream is consumed little by little, and the layer below may have moved
on in the meantime. `Steady` says of a program that it does not mind:
whenever a call is made, from a state that the relation `R` allows, the call
is accepted and `R` goes on.
-/

namespace MySQLight.Effect

namespace Prog

variable {I : Interface} {α β τ : Type}

/-- From every state that `R` allows after `t`, and with such moves between
the calls, the calls of the program are accepted, `R` goes on, and the
outcome satisfies `Q`. -/
def Steady (g : Ideal I τ) (R : τ → τ → Prop) : Prog I α → (α → τ → Prop) → τ → Prop
  | ret a, Q, t => Q a t
  | call o k, Q, t => ∀ t', R t t' → (g o t').Holds fun a => R t' a.2 ∧ (k a.1).Steady g R Q a.2

namespace Steady

variable {g : Ideal I τ} {R : τ → τ → Prop} {Q Q' : α → τ → Prop} {p : Prog I α} {t : τ}

theorem imp (hQ : ∀ a t, Q a t → Q' a t) (hp : p.Steady g R Q t) : p.Steady g R Q' t := by
  induction p generalizing t with
  | ret a => exact hQ a t hp
  | call o k ih => exact fun t' ht' => (hp t' ht').imp fun a ha => ⟨ha.1, ih _ ha.2⟩

theorem bind {f : α → Prog I β} {Q : β → τ → Prop}
    (hp : p.Steady g R (fun a t' => (f a).Steady g R Q t') t) : (p >>= f).Steady g R Q t := by
  induction p generalizing t with
  | ret a => exact hp
  | call o k ih => exact fun t' ht' => (hp t' ht').imp fun a ha => ⟨ha.1, ih _ ha.2⟩

theorem mono [IsTrans τ R] (hQ : ∀ a t t', R t t' → Q a t → Q a t') {t' : τ} (ht : R t t')
    (hp : p.Steady g R Q t) : p.Steady g R Q t' := by
  cases p with
  | ret a => exact hQ a t t' ht hp
  | call o k => exact fun t'' ht'' => hp t'' (trans_of R ht ht'')

/-- The outcome is one that `R` allows. -/
theorem after [Std.Refl R] [IsTrans τ R] (hp : p.Steady g R Q t) :
    p.Steady g R (fun a t' => R t t' ∧ Q a t') t := by
  induction p generalizing t with
  | ret a => exact ⟨refl_of R t, hp⟩
  | call o k ih =>
    refine fun t' ht' => (hp t' ht').imp fun a ha => ⟨ha.1, (ih _ ha.2).imp fun b t'' hb => ?_⟩
    exact ⟨trans_of R ht' (trans_of R ha.1 hb.1), hb.2⟩

/-- Without moves in between. -/
theorem wp [Std.Refl R] [IsTrans τ R] (hp : p.Steady g R Q t) :
    Prog.wp g p (fun a t' => R t t' ∧ Q a t') t := by
  induction p generalizing t with
  | ret a => exact ⟨refl_of R t, hp⟩
  | call o k ih =>
    refine (hp t (refl_of R t)).imp fun a ha => wp_mono ?_ (ih _ ha.2)
    exact fun b t' h => ⟨trans_of R ha.1 h.1, h.2⟩

end Steady

end Prog

/-- A stream of `α` over the interface `I` that may fail with an `ε`. -/
inductive Stream (I : Interface) (ε α : Type) : Type
  | done
  | fail (e : ε)
  | emit (a : α) (rest : Stream I ε α)
  | call (o : I.Op) (k : I.Resp o → Stream I ε α)

namespace Stream

variable {I : Interface} {ε α β σ τ : Type}

/-! ### Building streams -/

def ofList : List α → Stream I ε α
  | [] => done
  | a :: as => emit a (ofList as)

/-- The stream that a program opens. -/
def ofProg : Prog I (Except ε (Stream I ε α) × σ) → Stream I ε α
  | .ret (.ok s, _) => s
  | .ret (.error e, _) => fail e
  | .call o k => call o fun r => ofProg (k r)

def append : Stream I ε α → Stream I ε α → Stream I ε α
  | done, next => next
  | fail e, _ => fail e
  | emit a rest, next => emit a (rest.append next)
  | call o k, next => call o fun r => (k r).append next

/-- For every element the stream of it, one after the other. -/
def flatMap (f : α → Stream I ε β) : Stream I ε α → Stream I ε β
  | done => done
  | fail e => fail e
  | emit a rest => (f a).append (rest.flatMap f)
  | call o k => call o fun r => (k r).flatMap f

/-- Replace an element, drop it, or fail at it. -/
def filterMap (f : α → Except ε (Option β)) : Stream I ε α → Stream I ε β
  | done => done
  | fail e => fail e
  | emit a rest =>
    match f a with
    | .error e => fail e
    | .ok none => rest.filterMap f
    | .ok (some b) => emit b (rest.filterMap f)
  | call o k => call o fun r => (k r).filterMap f

/-- The first `n` elements; after the last of them nothing is asked for. -/
def take (n : Nat) : Stream I ε α → Stream I ε α
  | done => done
  | fail e => if n = 0 then done else fail e
  | emit a rest => if n = 0 then done else emit a (rest.take (n - 1))
  | call o k => if n = 0 then done else call o fun r => (k r).take n

/-! ### Consuming streams -/

/-- The next element and the rest, or nothing at the end. -/
def next : Stream I ε α → Prog I (Except ε (Option (α × Stream I ε α)))
  | done => .ret (.ok none)
  | fail e => .ret (.error e)
  | emit a rest => .ret (.ok (some (a, rest)))
  | call o k => .call o fun r => (k r).next

/-- Take the elements into an accumulator, stopping at the first error. -/
def fold (f : β → α → Except ε β) (b : β) : Stream I ε α → Prog I (Except ε β)
  | done => .ret (.ok b)
  | fail e => .ret (.error e)
  | emit a rest =>
    match f b a with
    | .error e => .ret (.error e)
    | .ok b' => rest.fold f b'
  | call o k => .call o fun r => (k r).fold f b

end Stream

end MySQLight.Effect
