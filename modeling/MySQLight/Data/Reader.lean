import MySQLight.Data.Bytes

/-!
Reading a buffer from front to back.

A reader takes what it needs from the front of the bytes that are left and
has no result when they do not suffice. `Reads r bs a` says that the
reader takes exactly the bytes `bs`, whatever follows them, and returns
`a`. It composes as the readers do, so a format is read back once each of
its fields is.
-/

namespace MySQLight.Data

variable {α β : Type}

/-- A reader: the value read and the bytes that are left. -/
abbrev Reader (α : Type) : Type := StateT Bytes Option α

namespace Reader

def byte : Reader UInt8 := fun bs =>
  match bs with
  | [] => none
  | b :: bs => some (b, bs)

/-- The next `n` bytes. -/
def bytes (n : Nat) : Reader Bytes := fun bs =>
  if n ≤ bs.length then some (bs.take n, bs.drop n) else none

/-- A big-endian number of `w` bytes. -/
def word (w : Nat) : Reader Nat := do return beNat (← bytes w)

/-- Bytes after their number. -/
def counted (w : Nat) : Reader Bytes := do bytes (← word w)

/-- The same again, `n` times. -/
def times (r : Reader α) : Nat → Reader (List α)
  | 0 => return []
  | n + 1 => do
      let a ← r
      let as ← times r n
      return a :: as

end Reader

/-- Bytes behind their number, as `Reader.counted` reads them. -/
def counted (w : Nat) (bs : Bytes) : Bytes := be w bs.length ++ bs

/-- The reader takes the bytes `bs` and returns `a`. Readers with other
failures than a missing result are of this kind, too. -/
def Reads {m : Type → Type} [Monad m] (r : StateT Bytes m α) (bs : Bytes) (a : α) : Prop :=
  ∀ rest, r.run (bs ++ rest) = Pure.pure (a, rest)

namespace Reads

section Rules

variable {m : Type → Type} [Monad m] [LawfulMonad m] {r : StateT Bytes m α}
  {f : α → StateT Bytes m β} {bs bs' : Bytes} {a : α} {b : β}

omit [LawfulMonad m] in
theorem pure (a : α) : Reads (Pure.pure a : StateT Bytes m α) [] a := fun _ => rfl

theorem bind (hr : Reads r bs a) (hf : Reads (f a) bs' b) : Reads (r >>= f) (bs ++ bs') b := by
  intro rest
  rw [StateT.run_bind, List.append_assoc, hr, pure_bind]
  exact hf rest

/-- Nothing is left for the rest of the reader. -/
theorem bind_pure (hr : Reads r bs a) (hf : Reads (f a) [] b) : Reads (r >>= f) bs b := by
  have h := hr.bind hf
  rwa [List.append_nil] at h

end Rules

theorem byte (b : UInt8) : Reads Reader.byte [b] b := fun _ => rfl

theorem bytes (bs : Bytes) : Reads (Reader.bytes bs.length) bs bs := by
  intro rest
  show (if bs.length ≤ (bs ++ rest).length then _ else _) = _
  rw [if_pos (by simp), List.take_left, List.drop_left]
  rfl

theorem word {w n : Nat} (h : n < 256 ^ w) : Reads (Reader.word w) (be w n) n := by
  have hbytes := bytes (be w n)
  rw [length_be] at hbytes
  refine hbytes.bind_pure ?_
  rw [beNat_be_of_lt h]
  exact pure n

theorem counted {w : Nat} {bs : Bytes} (h : bs.length < 256 ^ w) :
    Reads (Reader.counted w) (counted w bs) bs :=
  (word h).bind (bytes bs)

theorem times {r : Reader α} {encode : α → Bytes} {as : List α}
    (h : ∀ a ∈ as, Reads r (encode a) a) :
    Reads (Reader.times r as.length) (as.flatMap encode) as := by
  induction as with
  | nil => exact pure []
  | cons a as ih =>
    obtain ⟨ha, has⟩ := List.forall_mem_cons.mp h
    rw [List.flatMap_cons]
    exact ha.bind ((ih has).bind_pure (pure (a :: as)))

theorem run {r : Reader α} {bs : Bytes} {a : α} (h : Reads r bs a) : r.run bs = some (a, []) := by
  have := h []
  rwa [List.append_nil] at this

end Reads

/-! ### Data that ends too early -/

/-- What the reader makes of a part it makes of the whole. -/
def Extends {ε : Type} (r : StateT Bytes (Except ε) α) : Prop :=
  ∀ bs a rest, r.run bs = .ok (a, rest) → ∀ more, r.run (bs ++ more) = .ok (a, rest ++ more)

/-- A part of what a reader takes is not enough for it. -/
theorem Reads.cut {ε : Type} {r : StateT Bytes (Except ε) α} {bs more : Bytes} {a : α}
    (h : Reads r (bs ++ more) a) (hr : Extends r) (hmore : more ≠ []) :
    ∃ e, r.run bs = .error e := by
  cases hrun : r.run bs with
  | error e => exact ⟨e, rfl⟩
  | ok p =>
    have hwhole := h []
    rw [List.append_nil, hr bs p.1 p.2 hrun more] at hwhole
    obtain ⟨-, hrest⟩ := Prod.mk.inj (Except.ok.inj hwhole)
    exact absurd (List.append_eq_nil_iff.mp hrest).2 hmore

namespace Extends

variable {ε : Type}

theorem pure (a : α) : Extends (Pure.pure a : StateT Bytes (Except ε) α) := by
  intro bs a' rest h more
  cases h
  rfl

theorem bind {r : StateT Bytes (Except ε) α} {f : α → StateT Bytes (Except ε) β}
    (hr : Extends r) (hf : ∀ a, Extends (f a)) : Extends (r >>= f) := by
  intro bs b rest h more
  rw [StateT.run_bind] at h ⊢
  cases hrun : r.run bs with
  | error e =>
    rw [hrun] at h
    cases h
  | ok p =>
    rw [hrun] at h
    rw [hr bs p.1 p.2 hrun more]
    exact hf p.1 p.2 b rest h more

end Extends

theorem Reader.bytes_append {n : Nat} {bs part rest : Bytes}
    (h : (Reader.bytes n).run bs = some (part, rest)) (more : Bytes) :
    (Reader.bytes n).run (bs ++ more) = some (part, rest ++ more) := by
  change (if n ≤ bs.length then some (bs.take n, bs.drop n) else none) = _ at h
  show (if n ≤ (bs ++ more).length then some ((bs ++ more).take n, (bs ++ more).drop n)
    else none) = _
  split_ifs at h with hn
  cases h
  rw [if_pos (by rw [List.length_append]; omega), List.take_append_of_le_length hn,
    List.drop_append_of_le_length hn]

theorem Reader.word_append {w n : Nat} {bs rest : Bytes}
    (h : (Reader.word w).run bs = some (n, rest)) (more : Bytes) :
    (Reader.word w).run (bs ++ more) = some (n, rest ++ more) := by
  rw [Reader.word, StateT.run_bind] at h ⊢
  cases hrun : (Reader.bytes w).run bs with
  | none =>
    rw [hrun] at h
    cases h
  | some p =>
    rw [hrun] at h
    cases h
    rw [Reader.bytes_append hrun more]
    rfl

end MySQLight.Data
