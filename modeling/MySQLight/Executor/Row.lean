import Mathlib.Data.List.Forall2
import Mathlib.Tactic.IntervalCases
import MySQLight.Catalog.Encoding
import MySQLight.Data.Float64

/-!
Rows and keys (`executor/row.go`, `executor/delete.go`, `executor/fk.go`).

A row is stored as a bitmap of the columns that are NULL, followed by the
values of the others. A value is written in the way of its column's type,
whatever field of it is set, so what comes back is the value in that field
alone (`Value.canon`).
-/

namespace MySQLight.Sql

open MySQLight.Data MySQLight.Schema

/-- The values of a row, parallel to the columns of its table. -/
abbrev Row : Type := List Value

/-! ### The bitmap -/

/-- `setBit` with `on`. -/
def setBit (bitmap : Bytes) (i : Nat) : Bytes :=
  bitmap.set (i / 8) (bitmap.getD (i / 8) 0 ||| 1 <<< UInt8.ofNat (i % 8))

def checkBit (bitmap : Bytes) (i : Nat) : Bool :=
  (bitmap.getD (i / 8) 0 >>> UInt8.ofNat (i % 8)) &&& 1 = 1

def bitmapSize (columns : List ColumnDef) : Nat := (columns.length + 7) / 8

/-- The bits of the NULLs among the values from position `i` on. -/
def markNulls (bitmap : Bytes) (i : Nat) : Row → Bytes
  | [] => bitmap
  | v :: vs => markNulls (if v.isNull then setBit bitmap i else bitmap) (i + 1) vs

/-! ### Writing and reading -/

/-- The values that are not NULL. -/
def encodeFields : Row → List ColumnDef → Bytes
  | v :: vs, c :: cs => (if v.isNull then [] else encodeValue v c.type) ++ encodeFields vs cs
  | _, _ => []

def encodeRow (values : Row) (columns : List ColumnDef) : Bytes :=
  markNulls (List.replicate (bitmapSize columns) 0) 0 values ++ encodeFields values columns

inductive RowErr
  | tooShort
  | truncatedInt
  | truncatedFloat
  | truncatedTextLength
  | truncatedText
  | truncatedBlobLength
  | truncatedBlob
deriving DecidableEq, Repr

/-- Run a reader, with the error for data that ends too early. -/
def readOr {α : Type} (e : RowErr) (r : Reader α) : StateT Bytes (Except RowErr) α := fun data =>
  match r.run data with
  | none => .error e
  | some p => .ok p

def decodeField : DataType → StateT Bytes (Except RowErr) Value
  | .typeInt => do
      return { intVal := (UInt64.ofNat (← readOr .truncatedInt (Reader.word 8))).toInt64 }
  | .typeFloat => do
      return { floatVal := UInt64.ofNat (← readOr .truncatedFloat (Reader.word 8)) }
  | .typeText => do
      let length ← readOr .truncatedTextLength (Reader.word 4)
      return { textVal := ← readOr .truncatedText (Reader.bytes length) }
  | .typeBlob => do
      let length ← readOr .truncatedBlobLength (Reader.word 4)
      return { blobVal := ← readOr .truncatedBlob (Reader.bytes length) }

/-- The column at position `i`. -/
def decodeColumn (bitmap : Bytes) (i : Nat) (c : ColumnDef) :
    StateT Bytes (Except RowErr) Value :=
  if checkBit bitmap i then return .null else decodeField c.type

/-- The columns from position `i` on. -/
def decodeFields (bitmap : Bytes) : Nat → List ColumnDef → StateT Bytes (Except RowErr) Row
  | _, [] => return []
  | i, c :: cs => do
      let v ← decodeColumn bitmap i c
      let vs ← decodeFields bitmap (i + 1) cs
      return v :: vs

def decodeRow (data : Bytes) (columns : List ColumnDef) : Except RowErr Row :=
  if data.length < bitmapSize columns then .error .tooShort
  else (decodeFields (data.take (bitmapSize columns)) 0 columns).run'
    (data.drop (bitmapSize columns))

/-! ### Keys and equality -/

inductive KeyErr
  | nullKey
  | unsupportedKeyType (type : DataType)
deriving DecidableEq, Repr

/-- `encodeKeyValue`. -/
def encodeKeyValue (v : Value) (type : DataType) : Except KeyErr Bytes :=
  if v.isNull then .error .nullKey
  else match type with
    | .typeInt => .ok (be 8 v.intVal.toUInt64.toNat)
    | .typeText => .ok v.textVal
    | type => .error (.unsupportedKeyType type)

def valuesEqual (a b : Value) (type : DataType) : Bool :=
  if a.isNull || b.isNull then false
  else match type with
    | .typeInt => a.intVal = b.intVal
    | .typeFloat => Float64.eq a.floatVal b.floatVal
    | .typeText => a.textVal = b.textVal
    | .typeBlob => a.blobVal = b.blobVal

/-- `findColumnIndex` for the primary key. -/
def pkIndex (columns : List ColumnDef) : Option Nat := columns.findIdx? (·.primaryKey)

/-- `findColumnIndex` for a name. -/
def colIndex (columns : List ColumnDef) (name : Bytes) : Option Nat :=
  columns.findIdx? (·.name = name)

theorem toOption_eq_some {ε α : Type} {r : Except ε α} {a : α} :
    r.toOption = some a ↔ r = .ok a := by
  cases r <;> simp [Except.toOption]

/-! ### The bitmap holds the NULLs -/

theorem shifted_and_one (b : UInt8) {k : Nat} (hk : k < 8) :
    (b >>> UInt8.ofNat k &&& 1 = 1) ↔ b.toNat.testBit k = true := by
  have hmod : (UInt8.ofNat k).toNat % 8 = k := by
    rw [UInt8.toNat_ofNat']
    omega
  rw [← UInt8.toNat_inj, UInt8.toNat_and, UInt8.toNat_shiftRight, hmod, Nat.testBit]
  have h1 : (1 : UInt8).toNat = 1 := rfl
  rw [h1, Nat.and_comm 1, Nat.and_one_is_mod, bne_iff_ne, ne_eq]
  omega

theorem toNat_one_shiftLeft {k : Nat} (hk : k < 8) :
    (1 <<< UInt8.ofNat k : UInt8).toNat = 2 ^ k := by
  interval_cases k <;> rfl

variable {bitmap data : Bytes} {i : Nat} {vs row : Row} {v : Value} {columns : List ColumnDef}

theorem checkBit_setBit (hi : i < 8 * bitmap.length) (j : Nat) :
    checkBit (setBit bitmap i) j = (checkBit bitmap j || decide (j = i)) := by
  have hi8 : i % 8 < 8 := Nat.mod_lt _ (by decide)
  have hj8 : j % 8 < 8 := Nat.mod_lt _ (by decide)
  rw [Bool.eq_iff_iff, Bool.or_eq_true, decide_eq_true_iff]
  simp only [checkBit, decide_eq_true_iff, shifted_and_one _ hj8]
  by_cases hbyte : j / 8 = i / 8
  · have hget : (setBit bitmap i).getD (j / 8) 0 =
        bitmap.getD (i / 8) 0 ||| 1 <<< UInt8.ofNat (i % 8) := by
      rw [hbyte, setBit, List.getD_eq_getElem?_getD, List.getElem?_set_self (by omega),
        Option.getD_some]
    rw [hget, UInt8.toNat_or, toNat_one_shiftLeft hi8, Nat.testBit_or, Nat.testBit_two_pow,
      Bool.or_eq_true, decide_eq_true_iff, hbyte]
    have hiff : i % 8 = j % 8 ↔ j = i := by omega
    rw [hiff]
  · have hget : (setBit bitmap i).getD (j / 8) 0 = bitmap.getD (j / 8) 0 := by
      rw [setBit, List.getD_eq_getElem?_getD, List.getElem?_set_ne (Ne.symm hbyte),
        ← List.getD_eq_getElem?_getD]
    rw [hget]
    have hne : j ≠ i := fun h => hbyte (by rw [h])
    simp [hne]

@[simp] theorem length_setBit (bitmap : Bytes) (i : Nat) :
    (setBit bitmap i).length = bitmap.length := List.length_set

@[simp] theorem length_markNulls (bitmap : Bytes) (i : Nat) (vs : Row) :
    (markNulls bitmap i vs).length = bitmap.length := by
  induction vs generalizing bitmap i with
  | nil => rfl
  | cons v vs ih =>
    rw [markNulls, ih]
    split_ifs
    · exact length_setBit bitmap i
    · rfl

/-- Positions before the first value keep their bits. -/
theorem checkBit_markNulls_of_lt {j : Nat} (hlen : i + vs.length ≤ 8 * bitmap.length) (hj : j < i) :
    checkBit (markNulls bitmap i vs) j = checkBit bitmap j := by
  induction vs generalizing bitmap i with
  | nil => rfl
  | cons v vs ih =>
    rw [List.length_cons] at hlen
    rw [markNulls]
    split_ifs
    · rw [ih (by rw [length_setBit]; omega) (by omega), checkBit_setBit (by omega),
        decide_eq_false (by omega), Bool.or_false]
    · exact ih (by omega) (by omega)

theorem checkBit_markNulls (hlen : i + (v :: vs).length ≤ 8 * bitmap.length)
    (hclear : checkBit bitmap i = false) :
    checkBit (markNulls bitmap i (v :: vs)) i = v.isNull := by
  rw [List.length_cons] at hlen
  rw [markNulls]
  split_ifs with hnull
  · rw [checkBit_markNulls_of_lt (by rw [length_setBit]; omega) (by omega),
      checkBit_setBit (by omega), decide_eq_true rfl, Bool.or_true, hnull]
  · rw [checkBit_markNulls_of_lt (by omega) (by omega), hclear]
    simpa using hnull

theorem checkBit_replicate (n j : Nat) : checkBit (List.replicate n 0) j = false := by
  have hget : (List.replicate n (0 : UInt8)).getD (j / 8) 0 = 0 := by
    rw [List.getD_eq_getElem?_getD, List.getElem?_replicate]
    split_ifs
    · rfl
    · rfl
  rw [checkBit, hget, decide_eq_false_iff_not, shifted_and_one _ (Nat.mod_lt _ (by decide))]
  simp

/-- The bit of a position is set exactly if its value is NULL. -/
theorem checkBit_markNulls_get {k : Nat} (hlen : i + vs.length ≤ 8 * bitmap.length)
    (hclear : ∀ j, i ≤ j → checkBit bitmap j = false) (hv : vs[k]? = some v) :
    checkBit (markNulls bitmap i vs) (i + k) = v.isNull := by
  induction vs generalizing bitmap i k with
  | nil => cases hv
  | cons w vs ih =>
    cases k with
    | zero =>
      cases hv
      exact checkBit_markNulls hlen (hclear i le_rfl)
    | succ k =>
      rw [List.length_cons] at hlen
      rw [markNulls, show i + (k + 1) = i + 1 + k by omega]
      -- Marking position `i` leaves the later ones clear.
      refine ih ?_ (fun j hj => ?_) hv
      · split_ifs
        · rw [length_setBit]
          omega
        · omega
      · split_ifs
        · rw [checkBit_setBit (by omega), hclear j (by omega), decide_eq_false (by omega),
            Bool.or_false]
        · exact hclear j (by omega)

/-! ### Reading back -/

theorem reads_readOr {α : Type} {e : RowErr} {r : Reader α} {bs : Bytes} {a : α}
    (h : Reads r bs a) : Reads (readOr e r) bs a := by
  intro rest
  show (match r.run (bs ++ rest) with | none => Except.error e | some p => .ok p) = _
  rw [h rest]
  rfl

theorem reads_decodeField {type : DataType} (hshort : v.ShortIn type) :
    Reads (decodeField type) (encodeValue v type) (v.field type) := by
  cases type with
  | typeInt =>
    refine (reads_readOr (Reads.word (UInt64.toNat_lt _))).bind_pure ?_
    rw [UInt64.ofNat_toNat, Int64.toInt64_toUInt64]
    exact .pure _
  | typeFloat =>
    refine (reads_readOr (Reads.word (UInt64.toNat_lt _))).bind_pure ?_
    rw [UInt64.ofNat_toNat]
    exact .pure _
  | typeText =>
    have hlen : Reads (Reader.word 4) (be 4 v.textVal.length) v.textVal.length :=
      Reads.word hshort
    exact (reads_readOr hlen).bind ((reads_readOr (Reads.bytes v.textVal)).bind_pure (.pure _))
  | typeBlob =>
    have hlen : Reads (Reader.word 4) (be 4 v.blobVal.length) v.blobVal.length :=
      Reads.word hshort
    exact (reads_readOr hlen).bind ((reads_readOr (Reads.bytes v.blobVal)).bind_pure (.pure _))

/-- A row as it comes back from its bytes. -/
def canonRow (vs : Row) (columns : List ColumnDef) : Row :=
  List.zipWith (fun v c => v.canon c.type) vs columns

/-- The row is parallel to the columns, and its strings are not too long. -/
def Storable : Row → List ColumnDef → Prop :=
  List.Forall₂ fun v c => v.isNull = false → v.ShortIn c.type

theorem storable_of_length (hlen : vs.length = columns.length)
    (h : (encodeFields vs columns).length < 2 ^ 32) : Storable vs columns := by
  induction vs generalizing columns with
  | nil =>
    cases columns with
    | nil => exact .nil
    | cons c columns => cases hlen
  | cons v vs ih =>
    cases columns with
    | nil => cases hlen
    | cons c columns =>
      rw [encodeFields, List.length_append] at h
      refine .cons (fun hnull => ?_) (ih (Nat.succ.inj hlen) (by omega))
      rw [hnull, if_neg (by decide)] at h
      exact Value.shortIn_of_length (by omega)

theorem reads_decodeFields (h : Storable vs columns)
    (hbits : ∀ k v, vs[k]? = some v → checkBit bitmap (i + k) = v.isNull) :
    Reads (decodeFields bitmap i columns) (encodeFields vs columns) (canonRow vs columns) := by
  induction h generalizing i with
  | nil => exact .pure _
  | @cons v c vs columns hv _ ih =>
    have hrest := ih (i := i + 1) fun k w hw => by
      rw [show i + 1 + k = i + (k + 1) by omega]
      exact hbits (k + 1) w hw
    have hbit : checkBit bitmap i = v.isNull := hbits 0 v rfl
    have hfirst : Reads (decodeColumn bitmap i c)
        (if v.isNull then [] else encodeValue v c.type) (v.canon c.type) := by
      rw [decodeColumn, hbit, Value.canon]
      split_ifs with hnull
      · exact .pure _
      · exact reads_decodeField (hv (Bool.eq_false_iff.mpr hnull))
    rw [decodeFields, encodeFields]
    exact hfirst.bind (hrest.bind_pure (.pure (v.canon c.type :: canonRow vs columns)))

theorem bitmap_fits (columns : List ColumnDef) : columns.length ≤ 8 * bitmapSize columns := by
  rw [bitmapSize]
  omega

theorem decodeRow_append {fields : Bytes} (h : bitmap.length = bitmapSize columns) :
    decodeRow (bitmap ++ fields) columns = (decodeFields bitmap 0 columns).run' fields := by
  rw [decodeRow, if_neg (by rw [List.length_append]; omega), ← h, List.take_left, List.drop_left]

theorem length_markNulls_replicate (columns : List ColumnDef) (vs : Row) :
    (markNulls (List.replicate (bitmapSize columns) 0) 0 vs).length = bitmapSize columns := by
  simp

/-- The fields of a row, behind its own bitmap. -/
theorem reads_encodeFields (h : Storable vs columns) :
    Reads (decodeFields (markNulls (List.replicate (bitmapSize columns) 0) 0 vs) 0 columns)
      (encodeFields vs columns) (canonRow vs columns) := by
  have hfits := bitmap_fits columns
  have hlen := h.length_eq
  refine reads_decodeFields h fun k v hv => ?_
  exact checkBit_markNulls_get (by rw [List.length_replicate]; omega)
    (fun j _ => checkBit_replicate _ j) hv

/-- A row comes back with every value in the field of its column's type. -/
theorem decodeRow_encodeRow (h : Storable vs columns) :
    decodeRow (encodeRow vs columns) columns = .ok (canonRow vs columns) := by
  have hrun := reads_encodeFields h []
  rw [List.append_nil] at hrun
  rw [encodeRow, decodeRow_append (length_markNulls_replicate columns vs), StateT.run'_eq, hrun]
  rfl

theorem canonRow_of_fits (h : List.Forall₂ (fun v c => v.Fits c.type) vs columns) :
    canonRow vs columns = vs := by
  induction h with
  | nil => rfl
  | cons hv _ ih => exact congrArg₂ List.cons (Value.canon_of_fits hv) ih

/-! ### What is read fits the columns -/

theorem run_bind_eq_ok {α β : Type} {x : StateT Bytes (Except RowErr) α}
    {f : α → StateT Bytes (Except RowErr) β} {r : β × Bytes} :
    (x >>= f).run data = .ok r ↔
      ∃ a rest, x.run data = .ok (a, rest) ∧ (f a).run rest = .ok r := by
  rw [StateT.run_bind]
  cases x.run data with
  | error e => simp [bind, Except.bind]
  | ok p =>
    obtain ⟨a, rest⟩ := p
    simp [bind, Except.bind]

theorem fits_of_decodeField {type : DataType} {rest : Bytes}
    (h : (decodeField type).run data = .ok (v, rest)) : v.Fits type := by
  cases type with
  | typeInt | typeFloat =>
    obtain ⟨n, rest', -, hv⟩ := run_bind_eq_ok.mp h
    cases hv
    exact .inr rfl
  | typeText | typeBlob =>
    obtain ⟨length, rest', -, hbytes⟩ := run_bind_eq_ok.mp h
    obtain ⟨bytes, rest'', -, hv⟩ := run_bind_eq_ok.mp hbytes
    cases hv
    exact .inr rfl

theorem fits_of_decodeColumn {c : ColumnDef} {rest : Bytes}
    (h : (decodeColumn bitmap i c).run data = .ok (v, rest)) : v.Fits c.type := by
  rw [decodeColumn] at h
  split_ifs at h
  · cases h
    cases c.type <;> exact .inl rfl
  · exact fits_of_decodeField h

theorem fits_of_decodeFields {rest : Bytes}
    (h : (decodeFields bitmap i columns).run data = .ok (row, rest)) :
    List.Forall₂ (fun v c => v.Fits c.type) row columns := by
  induction columns generalizing i data row rest with
  | nil =>
    cases h
    exact .nil
  | cons c columns ih =>
    obtain ⟨v, rest', hv, hvs⟩ := run_bind_eq_ok.mp h
    obtain ⟨vs, rest'', hrest, hrow⟩ := run_bind_eq_ok.mp hvs
    cases hrow
    exact .cons (fits_of_decodeColumn hv) (ih hrest)

theorem fits_of_decodeRow (h : decodeRow data columns = .ok row) :
    List.Forall₂ (fun v c => v.Fits c.type) row columns := by
  rw [decodeRow] at h
  split_ifs at h
  rw [StateT.run'_eq] at h
  cases hrun : (decodeFields (data.take (bitmapSize columns)) 0 columns).run
      (data.drop (bitmapSize columns)) with
  | error e =>
    rw [hrun] at h
    cases h
  | ok p =>
    rw [hrun] at h
    cases h
    exact fits_of_decodeFields hrun

theorem length_of_decodeRow (h : decodeRow data columns = .ok row) : row.length = columns.length :=
  (fits_of_decodeRow h).length_eq

/-! ### Rows that are cut off -/

theorem extends_readOr {α : Type} {e : RowErr} {r : Reader α}
    (h : ∀ bs a rest, r.run bs = some (a, rest) →
      ∀ more, r.run (bs ++ more) = some (a, rest ++ more)) : Extends (readOr e r) := by
  intro bs a rest hrun more
  change (match r.run bs with | none => Except.error e | some p => .ok p) = _ at hrun
  show (match r.run (bs ++ more) with | none => Except.error e | some p => .ok p) = _
  cases hr : r.run bs with
  | none =>
    rw [hr] at hrun
    cases hrun
  | some p =>
    rw [hr] at hrun
    cases hrun
    rw [h bs a rest hr more]

theorem extends_word (e : RowErr) (w : Nat) : Extends (readOr e (Reader.word w)) :=
  extends_readOr fun _ _ _ h => Reader.word_append h

theorem extends_bytes (e : RowErr) (n : Nat) : Extends (readOr e (Reader.bytes n)) :=
  extends_readOr fun _ _ _ h => Reader.bytes_append h

theorem extends_decodeField (type : DataType) : Extends (decodeField type) := by
  cases type with
  | typeInt | typeFloat => exact (extends_word _ 8).bind fun _ => .pure _
  | typeText | typeBlob =>
    exact (extends_word _ 4).bind fun n => (extends_bytes _ n).bind fun _ => .pure _

theorem extends_decodeFields (bitmap : Bytes) (i : Nat) (columns : List ColumnDef) :
    Extends (decodeFields bitmap i columns) := by
  induction columns generalizing i with
  | nil => exact .pure []
  | cons c columns ih =>
    have hfirst : Extends (decodeColumn bitmap i c) := by
      rw [decodeColumn]
      split_ifs
      · exact .pure _
      · exact extends_decodeField c.type
    exact hfirst.bind fun v => (ih (i + 1)).bind fun vs => .pure (v :: vs)

/-- A row is cut off in the bitmap or in the fields. -/
theorem decodeRow_cut (h : Storable vs columns) {cut more : Bytes}
    (hcut : cut ++ more = encodeRow vs columns) (hmore : more ≠ []) :
    ∃ e, decodeRow cut columns = .error e := by
  by_cases hshort : cut.length < bitmapSize columns
  · exact ⟨.tooShort, by rw [decodeRow, if_pos hshort]⟩
  · have hsize := length_markNulls_replicate columns vs
    obtain ⟨bitmap, fields, rfl, hbitmap⟩ : ∃ bitmap fields, cut = bitmap ++ fields ∧
        bitmap.length = bitmapSize columns :=
      ⟨cut.take (bitmapSize columns), cut.drop (bitmapSize columns),
        (List.take_append_drop ..).symm, by rw [List.length_take]; omega⟩
    rw [encodeRow, List.append_assoc] at hcut
    obtain ⟨rfl, hfields⟩ := List.append_inj hcut (hbitmap.trans hsize.symm)
    have hreads := reads_encodeFields h
    rw [← hfields] at hreads
    obtain ⟨e, hrun⟩ := hreads.cut (extends_decodeFields _ 0 columns) hmore
    refine ⟨e, ?_⟩
    rw [decodeRow_append hbitmap, StateT.run'_eq, hrun]
    rfl

/-- Rows come back from their bytes, and from no part of them. -/
theorem decodeRow_encodeRow_exact {values : Row} {columns : List ColumnDef}
    (hvalues : List.Forall₂ (fun v c => v.Fits c.type ∧ v.ShortIn c.type) values columns) :
    decodeRow (encodeRow values columns) columns = .ok values ∧
      ∀ cut, cut <+: encodeRow values columns → cut ≠ encodeRow values columns →
        ∃ e, decodeRow cut columns = .error e := by
  have hstorable : Storable values columns := hvalues.imp fun _ _ h _ => h.2
  refine ⟨?_, fun cut hprefix hne => ?_⟩
  · rw [decodeRow_encodeRow hstorable, canonRow_of_fits (hvalues.imp fun _ _ h => h.1)]
  · obtain ⟨more, hmore⟩ := hprefix
    refine decodeRow_cut hstorable hmore ?_
    rintro rfl
    exact hne (by rw [← hmore, List.append_nil])

/-- A text, a NULL and an integer. -/
theorem decodeRow_encodeRow_exact_sample :
    decodeRow (encodeRow [{ textVal := ascii "ab" }, .null, { intVal := 7 }]
        [{ name := ascii "t", type := .typeText }, { name := ascii "b", type := .typeBlob },
          { name := ascii "n", type := .typeInt }])
        [{ name := ascii "t", type := .typeText }, { name := ascii "b", type := .typeBlob },
          { name := ascii "n", type := .typeInt }] =
      .ok [{ textVal := ascii "ab" }, .null, { intVal := 7 }] := by
  refine (decodeRow_encodeRow_exact (.cons ⟨by decide, ?_⟩ (.cons ⟨by decide, ?_⟩
    (.cons ⟨by decide, ?_⟩ .nil)))).1
  · show (ascii "ab").length < 2 ^ 32
    decide
  · show ([] : Bytes).length < 2 ^ 32
    decide
  · trivial

end MySQLight.Sql
