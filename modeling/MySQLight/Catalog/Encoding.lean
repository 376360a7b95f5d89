import MySQLight.Catalog.Schema
import MySQLight.Data.Reader

/-!
How definitions are stored (`catalog/encoding.go`).

A definition is a byte for its kind, strings behind their lengths, columns
and foreign keys behind their numbers, and a root page. The decoder goes
through the bytes with an offset; here the offset is the bytes that are
left. A read beyond the end of the bytes is a run-time panic.

A byte the decoder does not know leaves the field at its first value.
-/

namespace MySQLight.Schema

open MySQLight.Data

def DataType.code : DataType → UInt8
  | .typeInt => 0
  | .typeFloat => 1
  | .typeText => 2
  | .typeBlob => 3

def DataType.decode (b : UInt8) : DataType :=
  if b = 1 then .typeFloat else if b = 2 then .typeText else if b = 3 then .typeBlob else .typeInt

def FKAction.code : FKAction → UInt8
  | .fkRestrict => 0
  | .fkCascade => 1
  | .fkSetNull => 2

def FKAction.decode (b : UInt8) : FKAction :=
  if b = 1 then .fkCascade else if b = 2 then .fkSetNull else .fkRestrict

/-- `GetBit`. -/
def getBit (b : UInt8) (position : UInt8) : Bool := (b >>> position) &&& 1 ≠ 0

/-! ### Writing -/

/-- A string behind its length. -/
def encodeString (s : Bytes) : Bytes := counted 4 s

/-- A default that is not NULL. -/
def encodeValue (v : Value) : DataType → Bytes
  | .typeInt => be 8 v.intVal.toUInt64.toNat
  | .typeFloat => be 8 v.floatVal.toNat
  | .typeText => encodeString v.textVal
  | .typeBlob => encodeString v.blobVal

def encodeDefault (type : DataType) : Option Value → Bytes
  | none => []
  | some v => if v.isNull then [1] else 0 :: encodeValue v type

def columnFlags (c : ColumnDef) : UInt8 :=
  (if c.primaryKey then 1 else 0) ||| (if c.notNull then 2 else 0) |||
    if c.default.isSome then 4 else 0

def encodeColumn (c : ColumnDef) : Bytes :=
  encodeString c.name ++ ([c.type.code] ++ ([columnFlags c] ++ encodeDefault c.type c.default))

def encodeForeignKey (fk : ForeignKeyDef) : Bytes :=
  encodeString fk.columnName ++ (encodeString fk.refTable ++ (encodeString fk.refColumn ++
    ([fk.onDelete.code] ++ [fk.onUpdate.code])))

def encodeTableDef (d : TableDef) : Bytes :=
  [1] ++ (encodeString d.name ++ (be 2 d.columns.length ++ (d.columns.flatMap encodeColumn ++
    (be 2 d.foreignKeys.length ++ (d.foreignKeys.flatMap encodeForeignKey ++
      be 4 d.rootPageID.toNat)))))

def encodeIndexDef (d : IndexDef) : Bytes :=
  [2] ++ (encodeString d.name ++ (encodeString d.tableName ++ (encodeString d.columnName ++
    ([if d.unique then 1 else 0] ++ be 4 d.rootPageID.toNat))))

/-! ### Reading -/

inductive DecodeErr
  | notTableDef
  | notIndexDef
  | panic
deriving DecidableEq, Repr

def readString : Reader Bytes := Reader.counted 4

def readValue : DataType → Reader Value
  | .typeInt => do return { intVal := (UInt64.ofNat (← Reader.word 8)).toInt64 }
  | .typeFloat => do return { floatVal := UInt64.ofNat (← Reader.word 8) }
  | .typeText => do return { textVal := ← readString }
  | .typeBlob => do return { blobVal := ← readString }

def readDefault (type : DataType) (hasDefault : Bool) : Reader (Option Value) := do
  if hasDefault then
    if (← Reader.byte) = 0 then return some (← readValue type)
    else return some .null
  else return none

def readColumn : Reader ColumnDef := do
  let name ← readString
  let type ← Reader.byte
  let flags ← Reader.byte
  let default ← readDefault (.decode type) (getBit flags 2)
  return ⟨name, .decode type, getBit flags 0, getBit flags 1, default⟩

def readForeignKey : Reader ForeignKeyDef := do
  let columnName ← readString
  let refTable ← readString
  let refColumn ← readString
  let onDelete ← Reader.byte
  let onUpdate ← Reader.byte
  return ⟨columnName, refTable, refColumn, .decode onDelete, .decode onUpdate⟩

/-- What follows the kind byte of a table. -/
def readTableDef : Reader TableDef := do
  let name ← readString
  let columns ← Reader.times readColumn (← Reader.word 2)
  let foreignKeys ← Reader.times readForeignKey (← Reader.word 2)
  let rootPageID ← Reader.word 4
  return ⟨name, columns, foreignKeys, UInt32.ofNat rootPageID⟩

/-- What follows the kind byte of an index. -/
def readIndexDef : Reader IndexDef := do
  let name ← readString
  let tableName ← readString
  let columnName ← readString
  let unique ← Reader.byte
  let rootPageID ← Reader.word 4
  return ⟨name, tableName, columnName, unique = 1, UInt32.ofNat rootPageID⟩

/-- Read a definition of the kind `kind`. -/
def decodeKind {α : Type} (kind : UInt8) (wrong : DecodeErr) (r : Reader α) (data : Bytes) :
    Except DecodeErr α :=
  match data with
  | [] => .error .panic
  | b :: rest =>
    if b ≠ kind then .error wrong
    else match r.run rest with
      | none => .error .panic
      | some (a, _) => .ok a

def decodeTableDef : Bytes → Except DecodeErr TableDef := decodeKind 1 .notTableDef readTableDef

def decodeIndexDef : Bytes → Except DecodeErr IndexDef := decodeKind 2 .notIndexDef readIndexDef

/-! ### Reading back what was written -/

theorem DataType.decode_code (type : DataType) : DataType.decode type.code = type := by
  cases type <;> rfl

theorem FKAction.decode_code (action : FKAction) : FKAction.decode action.code = action := by
  cases action <;> rfl

theorem getBit_columnFlags (c : ColumnDef) :
    getBit (columnFlags c) 0 = c.primaryKey ∧ getBit (columnFlags c) 1 = c.notNull ∧
      getBit (columnFlags c) 2 = c.default.isSome := by
  rw [columnFlags]
  cases c.primaryKey <;> cases c.notNull <;> cases c.default.isSome <;> decide

theorem reads_string {s : Bytes} (h : s.length < 2 ^ 32) : Reads readString (encodeString s) s :=
  Reads.counted (by rwa [show (256 : Nat) ^ 4 = 2 ^ 32 from rfl])

/-- The strings in a value that is stored are short enough for their length
to be stored as well. -/
def Value.Short (v : Value) : Prop := v.textVal.length < 2 ^ 32 ∧ v.blobVal.length < 2 ^ 32

variable {v : Value} {type : DataType} {d : TableDef} {α : Type}

theorem reads_value (hnull : v.isNull = false) (hfits : v.Fits type) (hshort : v.Short) :
    Reads (readValue type) (encodeValue v type) v := by
  cases type with
  | typeInt =>
    obtain rfl | heq := hfits
    · cases hnull
    · refine (Reads.word (UInt64.toNat_lt _)).bind_pure ?_
      rw [UInt64.ofNat_toNat, Int64.toInt64_toUInt64, ← heq]
      exact .pure v
  | typeFloat =>
    obtain rfl | heq := hfits
    · cases hnull
    · refine (Reads.word (UInt64.toNat_lt _)).bind_pure ?_
      rw [UInt64.ofNat_toNat, ← heq]
      exact .pure v
  | typeText =>
    obtain rfl | heq := hfits
    · cases hnull
    · refine (reads_string hshort.1).bind_pure ?_
      rw [← heq]
      exact .pure v
  | typeBlob =>
    obtain rfl | heq := hfits
    · cases hnull
    · refine (reads_string hshort.2).bind_pure ?_
      rw [← heq]
      exact .pure v

/-! ### Definitions that can be stored -/

/-- The default is absent, NULL, or set in the field of its type only. -/
structure ColumnDef.Encodable (c : ColumnDef) : Prop where
  name : c.name.length < 2 ^ 32
  fits : ∀ v ∈ c.default, v.Fits c.type
  short : ∀ v ∈ c.default, v.Short

structure ForeignKeyDef.Encodable (fk : ForeignKeyDef) : Prop where
  columnName : fk.columnName.length < 2 ^ 32
  refTable : fk.refTable.length < 2 ^ 32
  refColumn : fk.refColumn.length < 2 ^ 32

structure TableDef.Encodable (d : TableDef) : Prop where
  name : d.name.length < 2 ^ 32
  columns_length : d.columns.length < 65536
  columns : ∀ c ∈ d.columns, c.Encodable
  foreignKeys_length : d.foreignKeys.length < 65536
  foreignKeys : ∀ fk ∈ d.foreignKeys, fk.Encodable

structure IndexDef.Encodable (d : IndexDef) : Prop where
  name : d.name.length < 2 ^ 32
  tableName : d.tableName.length < 2 ^ 32
  columnName : d.columnName.length < 2 ^ 32

theorem Value.eq_null_of_fits (h : v.Fits type) (hnull : v.isNull = true) : v = null := by
  cases type with
  | typeInt | typeFloat | typeText | typeBlob =>
    obtain h | h := h
    · exact h
    · rw [h] at hnull
      cases hnull

theorem reads_default {default : Option Value} (hfits : ∀ v ∈ default, v.Fits type)
    (hshort : ∀ v ∈ default, v.Short) :
    Reads (readDefault type default.isSome) (encodeDefault type default) default := by
  cases default with
  | none => exact .pure none
  | some v =>
    have hv := hfits v rfl
    rw [encodeDefault, Option.isSome_some, readDefault, if_pos rfl]
    by_cases hnull : v.isNull = true
    · rw [if_pos hnull, v.eq_null_of_fits hv hnull]
      exact (Reads.byte 1).bind_pure (.pure _)
    · rw [if_neg hnull]
      refine (Reads.byte 0).bind ?_
      rw [if_pos rfl]
      have hvalue := reads_value (Bool.eq_false_iff.mpr hnull) hv (hshort v rfl)
      exact hvalue.bind_pure (.pure _)

theorem ColumnDef.Encodable.reads {c : ColumnDef} (h : c.Encodable) :
    Reads readColumn (encodeColumn c) c := by
  obtain ⟨hpk, hnotNull, hdefault⟩ := getBit_columnFlags c
  refine (reads_string h.name).bind ((Reads.byte _).bind ((Reads.byte _).bind ?_))
  rw [DataType.decode_code, hpk, hnotNull, hdefault]
  exact (reads_default h.fits h.short).bind_pure (.pure _)

theorem ForeignKeyDef.Encodable.reads {fk : ForeignKeyDef} (h : fk.Encodable) :
    Reads readForeignKey (encodeForeignKey fk) fk := by
  refine (reads_string h.columnName).bind ((reads_string h.refTable).bind
    ((reads_string h.refColumn).bind ((Reads.byte _).bind ((Reads.byte _).bind_pure ?_))))
  rw [FKAction.decode_code, FKAction.decode_code]
  exact .pure fk

theorem reads_rootPageID (id : UInt32) : Reads (Reader.word 4) (be 4 id.toNat) id.toNat :=
  Reads.word id.toNat_lt

theorem TableDef.Encodable.reads (h : d.Encodable) :
    Reads readTableDef (encodeTableDef d).tail d := by
  refine (reads_string h.name).bind ((Reads.word h.columns_length).bind
    ((Reads.times fun c hc => (h.columns c hc).reads).bind
    ((Reads.word h.foreignKeys_length).bind
    ((Reads.times fun fk hfk => (h.foreignKeys fk hfk).reads).bind
    ((reads_rootPageID d.rootPageID).bind_pure ?_)))))
  rw [UInt32.ofNat_toNat]
  exact .pure d

theorem IndexDef.Encodable.reads {d : IndexDef} (h : d.Encodable) :
    Reads readIndexDef (encodeIndexDef d).tail d := by
  refine (reads_string h.name).bind ((reads_string h.tableName).bind
    ((reads_string h.columnName).bind ((Reads.byte _).bind
    ((reads_rootPageID d.rootPageID).bind_pure ?_))))
  have hunique : decide ((if d.unique then (1 : UInt8) else 0) = 1) = d.unique := by
    cases d.unique <;> rfl
  rw [UInt32.ofNat_toNat, hunique]
  exact .pure d

theorem decodeKind_of_reads {kind : UInt8} {wrong : DecodeErr} {r : Reader α} {bs : Bytes} {a : α}
    (h : Reads r bs a) : decodeKind kind wrong r (kind :: bs) = .ok a := by
  rw [decodeKind, if_neg (not_not.mpr rfl), h.run]

theorem TableDef.Encodable.decode_encode (h : d.Encodable) :
    decodeTableDef (encodeTableDef d) = .ok d :=
  decodeKind_of_reads h.reads

theorem IndexDef.Encodable.decode_encode {d : IndexDef} (h : d.Encodable) :
    decodeIndexDef (encodeIndexDef d) = .ok d :=
  decodeKind_of_reads h.reads

/-! ### What fits into an entry can be stored -/

theorem length_le_flatMap {f : α → Bytes} {as : List α} {a : α} (h : a ∈ as) :
    (f a).length ≤ (as.flatMap f).length := by
  obtain ⟨before, after, rfl⟩ := List.append_of_mem h
  simp only [List.flatMap_append, List.flatMap_cons, List.length_append]
  omega

theorem length_le_length_flatMap {f : α → Bytes} (hf : ∀ a, 1 ≤ (f a).length) (as : List α) :
    as.length ≤ (as.flatMap f).length := by
  induction as with
  | nil => exact Nat.zero_le _
  | cons a as ih =>
    have ha := hf a
    simp only [List.flatMap_cons, List.length_append, List.length_cons]
    omega

theorem length_encodeString (s : Bytes) : (encodeString s).length = s.length + 4 := by
  rw [encodeString, counted, List.length_append, length_be]
  omega

/-- The length of what is stored of a value can be stored as well. -/
def Value.ShortIn (v : Value) : DataType → Prop
  | .typeText => v.textVal.length < 2 ^ 32
  | .typeBlob => v.blobVal.length < 2 ^ 32
  | _ => True

theorem Value.shortIn_of_length (h : (encodeValue v type).length < 2 ^ 32) : v.ShortIn type := by
  cases type with
  | typeInt | typeFloat => trivial
  | typeText | typeBlob =>
    rw [encodeValue, length_encodeString] at h
    exact Nat.lt_of_le_of_lt (Nat.le_add_right _ 4) h

theorem Value.Fits.short (h : v.Fits type) {n : Nat}
    (hlen : (encodeDefault type (some v)).length ≤ n) (hn : n < 2 ^ 32) : v.Short := by
  rw [encodeDefault] at hlen
  cases type with
  | typeInt | typeFloat =>
    obtain rfl | h := h
    · exact ⟨by decide, by decide⟩
    · rw [h]
      exact ⟨Nat.two_pow_pos 32, Nat.two_pow_pos 32⟩
  | typeText | typeBlob =>
    obtain rfl | h := h
    · exact ⟨by decide, by decide⟩
    · rw [h] at hlen ⊢
      simp only [Bool.false_eq_true, if_false, encodeValue, List.length_cons,
        length_encodeString] at hlen
      refine ⟨?_, ?_⟩
      all_goals simp only [List.length_nil]; omega

theorem ColumnDef.encodable_of_length {c : ColumnDef} (hfits : ∀ v ∈ c.default, v.Fits c.type)
    {n : Nat} (hlen : (encodeColumn c).length ≤ n) (hn : n < 2 ^ 32) : c.Encodable := by
  simp only [encodeColumn, List.length_append, length_encodeString] at hlen
  refine ⟨by omega, hfits, fun v hv => (hfits v hv).short (n := n) ?_ hn⟩
  rw [← Option.mem_def.mp hv]
  omega

theorem ForeignKeyDef.encodable_of_length {fk : ForeignKeyDef} {n : Nat}
    (hlen : (encodeForeignKey fk).length ≤ n) (hn : n < 2 ^ 32) : fk.Encodable := by
  simp only [encodeForeignKey, List.length_append, length_encodeString] at hlen
  exact ⟨by omega, by omega, by omega⟩

theorem TableDef.encodable_of_length (hfits : ∀ c ∈ d.columns, ∀ v ∈ c.default, v.Fits c.type)
    (hlen : (encodeTableDef d).length < 65536) : d.Encodable := by
  simp only [encodeTableDef, List.length_append, length_encodeString] at hlen
  have hcolumns := length_le_length_flatMap (f := encodeColumn)
    (fun c => by simp only [encodeColumn, List.length_append, length_encodeString]; omega) d.columns
  have hkeys := length_le_length_flatMap (f := encodeForeignKey)
    (fun fk => by simp only [encodeForeignKey, List.length_append, length_encodeString]; omega)
    d.foreignKeys
  refine ⟨by omega, by omega, fun c hc => ?_, by omega, fun fk hfk => ?_⟩
  · have hle := length_le_flatMap (f := encodeColumn) hc
    exact ColumnDef.encodable_of_length (hfits c hc) (n := 65536) (by omega) (by decide)
  · have hle := length_le_flatMap (f := encodeForeignKey) hfk
    exact ForeignKeyDef.encodable_of_length (n := 65536) (by omega) (by decide)

theorem IndexDef.encodable_of_length {d : IndexDef} (hlen : (encodeIndexDef d).length < 65536) :
    d.Encodable := by
  simp only [encodeIndexDef, List.length_append, length_encodeString] at hlen
  exact ⟨by omega, by omega, by omega⟩

/-! ### The round trip -/

/-- A definition is the one that its bytes stand for. -/
theorem definitions_round_trip :
    (∀ d : TableDef, d.Encodable → decodeTableDef (encodeTableDef d) = .ok d) ∧
      ∀ d : IndexDef, d.Encodable → decodeIndexDef (encodeIndexDef d) = .ok d :=
  ⟨fun _ h => h.decode_encode, fun _ h => h.decode_encode⟩

/-- `CREATE TABLE o (id INTEGER PRIMARY KEY, c TEXT NOT NULL DEFAULT 'x',
FOREIGN KEY (c) REFERENCES p (k) ON DELETE CASCADE)`. -/
def sampleTable : TableDef :=
  { name := [111],
    columns := [⟨[105, 100], .typeInt, true, false, none⟩,
      ⟨[99], .typeText, false, true, some { textVal := [120] }⟩],
    foreignKeys := [⟨[99], [112], [107], .fkCascade, .fkRestrict⟩],
    rootPageID := 7 }

theorem sampleTable_encodable : sampleTable.Encodable := by
  refine ⟨by decide, by decide, ?_, by decide, ?_⟩
  · refine List.forall_mem_cons.mpr ⟨⟨by decide, by decide, nofun⟩,
      List.forall_mem_singleton.mpr ⟨by decide, by decide, ?_⟩⟩
    rintro _ ⟨⟩
    exact ⟨by decide, by decide⟩
  · exact List.forall_mem_singleton.mpr ⟨by decide, by decide, by decide⟩

/-- `CREATE UNIQUE INDEX i ON o (c)`. -/
def sampleIndex : IndexDef := ⟨[105], [111], [99], true, 8⟩

theorem definitions_round_trip_sample :
    decodeTableDef (encodeTableDef sampleTable) = .ok sampleTable ∧
      decodeIndexDef (encodeIndexDef sampleIndex) = .ok sampleIndex :=
  ⟨definitions_round_trip.1 _ sampleTable_encodable,
    definitions_round_trip.2 _ ⟨by decide, by decide, by decide⟩⟩

end MySQLight.Schema
