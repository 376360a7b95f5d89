import MySQLight.Data.Bytes

/-!
Tables, columns and values (`catalog/schema.go`, `catalog/catalog.go`).

A string of the source is a byte string; a `FLOAT` is the 64 bits of its
representation.
-/

namespace MySQLight.Schema

open MySQLight.Data

inductive DataType
  | typeInt
  | typeFloat
  | typeText
  | typeBlob
deriving DecidableEq, Repr

/-- One cell; the field that counts is the one of the column's type. -/
structure Value where
  isNull : Bool := false
  intVal : Int64 := 0
  floatVal : UInt64 := 0
  textVal : Bytes := []
  blobVal : Bytes := []
deriving DecidableEq

structure ColumnDef where
  name : Bytes
  type : DataType
  primaryKey : Bool := false
  notNull : Bool := false
  default : Option Value := none
deriving DecidableEq

inductive FKAction
  | fkRestrict
  | fkCascade
  | fkSetNull
deriving DecidableEq, Repr

structure ForeignKeyDef where
  columnName : Bytes
  refTable : Bytes
  refColumn : Bytes
  onDelete : FKAction
  onUpdate : FKAction
deriving DecidableEq

structure TableDef where
  name : Bytes
  columns : List ColumnDef
  foreignKeys : List ForeignKeyDef
  rootPageID : UInt32 := 0
deriving DecidableEq

structure IndexDef where
  name : Bytes
  tableName : Bytes
  columnName : Bytes
  unique : Bool
  rootPageID : UInt32 := 0
deriving DecidableEq

namespace Value

def null : Value := { isNull := true }

/-- The value is NULL, or it is set in the field of the type and in no
other. -/
def Fits (v : Value) : DataType → Prop
  | .typeInt => v = null ∨ v = { intVal := v.intVal }
  | .typeFloat => v = null ∨ v = { floatVal := v.floatVal }
  | .typeText => v = null ∨ v = { textVal := v.textVal }
  | .typeBlob => v = null ∨ v = { blobVal := v.blobVal }

instance (v : Value) : (type : DataType) → Decidable (v.Fits type)
  | .typeInt => inferInstanceAs (Decidable (_ ∨ _))
  | .typeFloat => inferInstanceAs (Decidable (_ ∨ _))
  | .typeText => inferInstanceAs (Decidable (_ ∨ _))
  | .typeBlob => inferInstanceAs (Decidable (_ ∨ _))

/-- The field of a type alone. -/
def field (v : Value) : DataType → Value
  | .typeInt => { intVal := v.intVal }
  | .typeFloat => { floatVal := v.floatVal }
  | .typeText => { textVal := v.textVal }
  | .typeBlob => { blobVal := v.blobVal }

/-- What is left of a value in a column of a type. -/
def canon (v : Value) (type : DataType) : Value := if v.isNull then null else v.field type

theorem canon_of_fits {v : Value} {type : DataType} (h : v.Fits type) : v.canon type = v := by
  cases type with
  | typeInt | typeFloat | typeText | typeBlob =>
    obtain rfl | h := h
    · rfl
    · rw [h]
      rfl

@[simp] theorem isNull_field (v : Value) (type : DataType) : (v.field type).isNull = false := by
  cases type <;> rfl

@[simp] theorem isNull_canon (v : Value) (type : DataType) : (v.canon type).isNull = v.isNull := by
  rw [canon]
  split_ifs with h
  · exact h.symm
  · rw [isNull_field, Bool.eq_false_iff.mpr h]

end Value

end MySQLight.Schema
