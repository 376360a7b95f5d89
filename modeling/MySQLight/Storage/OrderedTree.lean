import MySQLight.Data.OrderedMap
import MySQLight.Storage.BTree

/-!
A tree as the layers above it see it: an ordered map from byte strings to
byte strings whose entries are not larger than `entryCap`.

The calls have the errors of `Insert` and `Delete` that are about the
entries, in the order in which the source looks for them; a call that
fails changes nothing.
-/

namespace MySQLight.Storage

open MySQLight.Data

/-- The bindings of a tree. -/
structure OrderedTree where
  map : OrderedMap Bytes Bytes
  fits : ∀ key value, map.lookup key = some value → BTree.entrySize key value ≤ entryCap

namespace OrderedTree

variable {t t' : OrderedTree} {key key' value : Bytes} {e : Err}

def empty : OrderedTree := ⟨.empty, nofun⟩

def lookup (t : OrderedTree) (key : Bytes) : Option Bytes := t.map.lookup key

/-- The entries in key order, as `Scan(nil, nil)` yields them. -/
def entries (t : OrderedTree) : List (Bytes × Bytes) := t.map.entries

/-- The map with one more binding. -/
def bind (t : OrderedTree) (key value : Bytes) (h : BTree.entrySize key value ≤ entryCap) :
    OrderedTree where
  map := t.map.insert key value
  fits := by
    intro key' value' hlookup
    rw [OrderedMap.lookup_insert] at hlookup
    split_ifs at hlookup with hkey
    · cases hlookup
      rwa [hkey]
    · exact t.fits key' value' hlookup

/-- The map without the binding of a key. -/
def unbind (t : OrderedTree) (key : Bytes) : OrderedTree where
  map := t.map.erase key
  fits := by
    intro key' value' hlookup
    rw [OrderedMap.lookup_erase] at hlookup
    split_ifs at hlookup with hkey
    exact t.fits key' value' hlookup

/-- `Insert`. -/
def insert (t : OrderedTree) (key value : Bytes) : Except Err OrderedTree :=
  if h : BTree.entrySize key value ≤ entryCap then
    if (t.lookup key).isSome then .error .duplicateKey else .ok (t.bind key value h)
  else .error .entryTooLarge

/-- `Delete`. -/
def delete (t : OrderedTree) (key : Bytes) : Except Err OrderedTree :=
  if (t.lookup key).isSome then .ok (t.unbind key) else .error .notFound

@[simp] theorem lookup_empty (key : Bytes) : empty.lookup key = none := rfl

theorem lookup_bind (t : OrderedTree) (h : BTree.entrySize key value ≤ entryCap) :
    (t.bind key value h).lookup key' = if key' = key then some value else t.lookup key' := by
  refine (t.map.lookup_insert key key' value).trans ?_
  congr

theorem lookup_unbind (t : OrderedTree) (key key' : Bytes) :
    (t.unbind key).lookup key' = if key' = key then none else t.lookup key' := by
  refine (t.map.lookup_erase key key').trans ?_
  congr

theorem mem_entries : (key, value) ∈ t.entries ↔ t.lookup key = some value :=
  OrderedMap.mem_entries

theorem insert_eq_ok : t.insert key value = .ok t' ↔
    ∃ h : BTree.entrySize key value ≤ entryCap, t.lookup key = none ∧ t' = t.bind key value h := by
  rw [insert]
  split_ifs with hsize hbound
  · refine iff_of_false nofun ?_
    rintro ⟨-, hnone, -⟩
    rw [hnone] at hbound
    cases hbound
  · have hnone : t.lookup key = none := by simpa using hbound
    simp [hsize, hnone, eq_comm]
  · simp [hsize]

theorem delete_eq_ok :
    t.delete key = .ok t' ↔ (∃ value, t.lookup key = some value) ∧ t' = t.unbind key := by
  rw [delete]
  split_ifs with hbound
  · refine ⟨fun h => ⟨Option.isSome_iff_exists.mp hbound, ?_⟩, fun h => by rw [h.2]⟩
    cases h
    rfl
  · have hnone : t.lookup key = none := by simpa using hbound
    simp [hnone]

end OrderedTree

end MySQLight.Storage
