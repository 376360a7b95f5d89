import MySQLight.Data.Bytes

/-!
Texts and their bytes.

A program gets a text as bytes and works on its characters. Bytes that do
not begin a character in UTF-8 count one by one as the replacement
character, so every byte string can be read; reading back what was written
gives the same characters.
-/

namespace MySQLight.Data

/-- The bytes of characters in UTF-8. -/
def utf8 (cs : List Char) : Bytes := cs.flatMap String.utf8EncodeChar

/-- The first character of some bytes. -/
def decodeChar (bs : Bytes) : Option Char := bs.toByteArray.utf8DecodeChar? 0

/-- The characters of bytes; the first `skip` bytes belong to a character
that has been read before. -/
def runesFrom : (skip : Nat) → Bytes → List Char
  | _, [] => []
  | skip + 1, _ :: bs => runesFrom skip bs
  | 0, b :: bs =>
    match decodeChar (b :: bs) with
    | some c => c :: runesFrom (c.utf8Size - 1) bs
    | none => '�' :: runesFrom 0 bs

def runes (bs : Bytes) : List Char := runesFrom 0 bs

theorem runesFrom_append (as bs : Bytes) : runesFrom as.length (as ++ bs) = runes bs := by
  induction as with
  | nil => rfl
  | cons a as ih => exact ih

theorem decodeChar_append (c : Char) (bs : Bytes) :
    decodeChar (String.utf8EncodeChar c ++ bs) = some c := by
  rw [decodeChar, List.toByteArray_append]
  exact ByteArray.utf8DecodeChar?_utf8EncodeChar_append

theorem runes_append (c : Char) (bs : Bytes) :
    runes (String.utf8EncodeChar c ++ bs) = c :: runes bs := by
  have hdecode := decodeChar_append c bs
  have hlength := String.length_utf8EncodeChar c
  have hpos := c.utf8Size_pos
  cases hc : String.utf8EncodeChar c with
  | nil =>
    rw [hc] at hlength
    simp at hlength
    omega
  | cons a as =>
    rw [hc, List.cons_append] at hdecode
    rw [hc, List.length_cons] at hlength
    rw [runes, List.cons_append, runesFrom, hdecode]
    show c :: runesFrom (c.utf8Size - 1) (as ++ bs) = c :: runes bs
    rw [← hlength]
    exact congrArg (c :: ·) (runesFrom_append as bs)

/-- What has been written as characters is read as these characters. -/
theorem runes_utf8 (cs : List Char) : runes (utf8 cs) = cs := by
  induction cs with
  | nil => rfl
  | cons c cs ih =>
    rw [utf8, List.flatMap_cons, runes_append]
    exact congrArg (c :: ·) ih

theorem length_runesFrom_le (skip : Nat) (bs : Bytes) : (runesFrom skip bs).length ≤ bs.length := by
  induction bs generalizing skip with
  | nil => exact Nat.le_refl 0
  | cons b bs ih =>
    cases skip with
    | succ skip => exact (ih skip).trans (Nat.le_succ _)
    | zero =>
      rw [runesFrom]
      split <;> exact Nat.succ_le_succ (ih _)

end MySQLight.Data
