import Mathlib

/-!
# Bytes as pairs of hexadecimal digits

A digit is four bits, and two of them, the high one first, are a byte.
`packDigits` and `unpackDigits` go between the digits and the bytes; each undoes
the other, on an even number of digits.
-/

set_option autoImplicit false

namespace Ctools.Library

/-- The byte of two digits. -/
def packPair (high low : BitVec 4) : UInt8 :=
  UInt8.ofBitVec (high.setWidth 8 <<< 4 ||| low.setWidth 8)

/-- The high digit of a byte. -/
def highDigit (byte : UInt8) : BitVec 4 := (byte.toBitVec >>> 4).setWidth 4

/-- The low digit of a byte. -/
def lowDigit (byte : UInt8) : BitVec 4 := byte.toBitVec.setWidth 4

/-- The bytes of a list of digits; a last digit without a partner is left out. -/
def packDigits : List (BitVec 4) → List UInt8
  | high :: low :: digits => packPair high low :: packDigits digits
  | _ => []

/-- The digits of a list of bytes. -/
def unpackDigits : List UInt8 → List (BitVec 4)
  | [] => []
  | byte :: bytes => highDigit byte :: lowDigit byte :: unpackDigits bytes

/-- The high digit of a packed pair. -/
@[simp] theorem highDigit_packPair (high low : BitVec 4) :
    highDigit (packPair high low) = high := by
  apply BitVec.eq_of_getLsbD_eq
  intro i hi
  simp [highDigit, packPair, hi, show 4 + i < 8 by omega]

/-- The low digit of a packed pair. -/
@[simp] theorem lowDigit_packPair (high low : BitVec 4) : lowDigit (packPair high low) = low := by
  apply BitVec.eq_of_getLsbD_eq
  intro i hi
  simp [lowDigit, packPair, hi]

/-- A byte is its two digits. -/
@[simp] theorem packPair_digits (byte : UInt8) :
    packPair (highDigit byte) (lowDigit byte) = byte := by
  apply UInt8.toBitVec_inj.mp
  apply BitVec.eq_of_getLsbD_eq
  intro i hi
  by_cases hlow : i < 4
  · simp [packPair, highDigit, lowDigit, hlow, hi]
  · simp [packPair, highDigit, lowDigit, hlow, hi, show i - 4 < 4 by omega,
      show 4 + (i - 4) = i by omega]

/-- Each byte has two digits. -/
@[simp] theorem length_unpackDigits (bytes : List UInt8) :
    (unpackDigits bytes).length = 2 * bytes.length := by
  induction bytes with
  | nil => rfl
  | cons byte bytes ih =>
    simp only [unpackDigits, List.length_cons, ih]
    omega

/-- Two digits make a byte. -/
theorem length_packDigits (digits : List (BitVec 4)) :
    (packDigits digits).length = digits.length / 2 := by
  fun_induction packDigits digits with
  | case1 high low digits ih =>
    simp only [List.length_cons, ih]
    omega
  | case2 digits hshort =>
    match digits with
    | [] => rfl
    | [digit] => simp
    | high :: low :: rest => exact absurd rfl (hshort high low rest)

/-- The bytes' digits are the bytes' own. -/
theorem packDigits_unpackDigits (bytes : List UInt8) : packDigits (unpackDigits bytes) = bytes := by
  induction bytes with
  | nil => rfl
  | cons byte bytes ih => simp only [unpackDigits, packDigits, packPair_digits, ih]

/-- An even number of digits comes back from its bytes. -/
theorem unpackDigits_packDigits {digits : List (BitVec 4)} (heven : Even digits.length) :
    unpackDigits (packDigits digits) = digits := by
  fun_induction packDigits digits with
  | case1 high low digits ih =>
    have hrest : Even digits.length := by
      simpa [Nat.even_add_one] using heven
    simp only [unpackDigits, highDigit_packPair, lowDigit_packPair, ih hrest]
  | case2 digits hshort =>
    match digits with
    | [] => rfl
    | [_] => simp at heven
    | high :: low :: rest => exact absurd rfl (hshort high low rest)

end Ctools.Library
