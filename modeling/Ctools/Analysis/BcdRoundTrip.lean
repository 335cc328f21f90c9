import Ctools.Analysis.BcdLoop

/-!
# The BCD conversions undo each other

`bcd2asc` stores the characters of the bytes' digits and `asc2bcd` the bytes of
the characters' digits, so each way round comes down to the digits
(`packDigits_unpackDigits`, `unpackDigits_packDigits`), with letters made small
on the way back to characters.
-/

set_option autoImplicit false

namespace Ctools.Analysis

open Ctools.Library Ctools.Program Ctools.Interface

/-- **`asc2bcd` on up to 510 hexadecimal digits**, an even number of them,
stores the bytes of their values.
SOURCE: app_utils.c:16-55 -/
theorem asc2bcd_eq {fuel : ℕ} {asc : List Int8} {digits : List (BitVec 4)}
    (hdigits : asc.map hexValue = digits.map some) (hlen : asc.length ≤ 510)
    (hfuel : asc.length / 2 < fuel) :
    asc2bcd fuel asc (Int32.ofNat asc.length) = some (.ok (0, packDigits digits)) := by
  have hcount : digits.length = asc.length := by
    have h := congrArg List.length hdigits
    rw [List.length_map, List.length_map] at h
    exact h.symm
  have hhalf : (Int32.ofNat asc.length >>> 1).toInt = (asc.length / 2 : ℕ) := by
    rw [toInt_shiftRight_one, Int32.toInt_ofNat_of_lt (show asc.length < 2 ^ 31 by omega)]
    omega
  rw [asc2bcd_eq_ok_iff, hhalf]
  refine ⟨by omega, by omega, rfl, ?_, stores_packDigits 0 hdigits⟩
  rw [length_packDigits, hcount]
  omega

/-- Hexadecimal digits have values, and these have them as their characters,
with letters made small. -/
theorem exists_digits {asc : List Int8} (h : ∀ ch ∈ asc, IsHexDigit ch) :
    ∃ digits : List (BitVec 4), asc.map hexValue = digits.map some ∧
      digits.map hexChar = asc.map lowerCase := by
  induction asc with
  | nil => exact ⟨[], rfl, rfl⟩
  | cons ch asc ih =>
    rw [List.forall_mem_cons] at h
    obtain ⟨digits, hvalues, hchars⟩ := ih h.2
    obtain ⟨digit, hdigit⟩ := Option.isSome_iff_exists.mp h.1
    refine ⟨digit :: digits, ?_, ?_⟩
    · rw [List.map_cons, List.map_cons, hdigit, hvalues]
    · rw [List.map_cons, List.map_cons, hexChar_of_hexValue hdigit, hchars]

end Ctools.Analysis

open Ctools.Program Ctools.Interface in
/-- **The conversions undo each other.**  Up to 255 bytes, `asc2bcd` gives back
the bytes that `bcd2asc` made characters of; and an even number of up to 510
hexadecimal digits, in any mix of cases, comes back from the bytes that
`asc2bcd` made of them with its letters made small.  Every call returns.
SOURCE: app_utils.c:11-75 -/
theorem Ctools.Analysis.bcd_conversions_round_trip :
    (∀ bcd : List UInt8, bcd.length ≤ 255 → ∀ fuel, bcd.length < fuel →
      ∃ asc, bcd2asc fuel bcd (UInt32.ofNat bcd.length) = some (.ok asc) ∧
        asc.length = 2 * bcd.length ∧
        asc2bcd fuel asc (Int32.ofNat (2 * bcd.length)) = some (.ok (0, bcd))) ∧
    ∀ asc : List Int8, Even asc.length → asc.length ≤ 510 → (∀ ch ∈ asc, IsHexDigit ch) →
      ∀ fuel, asc.length / 2 < fuel →
      ∃ bcd, asc2bcd fuel asc (Int32.ofNat asc.length) = some (.ok (0, bcd)) ∧
        bcd.length = asc.length / 2 ∧
        bcd2asc fuel bcd (UInt32.ofNat (asc.length / 2)) = some (.ok (asc.map lowerCase)) := by
  constructor
  · intro bcd hbcd fuel hfuel
    have hlen : ((Ctools.Library.unpackDigits bcd).map hexChar).length = 2 * bcd.length := by
      rw [List.length_map, Ctools.Library.length_unpackDigits]
    have hvalues : ((Ctools.Library.unpackDigits bcd).map hexChar).map hexValue =
        (Ctools.Library.unpackDigits bcd).map some := by
      rw [List.map_map]
      exact List.map_congr_left fun digit _ => hexValue_hexChar digit
    refine ⟨_, Ctools.Analysis.bcd2asc_eq hbcd hfuel, hlen, ?_⟩
    have hback := Ctools.Analysis.asc2bcd_eq hvalues (by omega) (show _ < fuel by omega)
    rw [hlen, Ctools.Library.packDigits_unpackDigits] at hback
    exact hback
  · intro asc heven hasc hhex fuel hfuel
    obtain ⟨digits, hvalues, hchars⟩ := Ctools.Analysis.exists_digits hhex
    have hcount : digits.length = asc.length := by
      have h := congrArg List.length hvalues
      rw [List.length_map, List.length_map] at h
      exact h.symm
    have hlen : (Ctools.Library.packDigits digits).length = asc.length / 2 := by
      rw [Ctools.Library.length_packDigits, hcount]
    refine ⟨_, Ctools.Analysis.asc2bcd_eq hvalues hasc hfuel, hlen, ?_⟩
    have hback := Ctools.Analysis.bcd2asc_eq (hlen.le.trans (by omega)) (hlen.trans_lt hfuel)
    rw [hlen, Ctools.Library.unpackDigits_packDigits (hcount ▸ heven), hchars] at hback
    exact hback
