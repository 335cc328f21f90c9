import Ctools.Library.HexDigits
import Ctools.Program.AppUtils

/-!
# What the BCD conversions are for

`hexChar` and `hexValue` are the hexadecimal digits as characters.  `Stores`
says what `asc2bcd` stores for which characters: each byte comes from its two
characters and from the byte before it, which a character of no class lets
through.
-/

set_option autoImplicit false

namespace Ctools.Interface

open Ctools.Library Ctools.Program

/-- The character of a digit, with small letters. -/
def hexChar (digit : BitVec 4) : Int8 :=
  Int8.ofNat (if digit.toNat < 10 then 0x30 + digit.toNat else 0x57 + digit.toNat)

/-- The digit of a character, a letter in either case. -/
def hexValue (ch : Int8) : Option (BitVec 4) :=
  if 0x30 ≤ ch ∧ ch ≤ 0x39 then some (BitVec.ofInt 4 (ch.toInt - 0x30))
  else if 0x41 ≤ ch ∧ ch ≤ 0x46 then some (BitVec.ofInt 4 (ch.toInt - 0x37))
  else if 0x61 ≤ ch ∧ ch ≤ 0x66 then some (BitVec.ofInt 4 (ch.toInt - 0x57))
  else none

/-- A hexadecimal digit, in either case. -/
def IsHexDigit (ch : Int8) : Prop := (hexValue ch).isSome

instance (ch : Int8) : Decidable (IsHexDigit ch) := inferInstanceAs (Decidable (_ = true))

/-- A capital letter made small, in the C locale. -/
def lowerCase (ch : Int8) : Int8 := if isupper ch then ch + 0x20 else ch

/-- A letter, if it is one, that its table has an entry for: up to `'F'` or `'f'`. -/
def Tabled (ch : Int8) : Prop := (isupper ch → ch ≤ 0x46) ∧ (islower ch → ch ≤ 0x66)

instance (ch : Int8) : Decidable (Tabled ch) := inferInstanceAs (Decidable (_ ∧ _))

/-- A character of one of the three classes. -/
def Classed (ch : Int8) : Prop := isupper ch ∨ isdigit ch ∨ islower ch

instance (ch : Int8) : Decidable (Classed ch) := inferInstanceAs (Decidable (_ ∨ _))

/-- The byte that two characters give, `c` being what the byte before left.
SOURCE: app_utils.c:26-48 -/
def pairByte (c : UInt8) (first second : Int8) : Except Fault UInt8 := do
  let digit ← asc2bcdDigit first
  let c := (digit.map fun v : UInt8 => v <<< 4).getD c
  let digit ← asc2bcdDigit second
  pure ((digit.map fun v : UInt8 => c ||| v).getD c)

/-- From `asc` on, with `c` left by the byte before, the bytes `bcd` are stored. -/
inductive Stores : UInt8 → List Int8 → List UInt8 → Prop
  | nil {c : UInt8} {asc : List Int8} : Stores c asc []
  | cons {c byte : UInt8} {first second : Int8} {asc : List Int8} {bcd : List UInt8}
      (pair : pairByte c first second = .ok byte) (rest : Stores byte asc bcd) :
      Stores c (first :: second :: asc) (byte :: bcd)

/-- What holds of all 256 characters. -/
theorem forall_int8 {p : Int8 → Prop} (h : ∀ i : Fin 256, p (Int8.ofNat i.val)) (ch : Int8) :
    p ch := by
  have hch : Int8.ofNat ch.toBitVec.toNat = ch := by
    apply Int8.toBitVec_inj.mp
    simp
  rw [← hch]
  exact h ⟨ch.toBitVec.toNat, ch.toBitVec.isLt⟩

/-- A digit is the value of its character. -/
@[simp] theorem hexValue_hexChar (digit : BitVec 4) : hexValue (hexChar digit) = some digit := by
  revert digit
  decide

/-- A hexadecimal digit is the character of its value, with its letter made small. -/
theorem hexChar_of_hexValue {ch : Int8} {digit : BitVec 4} (h : hexValue ch = some digit) :
    hexChar digit = lowerCase ch := by
  have hall : ∀ ch : Int8, ∀ digit ∈ hexValue ch, hexChar digit = lowerCase ch := by
    apply forall_int8
    decide +kernel
  exact hall ch digit h

/-- **The dispatch** finds the value of a hexadecimal digit. -/
theorem asc2bcdDigit_of_hexValue {ch : Int8} {digit : BitVec 4} (h : hexValue ch = some digit) :
    asc2bcdDigit ch = .ok (some (UInt8.ofBitVec (digit.setWidth 8))) := by
  have hall : ∀ ch : Int8, ∀ digit ∈ hexValue ch,
      asc2bcdDigit ch = .ok (some (UInt8.ofBitVec (digit.setWidth 8))) := by
    apply forall_int8
    decide +kernel
  exact hall ch digit h

/-- The dispatch fails on a letter beyond its table, and only there. -/
theorem asc2bcdDigit_eq_error_iff (ch : Int8) (fault : Fault) :
    asc2bcdDigit ch = .error fault ↔ ¬ Tabled ch ∧ fault = .table := by
  revert ch
  apply forall_int8
  cases fault <;> decide +kernel

/-- Where the dispatch does not fail, the character's table has an entry for it. -/
theorem tabled_of_asc2bcdDigit {ch : Int8} {digit : Option UInt8}
    (h : asc2bcdDigit ch = .ok digit) : Tabled ch := by
  by_contra hnot
  rw [(asc2bcdDigit_eq_error_iff ch .table).mpr ⟨hnot, rfl⟩] at h
  cases h

/-- The dispatch gives nothing for a character of no class, and only there. -/
theorem asc2bcdDigit_eq_none_iff (ch : Int8) : asc2bcdDigit ch = .ok none ↔ ¬ Classed ch := by
  revert ch
  apply forall_int8
  decide +kernel

/-! ## One byte -/

/-- A first character of no class lets `c` through. -/
theorem pairByte_of_not_classed {c : UInt8} {first second : Int8} (h : ¬ Classed first) :
    pairByte c first second =
      (asc2bcdDigit second).map fun digit => (digit.map fun v : UInt8 => c ||| v).getD c := by
  unfold pairByte
  rw [(asc2bcdDigit_eq_none_iff first).mpr h]
  rfl

/-- A first character of a class leaves nothing of `c`. -/
theorem pairByte_of_classed (c c' : UInt8) {first second : Int8} (h : Classed first) :
    pairByte c first second = pairByte c' first second := by
  unfold pairByte
  cases hdigit : asc2bcdDigit first with
  | error fault => rfl
  | ok digit =>
    cases digit with
    | none => exact absurd h ((asc2bcdDigit_eq_none_iff first).mp hdigit)
    | some v => rfl

/-- Two characters fail to give a byte exactly when one of them has no entry in
its table. -/
theorem pairByte_eq_error_iff (c : UInt8) (first second : Int8) (fault : Fault) :
    pairByte c first second = .error fault ↔ fault = .table ∧ ¬ (Tabled first ∧ Tabled second) := by
  unfold pairByte
  cases hdigit : asc2bcdDigit first with
  | error e =>
    obtain ⟨hnot, rfl⟩ := (asc2bcdDigit_eq_error_iff first e).mp hdigit
    constructor
    · intro h
      cases h
      exact ⟨rfl, fun hboth => hnot hboth.1⟩
    · intro ⟨hfault, _⟩
      rw [hfault]
      rfl
  | ok digit =>
    cases hdigit' : asc2bcdDigit second with
    | error e =>
      obtain ⟨hnot, rfl⟩ := (asc2bcdDigit_eq_error_iff second e).mp hdigit'
      constructor
      · intro h
        cases h
        exact ⟨rfl, fun hboth => hnot hboth.2⟩
      · intro ⟨hfault, _⟩
        rw [hfault]
        rfl
    | ok digit' =>
      constructor
      · intro h
        cases h
      · intro ⟨_, hnot⟩
        exact absurd ⟨tabled_of_asc2bcdDigit hdigit, tabled_of_asc2bcdDigit hdigit'⟩ hnot

/-- Two characters that their tables have entries for give a byte. -/
theorem exists_pairByte (c : UInt8) {first second : Int8} (hfirst : Tabled first)
    (hsecond : Tabled second) : ∃ byte, pairByte c first second = .ok byte := by
  cases hpair : pairByte c first second with
  | error fault =>
    exact absurd ⟨hfirst, hsecond⟩ ((pairByte_eq_error_iff c first second fault).mp hpair).2
  | ok byte => exact ⟨byte, rfl⟩

/-- Characters that give a byte have entries in their tables. -/
theorem tabled_of_pairByte {c byte : UInt8} {first second : Int8}
    (h : pairByte c first second = .ok byte) : Tabled first ∧ Tabled second := by
  by_contra hnot
  rw [(pairByte_eq_error_iff c first second .table).mpr ⟨rfl, hnot⟩] at h
  cases h

/-- The characters of two hexadecimal digits give their byte. -/
theorem pairByte_of_hexValue (c : UInt8) {first second : Int8} {high low : BitVec 4}
    (hfirst : hexValue first = some high) (hsecond : hexValue second = some low) :
    pairByte c first second = .ok (packPair high low) := by
  unfold pairByte
  rw [asc2bcdDigit_of_hexValue hfirst, asc2bcdDigit_of_hexValue hsecond]
  rfl

/-! ## All bytes -/

/-- Characters store something exactly when their tables have entries for them. -/
theorem exists_stores_iff {n : ℕ} {asc : List Int8} (hlen : 2 * n ≤ asc.length) (c : UInt8) :
    (∃ bcd, Stores c asc bcd ∧ bcd.length = n) ↔ ∀ ch ∈ asc.take (2 * n), Tabled ch := by
  induction n generalizing asc c with
  | zero => exact ⟨fun _ => by simp, fun _ => ⟨[], .nil, rfl⟩⟩
  | succ n ih =>
    match asc with
    | [] => simp at hlen
    | [first] =>
      simp only [List.length_singleton] at hlen
      omega
    | first :: second :: asc =>
      rw [show 2 * (n + 1) = 2 * n + 1 + 1 by omega, List.take_succ_cons, List.take_succ_cons,
        List.forall_mem_cons, List.forall_mem_cons]
      have hrest : 2 * n ≤ asc.length := by
        simp only [List.length_cons] at hlen
        omega
      constructor
      · rintro ⟨bcd, hstores, hcount⟩
        cases hstores with
        | nil => cases hcount
        | @cons _ byte _ _ _ bcd pair rest =>
          obtain ⟨hfirst, hsecond⟩ := tabled_of_pairByte pair
          exact ⟨hfirst, hsecond, (ih hrest byte).mp ⟨bcd, rest, Nat.succ.inj hcount⟩⟩
      · intro ⟨hfirst, hsecond, hall⟩
        obtain ⟨byte, hpair⟩ := exists_pairByte c hfirst hsecond
        obtain ⟨bcd, hstores, hcount⟩ := (ih hrest byte).mpr hall
        exact ⟨byte :: bcd, .cons hpair hstores, congrArg Nat.succ hcount⟩

/-- **Each byte** comes from its own two characters and from the byte before
it, the first one from `c`. -/
theorem Stores.byte_eq {c : UInt8} {asc : List Int8} {bcd : List UInt8} (h : Stores c asc bcd)
    {i : ℕ} {byte : UInt8} (hbyte : bcd[i]? = some byte) :
    ∃ before first second, (c :: bcd)[i]? = some before ∧ asc[2 * i]? = some first ∧
      asc[2 * i + 1]? = some second ∧ pairByte before first second = .ok byte := by
  induction h generalizing i with
  | nil => simp at hbyte
  | @cons c b first second asc bcd pair _ ih =>
    cases i with
    | zero =>
      cases hbyte
      exact ⟨c, first, second, rfl, rfl, rfl, pair⟩
    | succ i =>
      obtain ⟨before, first', second', hbefore, hfirst, hsecond, hpair⟩ := ih hbyte
      refine ⟨before, first', second', hbefore, ?_, ?_, hpair⟩
      · rw [show 2 * (i + 1) = 2 * i + 1 + 1 by omega]
        exact hfirst
      · rw [show 2 * (i + 1) + 1 = 2 * i + 1 + 1 + 1 by omega]
        exact hsecond

/-- Hexadecimal digits store the bytes of their values. -/
theorem stores_packDigits (c : UInt8) {asc : List Int8} {digits : List (BitVec 4)}
    (h : asc.map hexValue = digits.map some) : Stores c asc (packDigits digits) := by
  fun_induction packDigits digits generalizing c asc with
  | case1 high low digits ih =>
    obtain ⟨first, rest, rfl, hfirst, hrest⟩ := List.map_eq_cons_iff.mp h
    obtain ⟨second, asc, rfl, hsecond, hasc⟩ := List.map_eq_cons_iff.mp hrest
    exact .cons (pairByte_of_hexValue c hfirst hsecond) (ih _ hasc)
  | case2 => exact .nil

end Ctools.Interface
