import Ctools.Program.AppType

/-!
# What the `BITS_SET` macro changes

Inside the field the bits become those of the value, outside they stay, up to
bit 31 (`getLsbD_bitsSet`).  The complement of the mask is an `unsigned int`: as
the operand of a 64-bit `&` its bits from 32 on are zero, and so are those of
the operand afterwards.
-/

set_option autoImplicit false

namespace Ctools.Analysis

open Ctools.Program

/-- A field of an operand of `w` bits that the macros are made for: the shifts
are by less than 32, and it ends within the operand and within its first 32 bits. -/
structure IsField (w start len : ℕ) : Prop where
  pos : 1 ≤ len
  short : len < 32
  inside : start + len ≤ min 32 w

variable {w : ℕ}

/-- The mask has its `n` low bits set.
SOURCE: app_type.h:108-110 -/
theorem getLsbD_bitsMask (n : ℕ) {i : ℕ} (hi : i < 32) :
    (bitsMask n).getLsbD i = decide (i < n) := by
  rw [bitsMask, BitVec.getLsbD_not, BitVec.getLsbD_shiftLeft, BitVec.getLsbD_not,
    BitVec.getLsbD_zero, decide_eq_true hi, decide_eq_true (show i - n < 32 by omega)]
  simp

/-- In the type of the expression an operand keeps its bits, and those above are zero. -/
theorem getLsbD_promote {v : ℕ} (value : BitVec v) {i : ℕ} (hi : i < w) :
    (promote w value).getLsbD i = value.getLsbD i := by
  rw [promote, BitVec.getLsbD_setWidth, decide_eq_true (show i < max 32 w by omega), Bool.true_and]

/-- **The bits after `BITS_SET`.**
SOURCE: app_type.h:118-122 -/
theorem getLsbD_bitsSet (data : BitVec w) {start len : ℕ} (value : BitVec 32)
    (hfield : start + len ≤ min 32 w) {i : ℕ} (hi : i < w) :
    (bitsSet data start len value).getLsbD i =
      if start ≤ i ∧ i < start + len then value.getLsbD (i - start)
      else decide (i < 32) && data.getLsbD i := by
  rw [bitsSet, BitVec.getLsbD_setWidth, decide_eq_true hi, Bool.true_and, BitVec.getLsbD_or,
    BitVec.getLsbD_and, getLsbD_promote data hi, getLsbD_promote _ hi, getLsbD_promote _ hi, sbf,
    sbf, BitVec.getLsbD_not, BitVec.getLsbD_shiftLeft, BitVec.getLsbD_shiftLeft,
    BitVec.getLsbD_and]
  by_cases hword : i < 32
  · rw [getLsbD_bitsMask len (show i - start < 32 by omega)]
    by_cases hstart : start ≤ i
    · by_cases hend : i < start + len
      · simp [hword, hstart, hend, show ¬ i < start by omega, show i - start < len by omega]
      · simp [hword, hstart, hend, show ¬ i < start by omega, show ¬ i - start < len by omega]
    · simp [hword, hstart, show i < start by omega]
  · rw [if_neg (by omega)]
    simp [hword]

/-- **`BITS_GET` after `BITS_SET`** gives the value's low bits.
SOURCE: app_type.h:113-122 -/
theorem bitsGet_bitsSet (data : BitVec w) {start len : ℕ} (value : BitVec 32)
    (hfield : start + len ≤ min 32 w) :
    (bitsGet (bitsSet data start len value) start len).toNat = value.toNat % 2 ^ len := by
  apply Nat.eq_of_testBit_eq
  intro i
  rw [Nat.testBit_mod_two_pow, BitVec.testBit_toNat, BitVec.testBit_toNat, bitsGet,
    BitVec.getLsbD_and, BitVec.getLsbD_ushiftRight]
  by_cases hi : i < len
  · rw [getLsbD_promote _ (show start + i < w by omega), getLsbD_promote _ (show i < w by omega),
      getLsbD_bitsMask len (show i < 32 by omega),
      getLsbD_bitsSet data value hfield (show start + i < w by omega), if_pos (by omega),
      Nat.add_sub_cancel_left, Bool.and_comm]
  · have hmask : (promote w (bitsMask len)).getLsbD i = false := by
      rw [promote, BitVec.getLsbD_setWidth]
      by_cases hword : i < 32
      · rw [getLsbD_bitsMask len hword, decide_eq_false hi, Bool.and_false]
      · rw [BitVec.getLsbD_of_ge _ _ (not_lt.mp hword), Bool.and_false]
    rw [hmask, decide_eq_false hi, Bool.and_false, Bool.false_and]

/-- Outside the field `BITS_SET` keeps every bit exactly if the operand has none
set from 32 on.
SOURCE: app_type.h:118-122 -/
theorem bitsSet_keeps_iff (data : BitVec w) {start len : ℕ} (value : BitVec 32)
    (hfield : start + len ≤ min 32 w) :
    (∀ i < w, ¬ (start ≤ i ∧ i < start + len) →
        (bitsSet data start len value).getLsbD i = data.getLsbD i) ↔ data.toNat < 2 ^ 32 := by
  constructor
  · intro hkeeps
    apply Nat.lt_pow_two_of_testBit
    intro i hi
    rw [BitVec.testBit_toNat]
    by_cases hw : i < w
    · have hbit := hkeeps i hw (by omega)
      rw [getLsbD_bitsSet data value hfield hw, if_neg (by omega),
        decide_eq_false (show ¬ i < 32 by omega), Bool.false_and] at hbit
      exact hbit.symm
    · exact BitVec.getLsbD_of_ge data i (not_lt.mp hw)
  · intro hdata i hi houtside
    rw [getLsbD_bitsSet data value hfield hi, if_neg houtside]
    by_cases hword : i < 32
    · rw [decide_eq_true hword, Bool.true_and]
    · have hclear : data.getLsbD i = false := by
        rw [← BitVec.testBit_toNat]
        exact Nat.testBit_lt_two_pow (hdata.trans_le (Nat.pow_le_pow_right (by decide) (by omega)))
      rw [hclear, Bool.and_false]

/-- Updates of two fields that share no bit commute.
SOURCE: app_type.h:118-122 -/
theorem bitsSet_comm (data : BitVec w) {start len start' len' : ℕ} (value value' : BitVec 32)
    (hfield : start + len ≤ min 32 w) (hfield' : start' + len' ≤ min 32 w)
    (hdisjoint : start + len ≤ start' ∨ start' + len' ≤ start) :
    bitsSet (bitsSet data start len value) start' len' value' =
      bitsSet (bitsSet data start' len' value') start len value := by
  apply BitVec.eq_of_getLsbD_eq
  intro i hi
  rw [getLsbD_bitsSet _ value' hfield' hi, getLsbD_bitsSet _ value hfield hi,
    getLsbD_bitsSet _ value hfield hi, getLsbD_bitsSet _ value' hfield' hi]
  by_cases hin : start ≤ i ∧ i < start + len
  · rw [if_pos hin, if_neg (by omega), if_pos hin, decide_eq_true (show i < 32 by omega),
      Bool.true_and]
  · rw [if_neg hin, if_neg hin]
    by_cases hin' : start' ≤ i ∧ i < start' + len'
    · rw [if_pos hin', if_pos hin', decide_eq_true (show i < 32 by omega), Bool.true_and]
    · rw [if_neg hin', if_neg hin']

end Ctools.Analysis

open Ctools.Program in
/-- **When a field update changes only its field.**  For an operand of any
width, a field of at least one and less than 32 bits inside its first 32, and
any value: after `BITS_SET`, `BITS_GET` gives the value modulo `2 ^ len`, every
bit outside the field is as before, and the update commutes with that of any
field that shares no bit with it, if and only if the operand has no bit set from
32 on.
SOURCE: app_type.h:102-122 -/
theorem Ctools.Analysis.bitsSet_field_iff {w : ℕ} (data : BitVec w) (start len : ℕ)
    (value : BitVec 32) (hfield : IsField w start len) :
    ((bitsGet (bitsSet data start len value) start len).toNat = value.toNat % 2 ^ len ∧
      (∀ i < w, ¬ (start ≤ i ∧ i < start + len) →
        (bitsSet data start len value).getLsbD i = data.getLsbD i) ∧
      ∀ (start' len' : ℕ) (value' : BitVec 32), IsField w start' len' →
        start + len ≤ start' ∨ start' + len' ≤ start →
        bitsSet (bitsSet data start len value) start' len' value' =
          bitsSet (bitsSet data start' len' value') start len value) ↔
      data.toNat < 2 ^ 32 := by
  rw [← Ctools.Analysis.bitsSet_keeps_iff data value hfield.inside]
  constructor
  · intro h
    exact h.2.1
  · intro hkeeps
    refine ⟨Ctools.Analysis.bitsGet_bitsSet data value hfield.inside, hkeeps, ?_⟩
    intro start' len' value' hfield' hdisjoint
    exact Ctools.Analysis.bitsSet_comm data value value' hfield.inside hfield'.inside hdisjoint

open Ctools.Program in
/-- Four bits of a byte. -/
theorem Ctools.Analysis.bitsSet_field_iff_byte :
    ((bitsGet (bitsSet 0xff#8 2 4 0x35#32) 2 4).toNat = (0x35#32).toNat % 2 ^ 4 ∧
      (∀ i < 8, ¬ (2 ≤ i ∧ i < 2 + 4) →
        (bitsSet 0xff#8 2 4 0x35#32).getLsbD i = (0xff#8).getLsbD i) ∧
      ∀ (start' len' : ℕ) (value' : BitVec 32), IsField 8 start' len' →
        2 + 4 ≤ start' ∨ start' + len' ≤ 2 →
        bitsSet (bitsSet 0xff#8 2 4 0x35#32) start' len' value' =
          bitsSet (bitsSet 0xff#8 start' len' value') 2 4 0x35#32) ↔
      (0xff#8).toNat < 2 ^ 32 :=
  bitsSet_field_iff 0xff#8 2 4 0x35#32 ⟨by decide, by decide, by decide⟩

open Ctools.Program in
/-- Setting bit 0 of `2 ^ 32` to zero clears bit 32. -/
theorem Ctools.Analysis.bitsSet_clears_high :
    bitsSet 0x100000000#64 0 1 0#32 = 0#64 ∧
      ¬ ∀ i < 64, ¬ (0 ≤ i ∧ i < 0 + 1) →
        (bitsSet 0x100000000#64 0 1 0#32).getLsbD i = (0x100000000#64).getLsbD i := by
  have hword : bitsSet 0x100000000#64 0 1 0#32 = 0#64 := by decide
  refine ⟨hword, ?_⟩
  intro h
  have hbit := h 32 (by decide) (by decide)
  rw [hword] at hbit
  revert hbit
  decide
