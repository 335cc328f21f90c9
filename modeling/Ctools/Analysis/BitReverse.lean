import Ctools.Library.BitReversal
import Ctools.Program.AppType

/-!
# What the `BIT_REVERSE` macros leave

Each line flips the bits of its shift in every index (`flips_bitSwap`), so the
lines of the macros for 8, 16 and 32 bits flip them all.  The one for 64 bits
ends with a line whose shift is 1 where its masks are those of a shift of 32:
what it leaves is the reversed word only for operands whose bits repeat
(`Repeats`).
-/

set_option autoImplicit false

namespace Ctools.Analysis

open Ctools.Library Ctools.Program

/-- **One line** whose masks fit its shift.
SOURCE: app_type.h:125-150 -/
theorem flips_bitSwap {w p shift : ℕ} {low high : BitVec p} (hp : w ≤ p)
    (hmasks : SwapMasks w shift low high) (v : BitVec w) :
    Flips shift v (bitSwap p v shift low high) :=
  flips_swap hp hmasks v

/-- One more line.
SOURCE: app_type.h:125-150 -/
theorem Flips.bitSwap {n w p k shift : ℕ} {v u : BitVec w} {low high : BitVec p}
    (h : Flips k v u) (hw : w = 2 ^ n) (hshift : shift < w) (hp : w ≤ p)
    (hmasks : SwapMasks w shift low high) :
    Flips (shift ^^^ k) v (bitSwap p u shift low high) :=
  h.trans (flips_bitSwap hp hmasks u) hw hshift

/-- `BIT_REVERSE_U8`.
SOURCE: app_type.h:125-129 -/
theorem reverses_bitReverseU8 (v8 : BitVec 8) : Reverses v8 (bitReverseU8 v8) := by
  have hw : 8 = 2 ^ 3 := rfl
  have hp : 8 ≤ 32 := by decide
  have h₁ := flips_bitSwap hp (show SwapMasks 8 1 0x55#32 0xaa#32 by decide) v8
  have h₂ := Flips.bitSwap h₁ hw (by decide) hp (show SwapMasks 8 2 0x33#32 0xcc#32 by decide)
  have h₄ := Flips.bitSwap h₂ hw (by decide) hp (show SwapMasks 8 4 0x0f#32 0xf0#32 by decide)
  exact Flips.reverses h₄ hw

/-- `BIT_REVERSE_U16`.
SOURCE: app_type.h:130-135 -/
theorem reverses_bitReverseU16 (v16 : BitVec 16) : Reverses v16 (bitReverseU16 v16) := by
  have hw : 16 = 2 ^ 4 := rfl
  have hp : 16 ≤ 32 := by decide
  have h₁ := flips_bitSwap hp (show SwapMasks 16 1 0x5555#32 0xaaaa#32 by decide) v16
  have h₂ := Flips.bitSwap h₁ hw (by decide) hp (show SwapMasks 16 2 0x3333#32 0xcccc#32 by decide)
  have h₄ := Flips.bitSwap h₂ hw (by decide) hp (show SwapMasks 16 4 0x0f0f#32 0xf0f0#32 by decide)
  have h₈ := Flips.bitSwap h₄ hw (by decide) hp (show SwapMasks 16 8 0x00ff#32 0xff00#32 by decide)
  exact Flips.reverses h₈ hw

/-- `BIT_REVERSE_U32`.
SOURCE: app_type.h:136-142 -/
theorem reverses_bitReverseU32 (v32 : BitVec 32) : Reverses v32 (bitReverseU32 v32) := by
  have hw : 32 = 2 ^ 5 := rfl
  have hp : 32 ≤ 32 := le_rfl
  have h₁ := flips_bitSwap hp (show SwapMasks 32 1 0x55555555#32 0xaaaaaaaa#32 by decide) v32
  have h₂ := Flips.bitSwap h₁ hw (by decide) hp
    (show SwapMasks 32 2 0x33333333#32 0xcccccccc#32 by decide)
  have h₄ := Flips.bitSwap h₂ hw (by decide) hp
    (show SwapMasks 32 4 0x0f0f0f0f#32 0xf0f0f0f0#32 by decide)
  have h₈ := Flips.bitSwap h₄ hw (by decide) hp
    (show SwapMasks 32 8 0x00ff00ff#32 0xff00ff00#32 by decide)
  have h₁₆ := Flips.bitSwap h₈ hw (by decide) hp
    (show SwapMasks 32 16 0x0000ffff#32 0xffff0000#32 by decide)
  exact Flips.reverses h₁₆ hw

/-! ## The 64-bit macro -/

/-- What the first five lines for 64 bits leave: each half reversed in its place.
SOURCE: app_type.h:144-148 -/
theorem exists_flips_bitReverseU64 (v64 : BitVec 64) :
    ∃ u, Flips 31 v64 u ∧ bitReverseU64 v64 =
      bitSwap 64 u 1 0x00000000ffffffff#64 0xffffffff00000000#64 := by
  have hw : 64 = 2 ^ 6 := rfl
  have hp : 64 ≤ 64 := le_rfl
  have h₁ := flips_bitSwap hp
    (show SwapMasks 64 1 0x5555555555555555#64 0xaaaaaaaaaaaaaaaa#64 by decide) v64
  have h₂ := Flips.bitSwap h₁ hw (by decide) hp
    (show SwapMasks 64 2 0x3333333333333333#64 0xcccccccccccccccc#64 by decide)
  have h₄ := Flips.bitSwap h₂ hw (by decide) hp
    (show SwapMasks 64 4 0x0f0f0f0f0f0f0f0f#64 0xf0f0f0f0f0f0f0f0#64 by decide)
  have h₈ := Flips.bitSwap h₄ hw (by decide) hp
    (show SwapMasks 64 8 0x00ff00ff00ff00ff#64 0xff00ff00ff00ff00#64 by decide)
  have h₁₆ := Flips.bitSwap h₈ hw (by decide) hp
    (show SwapMasks 64 16 0x0000ffff0000ffff#64 0xffff0000ffff0000#64 by decide)
  exact ⟨_, h₁₆, rfl⟩

/-- The last line takes the bits of the low half from one above, and those of
the high half from one below.
SOURCE: app_type.h:149 -/
theorem getLsbD_lastLine (u : BitVec 64) {i : ℕ} (hi : i < 64) :
    (bitSwap 64 u 1 0x00000000ffffffff#64 0xffffffff00000000#64).getLsbD i =
      if i < 32 then u.getLsbD (i + 1) else u.getLsbD (i - 1) := by
  have hmasks : ∀ i : Fin 64, (0x00000000ffffffff#64).getLsbD i.val = decide (i.val < 32) ∧
      (0xffffffff00000000#64).getLsbD i.val = !decide (i.val < 32) := by decide
  obtain ⟨hlow, hhigh⟩ := hmasks ⟨i, hi⟩
  simp only at hlow hhigh
  rw [bitSwap, BitVec.setWidth_eq, BitVec.setWidth_eq, BitVec.getLsbD_or, BitVec.getLsbD_and,
    BitVec.getLsbD_and, BitVec.getLsbD_ushiftRight, BitVec.getLsbD_shiftLeft, hlow, hhigh]
  by_cases hhalf : i < 32
  · simp [hhalf, Nat.add_comm 1 i]
  · simp [hhalf, hi, show ¬ i < 1 by omega]

/-- The operands that the macro for 64 bits reverses. -/
def Repeats (v64 : BitVec 64) : Prop :=
  v64.getLsbD 0 = v64.getLsbD 31 ∧ v64.getLsbD 32 = v64.getLsbD 63 ∧
    ∀ j < 31, v64.getLsbD j = v64.getLsbD (j + 33)

instance (v64 : BitVec 64) : Decidable (Repeats v64) := inferInstanceAs (Decidable (_ ∧ _))

/-- Where each bit comes from.
SOURCE: app_type.h:143-150 -/
theorem getLsbD_bitReverseU64 (v64 : BitVec 64) {i : ℕ} (hi : i < 64) :
    (bitReverseU64 v64).getLsbD i =
      v64.getLsbD
        (if i < 31 then 30 - i else if i = 31 then 63 else if i = 32 then 0 else 96 - i) := by
  have hsource : ∀ i : Fin 64, (if i.val < 32 then i.val + 1 else i.val - 1) ^^^ 31 =
      if i.val < 31 then 30 - i.val else if i.val = 31 then 63 else if i.val = 32 then 0
        else 96 - i.val := by decide
  obtain ⟨u, hflips, hlast⟩ := exists_flips_bitReverseU64 v64
  have hsrc := hsource ⟨i, hi⟩
  simp only at hsrc
  rw [hlast, getLsbD_lastLine u hi, ← hsrc]
  by_cases hhalf : i < 32
  · rw [if_pos hhalf, if_pos hhalf, hflips _ (by omega)]
  · rw [if_neg hhalf, if_neg hhalf, hflips _ (by omega)]

/-- **`BIT_REVERSE_U64` reverses** exactly the words that repeat.
SOURCE: app_type.h:143-150 -/
theorem reverses_bitReverseU64_iff (v64 : BitVec 64) :
    Reverses v64 (bitReverseU64 v64) ↔ Repeats v64 := by
  constructor
  · intro h
    refine ⟨?_, ?_, ?_⟩
    · have hbit := h 32 (by decide)
      rw [getLsbD_bitReverseU64 v64 (by decide)] at hbit
      exact hbit
    · have hbit := h 31 (by decide)
      rw [getLsbD_bitReverseU64 v64 (by decide)] at hbit
      exact hbit.symm
    · intro j hj
      have hbit := h (30 - j) (by omega)
      rw [getLsbD_bitReverseU64 v64 (by omega), if_pos (by omega),
        show 30 - (30 - j) = j by omega, show 64 - 1 - (30 - j) = j + 33 by omega] at hbit
      exact hbit
  · intro ⟨hlow, hhigh, hrepeat⟩ i hi
    rw [getLsbD_bitReverseU64 v64 hi]
    by_cases h₁ : i < 31
    · rw [if_pos h₁, hrepeat _ (by omega), show 30 - i + 33 = 64 - 1 - i by omega]
    · by_cases h₂ : i = 31
      · rw [if_neg h₁, if_pos h₂, h₂]
        exact hhigh.symm
      · by_cases h₃ : i = 32
        · rw [if_neg h₁, if_neg h₂, if_pos h₃, h₃]
          exact hlow
        · rw [if_neg h₁, if_neg h₂, if_neg h₃, hrepeat (64 - 1 - i) (by omega),
            show 64 - 1 - i + 33 = 96 - i by omega]

/-- The reversal of a word that repeats does so too. -/
theorem Repeats.of_reverses {v64 r : BitVec 64} (h : Repeats v64) (hr : Reverses v64 r) :
    Repeats r := by
  obtain ⟨hlow, hhigh, hrepeat⟩ := h
  refine ⟨?_, ?_, ?_⟩
  · rw [hr 0 (by decide), hr 31 (by decide)]
    exact hhigh.symm
  · rw [hr 32 (by decide), hr 63 (by decide)]
    exact hlow.symm
  · intro j hj
    rw [hr j (by omega), hr (j + 33) (by omega), show 64 - 1 - (j + 33) = 30 - j by omega,
      show 64 - 1 - j = 30 - j + 33 by omega]
    exact (hrepeat (30 - j) (by omega)).symm

end Ctools.Analysis

open Ctools.Library Ctools.Program in
/-- **What the `BIT_REVERSE` macros leave.**  For 8, 16 and 32 bits it is the
word with its bits in reverse order, and a second use restores the word.  For 64
bits that is so if and only if bit 0 equals bit 31, bit 32 equals bit 63, and
every bit `j < 31` equals bit `j + 33`.
SOURCE: app_type.h:125-150 -/
theorem Ctools.Analysis.bit_reverse_iff (v8 : BitVec 8) (v16 : BitVec 16) (v32 : BitVec 32)
    (v64 : BitVec 64) :
    (Reverses v8 (bitReverseU8 v8) ∧ bitReverseU8 (bitReverseU8 v8) = v8) ∧
      (Reverses v16 (bitReverseU16 v16) ∧ bitReverseU16 (bitReverseU16 v16) = v16) ∧
      (Reverses v32 (bitReverseU32 v32) ∧ bitReverseU32 (bitReverseU32 v32) = v32) ∧
      (Reverses v64 (bitReverseU64 v64) ∧ bitReverseU64 (bitReverseU64 v64) = v64 ↔
        Repeats v64) := by
  have h₈ := Ctools.Analysis.reverses_bitReverseU8
  have h₁₆ := Ctools.Analysis.reverses_bitReverseU16
  have h₃₂ := Ctools.Analysis.reverses_bitReverseU32
  have h₆₄ := Ctools.Analysis.reverses_bitReverseU64_iff
  refine ⟨⟨h₈ v8, (h₈ v8).reverse (h₈ _)⟩, ⟨h₁₆ v16, (h₁₆ v16).reverse (h₁₆ _)⟩,
    ⟨h₃₂ v32, (h₃₂ v32).reverse (h₃₂ _)⟩, ?_⟩
  constructor
  · intro h
    exact (h₆₄ v64).mp h.1
  · intro hrepeats
    have h := (h₆₄ v64).mpr hrepeats
    have hagain := (h₆₄ _).mpr (hrepeats.of_reverses h)
    exact ⟨h, h.reverse hagain⟩

open Ctools.Library Ctools.Program in
/-- The word 1 becomes `2 ^ 32 + 2 ^ 30`, not `2 ^ 63`. -/
theorem Ctools.Analysis.bit_reverse_scatters :
    bitReverseU64 1#64 = 0x0000000140000000#64 ∧ ¬ Reverses 1#64 (bitReverseU64 1#64) := by
  have hword : bitReverseU64 1#64 = 0x0000000140000000#64 := by decide
  refine ⟨hword, ?_⟩
  intro h
  have hbit := h 63 (by decide)
  rw [hword] at hbit
  revert hbit
  decide
