import Mathlib

/-!
# Reversing the bits of a word by swaps

A mask-and-shift line with shift `k` brings to each index the bit at its
partner, the index with the bits of `k` flipped, if its masks pick for every
index the direction in which the partner lies (`SwapMasks`, `flips_swap`).  One
line after another flips the bits of both shifts (`Flips.trans`), and to flip
all bits of the index is to reverse the word (`Flips.reverses`).
-/

set_option autoImplicit false

namespace Ctools.Library

variable {w p : ℕ}

/-- `r` is `v` with its bits in reverse order. -/
def Reverses (v r : BitVec w) : Prop := ∀ i < w, r.getLsbD i = v.getLsbD (w - 1 - i)

/-- The reversal of the reversal is the word itself. -/
theorem Reverses.reverse {v r s : BitVec w} (h : Reverses v r) (h' : Reverses r s) : s = v := by
  apply BitVec.eq_of_getLsbD_eq
  intro i hi
  rw [h' i hi, h _ (by omega), show w - 1 - (w - 1 - i) = i by omega]

/-- `r` has at each index the bit of `v` at the index with the bits of `k` flipped. -/
def Flips (k : ℕ) (v r : BitVec w) : Prop := ∀ i < w, r.getLsbD i = v.getLsbD (i ^^^ k)

/-- One after the other, both are flipped. -/
theorem Flips.trans {n k l : ℕ} {v r s : BitVec w} (h : Flips k v r) (h' : Flips l r s)
    (hw : w = 2 ^ n) (hl : l < w) : Flips (l ^^^ k) v s := by
  intro i hi
  have hpartner : i ^^^ l < w := by
    rw [hw] at hi hl ⊢
    exact Nat.xor_lt_two_pow hi hl
  rw [h' i hi, h _ hpartner, Nat.xor_assoc]

/-- **All bits flipped**, an index is counted from the other end. -/
theorem Flips.reverses {n : ℕ} {v r : BitVec w} (h : Flips (w - 1) v r) (hw : w = 2 ^ n) :
    Reverses v r := by
  intro i hi
  have hindex : i ^^^ (w - 1) = w - 1 - i := by
    rw [hw] at hi ⊢
    rw [Nat.sub_sub, Nat.add_comm 1 i]
    apply Nat.eq_of_testBit_eq
    intro j
    rw [Nat.testBit_xor, Nat.testBit_two_pow_sub_one, Nat.testBit_two_pow_sub_succ hi]
    by_cases hj : j < n
    · simp [hj]
    · have hlarge : i.testBit j = false :=
        Nat.testBit_lt_two_pow (hi.trans_le (Nat.pow_le_pow_right (by decide) (not_lt.mp hj)))
      simp [hj, hlarge]
  rw [h i hi, hindex]

/-- For shift `k`, `low` picks the indices below `w` whose partner, the index
with the bits of `k` flipped, is `k` above, and `high` those whose partner is
`k` below. -/
def SwapMasks (w k : ℕ) (low high : BitVec p) : Prop :=
  ∀ i : Fin w, low.getLsbD i.val = !high.getLsbD i.val ∧
    if high.getLsbD i.val then k ≤ i.val ∧ i.val ^^^ k = i.val - k else i.val ^^^ k = k + i.val

instance (w k : ℕ) (low high : BitVec p) : Decidable (SwapMasks w k low high) :=
  inferInstanceAs (Decidable (∀ _, _))

/-- **One mask-and-shift line**, in a type of `p` bits, brings each bit to its
partner's place. -/
theorem flips_swap (hp : w ≤ p) {k : ℕ} {low high : BitVec p} (hmasks : SwapMasks w k low high)
    (v : BitVec w) :
    Flips k v (((v.setWidth p >>> k) &&& low ||| (v.setWidth p <<< k) &&& high).setWidth w) := by
  intro i hi
  obtain ⟨hlow, hpartner⟩ := hmasks ⟨i, hi⟩
  simp only at hlow hpartner
  have hip : i < p := lt_of_lt_of_le hi hp
  have hup : (v.setWidth p >>> k).getLsbD i = v.getLsbD (k + i) := by
    rw [BitVec.getLsbD_ushiftRight, BitVec.getLsbD_setWidth]
    by_cases hk : k + i < p
    · rw [decide_eq_true hk, Bool.true_and]
    · rw [decide_eq_false hk, Bool.false_and, BitVec.getLsbD_of_ge v _ (by omega)]
  have hdown : (v.setWidth p <<< k).getLsbD i = (!decide (i < k) && v.getLsbD (i - k)) := by
    rw [BitVec.getLsbD_shiftLeft, BitVec.getLsbD_setWidth, decide_eq_true hip,
      decide_eq_true (show i - k < p by omega), Bool.true_and, Bool.true_and]
  rw [BitVec.getLsbD_setWidth, decide_eq_true hi, Bool.true_and, BitVec.getLsbD_or,
    BitVec.getLsbD_and, BitVec.getLsbD_and, hup, hdown, hlow]
  cases hhigh : high.getLsbD i with
  | true =>
    rw [hhigh, if_pos rfl] at hpartner
    rw [hpartner.2, decide_eq_false (show ¬ i < k by omega)]
    simp
  | false =>
    rw [hhigh, if_neg (by decide)] at hpartner
    rw [hpartner]
    simp

end Ctools.Library
