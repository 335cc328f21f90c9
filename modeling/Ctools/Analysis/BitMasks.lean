import Ctools.Program.AppType

/-!
# The mask forms of the single-bit macros

A single-bit macro updates one bit of the data (`UpdatesBit`), a mask form the bits of its mask
(`UpdatesMask`).  Where both make the same update, the mask form does in one go what the
single-bit macro does position by position, in any order (`maskForm_of_updates`): so it is for
`BIT_SET` and `BIT_CLR`.  `BIT_TOGGLE_MASK` complements its mask, and toggles the other bits.
-/

set_option autoImplicit false

namespace Ctools.Analysis

open Ctools.Program

/-- The or of `BIT(b)` over a list of positions. -/
def maskOf : List ℕ → BitVec 32
  | [] => 0
  | b :: positions => bit b ||| maskOf positions

variable (single : BitVec 32 → ℕ → BitVec 32) (masked : BitVec 32 → BitVec 32 → BitVec 32)

/-- A mask form with the mask of some positions does what the single-bit form does at each of
them, in any order, and leaves the bits outside the mask. -/
structure MaskForm (data : BitVec 32) (positions : List ℕ) : Prop where
  agrees : ∀ order : List ℕ, order.Perm positions →
    masked data (maskOf positions) = order.foldl single data
  frame : ∀ i < 32, (maskOf positions).getLsbD i = false →
    (masked data (maskOf positions)).getLsbD i = data.getLsbD i

/-- All three mask forms are as their single-bit forms. -/
structure MasksAgree (data : BitVec 32) (positions : List ℕ) : Prop where
  set : MaskForm Program.bitSet bitSetMask data positions
  clr : MaskForm bitClr bitClrMask data positions
  toggle : MaskForm bitToggle bitToggleMask data positions

/-- A single-bit form makes an update of the bit at its position, and of no other. -/
def UpdatesBit (update : Bool → Bool) : Prop :=
  ∀ data b i, b < 31 → i < 32 →
    (single data b).getLsbD i = if i = b then update (data.getLsbD i) else data.getLsbD i

/-- A mask form makes an update of the bits in its mask, and of no other. -/
def UpdatesMask (update : Bool → Bool) : Prop :=
  ∀ data mask i, i < 32 → (masked data mask).getLsbD i =
    if mask.getLsbD i = true then update (data.getLsbD i) else data.getLsbD i

/-- `BIT(b)` has the bit at `b` set.
SOURCE: app_type.h:57-60 -/
theorem getLsbD_bit {b i : ℕ} (hi : i < 32) : (bit b).getLsbD i = decide (i = b) := by
  rw [bit, ← BitVec.twoPow_eq, BitVec.getLsbD_twoPow]
  by_cases hib : i = b
  · simp [hib, hib ▸ hi]
  · simp [hib, Ne.symm hib]

/-- The mask has the bits at its positions set. -/
theorem getLsbD_maskOf (positions : List ℕ) {i : ℕ} (hi : i < 32) :
    (maskOf positions).getLsbD i = decide (i ∈ positions) := by
  induction positions with
  | nil => simp [maskOf]
  | cons b positions ih =>
    rw [maskOf, BitVec.getLsbD_or, getLsbD_bit hi, ih, ← Bool.decide_or]
    simp only [List.mem_cons]

variable {single masked} {update : Bool → Bool}

/-- Position by position, every bit at a position is updated once. -/
theorem getLsbD_foldl (hsingle : UpdatesBit single update) {positions : List ℕ}
    (hdistinct : positions.Nodup) (hbelow : ∀ b ∈ positions, b < 31) (data : BitVec 32) {i : ℕ}
    (hi : i < 32) : (positions.foldl single data).getLsbD i =
      if i ∈ positions then update (data.getLsbD i) else data.getLsbD i := by
  induction positions generalizing data with
  | nil => rfl
  | cons b positions ih =>
    obtain ⟨hfresh, hdistinct⟩ := List.nodup_cons.mp hdistinct
    have hrest : ∀ b ∈ positions, b < 31 := fun b hb => hbelow b (List.mem_cons_of_mem _ hb)
    rw [List.foldl_cons, ih hdistinct hrest, hsingle data b i (hbelow b List.mem_cons_self) hi]
    by_cases hib : i = b
    · subst hib
      rw [if_neg hfresh, if_pos rfl, if_pos List.mem_cons_self]
    · rw [if_neg hib]
      simp only [List.mem_cons, hib, false_or]

/-- **The same update** at the positions and in the mask makes the two forms agree. -/
theorem maskForm_of_updates (hsingle : UpdatesBit single update)
    (hmasked : UpdatesMask masked update) (data : BitVec 32) {positions : List ℕ}
    (hdistinct : positions.Nodup) (hbelow : ∀ b ∈ positions, b < 31) :
    MaskForm single masked data positions := by
  refine ⟨fun order horder => ?_, fun i hi hout => ?_⟩
  · apply BitVec.eq_of_getLsbD_eq
    intro i hi
    rw [hmasked data _ i hi, getLsbD_maskOf positions hi, getLsbD_foldl hsingle
      (horder.nodup_iff.mpr hdistinct) (fun b hb => hbelow b (horder.mem_iff.mp hb)) data hi]
    simp only [decide_eq_true_eq, horder.mem_iff]
  · rw [hmasked data _ i hi, hout, if_neg (by decide)]

/-- `BIT_SET` sets its bit.
SOURCE: app_type.h:72-75 -/
theorem bitSet_updates : UpdatesBit Program.bitSet fun _ => true := by
  intro data b i _ hi
  rw [Program.bitSet, BitVec.getLsbD_or, getLsbD_bit hi]
  by_cases hib : i = b <;> simp [hib]

/-- `BIT_CLR` clears its bit.
SOURCE: app_type.h:77-80 -/
theorem bitClr_updates : UpdatesBit bitClr fun _ => false := by
  intro data b i _ hi
  rw [bitClr, BitVec.getLsbD_and, BitVec.getLsbD_not, getLsbD_bit hi]
  by_cases hib : i = b <;> simp [hib, hi]

/-- `BIT_TOGGLE` toggles its bit.
SOURCE: app_type.h:82-85 -/
theorem bitToggle_updates : UpdatesBit bitToggle not := by
  intro data b i _ hi
  rw [bitToggle, BitVec.getLsbD_xor, getLsbD_bit hi]
  by_cases hib : i = b <;> simp [hib]

/-- `BIT_SET_MASK` sets the bits in its mask.
SOURCE: app_type.h:87-90 -/
theorem bitSetMask_updates : UpdatesMask bitSetMask fun _ => true := by
  intro data mask i _
  rw [bitSetMask, BitVec.getLsbD_or]
  cases mask.getLsbD i <;> simp

/-- `BIT_CLR_MASK` clears the bits in its mask.
SOURCE: app_type.h:92-95 -/
theorem bitClrMask_updates : UpdatesMask bitClrMask fun _ => false := by
  intro data mask i hi
  rw [bitClrMask, BitVec.getLsbD_and, BitVec.getLsbD_not]
  cases mask.getLsbD i <;> simp [hi]

/-- `BIT_TOGGLE_MASK` toggles the bits outside its mask.
SOURCE: app_type.h:97-100 -/
theorem bitToggleMask_updates : UpdatesMask (fun data mask => ~~~bitToggleMask data mask) not := by
  intro data mask i hi
  simp only [bitToggleMask, BitVec.getLsbD_not, BitVec.getLsbD_xor, hi]
  cases mask.getLsbD i <;> simp

/-- `BIT_TOGGLE_MASK` gives the complement of what `BIT_TOGGLE` gives position by position.
SOURCE: app_type.h:82-85, app_type.h:97-100 -/
theorem bitToggleMask_eq_not (data : BitVec 32) {positions order : List ℕ}
    (hdistinct : positions.Nodup) (hbelow : ∀ b ∈ positions, b < 31)
    (horder : order.Perm positions) :
    bitToggleMask data (maskOf positions) = ~~~order.foldl bitToggle data := by
  have hform := maskForm_of_updates bitToggle_updates bitToggleMask_updates data hdistinct hbelow
  rw [← hform.agrees order horder, BitVec.not_not]

end Ctools.Analysis

open Ctools.Program Ctools.Analysis in
/-- **The mask forms never agree with the single-bit forms**, because of `BIT_TOGGLE_MASK`: for
all data and positions it gives the complement of what `BIT_TOGGLE` gives.  `BIT_SET_MASK` and
`BIT_CLR_MASK` always agree with theirs.
SOURCE: app_type.h:57-100 -/
theorem Ctools.Analysis.masks_never_agree (data : BitVec 32) (positions : List ℕ)
    (hdistinct : positions.Nodup) (hbelow : ∀ b ∈ positions, b < 31) :
    ¬ MasksAgree data positions ∧
      MaskForm Program.bitSet bitSetMask data positions ∧
      MaskForm bitClr bitClrMask data positions ∧
      ∀ order : List ℕ, order.Perm positions →
        bitToggleMask data (maskOf positions) = ~~~order.foldl bitToggle data := by
  refine ⟨fun hagree => ?_,
    maskForm_of_updates bitSet_updates bitSetMask_updates data hdistinct hbelow,
    maskForm_of_updates bitClr_updates bitClrMask_updates data hdistinct hbelow,
    fun order horder => bitToggleMask_eq_not data hdistinct hbelow horder⟩
  have hsame := hagree.toggle.agrees positions (List.Perm.refl _)
  rw [bitToggleMask_eq_not data hdistinct hbelow (List.Perm.refl _)] at hsame
  have hbit := congrArg (fun word => word.getLsbD 0) hsame
  simp at hbit

open Ctools.Program Ctools.Analysis in
/-- The theorem at two positions, in the other order. -/
theorem Ctools.Analysis.masks_never_agree_two :
    bitToggleMask 0x0F (maskOf [4, 1]) = ~~~[1, 4].foldl bitToggle 0x0F :=
  (masks_never_agree 0x0F [4, 1] (by decide) (by decide)).2.2.2 [1, 4] (by decide)

open Ctools.Program Ctools.Analysis in
/-- **`BIT_TOGGLE_MASK` toggles the other bits.**  With data 0 and the mask of bit 0 it gives
`0xFFFFFFFE`, where `BIT_TOGGLE` of bit 0 gives 1.
SOURCE: app_type.h:97-100 -/
theorem Ctools.Analysis.toggle_mask_misses :
    bitToggleMask 0 (maskOf [0]) = 0xFFFFFFFE#32 ∧ [0].foldl bitToggle 0 = 1#32 ∧
      ¬ MasksAgree 0 [0] := by
  refine ⟨by decide, by decide, fun hagree => ?_⟩
  exact absurd (hagree.toggle.agrees [0] (List.Perm.refl _)) (by decide)
