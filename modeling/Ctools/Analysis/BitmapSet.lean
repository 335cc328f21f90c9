import Ctools.Library.Machine
import Ctools.Analysis.BitmapSearch

/-!
# The bitmap is a set of bit indices

`Indexes` ties the bytes of a bitmap to a set of indices.  Each of `bitmap_all_set` and
`bitmap_bit_set` succeeds within the size and does to the bytes what the same call means for the
set (`indexes_step`), so by simulation a whole run does (`indexes_run`).  What the calls
mean for one index is the last of them that affects it (`mem_exec`).
-/

set_option autoImplicit false

namespace Ctools.Analysis

open Ctools.Library Ctools.Program

/-- A call that changes the bitmap. -/
inductive BitmapOp where
  | allSet (enable : Bool)
  | bitSet (bit : ℕ) (enable : Bool)
deriving DecidableEq

/-- A bitmap of `size` bytes under the calls.
SOURCE: bitmap.h:15-26 -/
def bitmapMachine (size : ℕ) : Machine (List UInt8) BitmapOp Unit where
  step bitmap
    | .allSet enable => (bitmapAllSet bitmap size enable).map fun bitmap => ((), bitmap)
    | .bitSet bit enable => (bitmapBitSet bitmap bit enable).map fun bitmap => ((), bitmap)

/-- The call sets a bit of a bitmap of `size` bytes. -/
def BitmapOp.InRange (size : ℕ) : BitmapOp → Prop
  | .allSet _ => True
  | .bitSet bit _ => bit < 8 * size

instance (size : ℕ) : ∀ op, Decidable (BitmapOp.InRange size op)
  | .allSet _ => inferInstanceAs (Decidable True)
  | .bitSet bit _ => inferInstanceAs (Decidable (bit < 8 * size))

/-- What a call makes of bit `bit`, if it affects it. -/
def BitmapOp.affects (bit : ℕ) : BitmapOp → Option Bool
  | .allSet enable => some enable
  | .bitSet b enable => if b = bit then some enable else none

/-- The enable value of the last call that affects a bit. -/
def lastEnable (bit : ℕ) (ops : List BitmapOp) : Option Bool :=
  (ops.filterMap (BitmapOp.affects bit)).getLast?

/-- The set of indices under the calls. -/
def indexMachine : Machine (ℕ → Bool) BitmapOp Unit where
  step members op := some ((), fun bit => (op.affects bit).getD (members bit))

/-- The bits of the bitmap, within its size, are the indices in the set. -/
def Indexes (size : ℕ) (bitmap : List UInt8) (members : ℕ → Bool) : Prop :=
  size ≤ bitmap.length ∧ ∀ bit < 8 * size, bitmapBitGet bitmap bit = some (members bit)

/-! ## One call -/

/-- `bitmap_bit_set` changes one bit of its byte.
SOURCE: bitmap.h:22-25 -/
theorem byteBit_setByteBit (byte : UInt8) {i j : ℕ} (hi : i < 8) (enable : Bool) :
    byteBit (setByteBit byte j enable) i = if i = j then enable else byteBit byte i := by
  have hshift : (1#32 <<< j).getLsbD i = decide (i = j) := by
    rw [← BitVec.twoPow_eq, BitVec.getLsbD_twoPow]
    by_cases hij : i = j
    · simp [hij, show j < 32 by omega]
    · simp [hij, Ne.symm hij]
  rw [byteBit_eq_testBit, byteBit_eq_testBit, ← UInt8.toNat_toBitVec, ← UInt8.toNat_toBitVec,
    BitVec.testBit_toNat, BitVec.testBit_toNat, setByteBit, BitVec.getLsbD_setWidth]
  cases enable with
  | true =>
    rw [if_pos rfl, BitVec.getLsbD_or, BitVec.getLsbD_setWidth, hshift, decide_eq_true hi,
      decide_eq_true (show i < 32 by omega)]
    by_cases hij : i = j <;> simp [hij]
  | false =>
    rw [if_neg (by decide), BitVec.getLsbD_and, BitVec.getLsbD_not, BitVec.getLsbD_setWidth,
      hshift, decide_eq_true hi, decide_eq_true (show i < 32 by omega)]
    by_cases hij : i = j <;> simp [hij]

/-- The bits of a byte that `bitmap_all_set` writes.
SOURCE: bitmap.h:17 -/
theorem byteBit_allSet (enable : Bool) {i : ℕ} (hi : i < 8) :
    byteBit (if enable then 0xFF else 0) i = enable := by
  interval_cases i <;> cases enable <;> rfl

/-- `bitmap_all_set` gives every bit its value.
SOURCE: bitmap.h:15-18 -/
theorem indexes_allSet {size : ℕ} {bitmap : List UInt8} (hroom : size ≤ bitmap.length)
    (enable : Bool) : ∃ bitmap', bitmapAllSet bitmap size enable = some bitmap' ∧
      Indexes size bitmap' fun _ => enable := by
  refine ⟨_, if_pos hroom, by simp, fun bit hbit => ?_⟩
  rw [bitmapBitGet, List.getElem?_append_left (by simp; omega),
    List.getElem?_replicate_of_lt (by omega)]
  simp [byteBit_allSet enable (Nat.mod_lt bit (by decide))]

/-- `bitmap_bit_set` gives its bit its value, and leaves the others, in the same byte and in other
bytes.
SOURCE: bitmap.h:20-26 -/
theorem indexes_bitSet {size : ℕ} {bitmap : List UInt8} {members : ℕ → Bool}
    (hrep : Indexes size bitmap members) {b : ℕ} (hb : b < 8 * size) (enable : Bool) :
    ∃ bitmap', bitmapBitSet bitmap b enable = some bitmap' ∧
      Indexes size bitmap' fun bit => if b = bit then enable else members bit := by
  obtain ⟨hroom, hbits⟩ := hrep
  have hrow : b / 8 < bitmap.length := by omega
  refine ⟨bitmap.set (b / 8) (setByteBit bitmap[b / 8] (b % 8) enable), ?_, by simpa using hroom,
    fun bit hbit => ?_⟩
  · simp [bitmapBitSet, List.getElem?_eq_getElem hrow]
  · have hold := hbits bit hbit
    by_cases hsame : b / 8 = bit / 8
    · rw [bitmapBitGet, ← hsame, List.getElem?_eq_getElem hrow] at hold
      rw [bitmapBitGet, ← hsame, List.getElem?_set_self hrow]
      simp only [Option.bind_eq_bind, Option.bind_some, Option.pure_def,
        Option.some.injEq] at hold ⊢
      rw [byteBit_setByteBit _ (Nat.mod_lt bit (by decide)), hold]
      exact if_congr (by omega) rfl rfl
    · have hother : b ≠ bit := by
        rintro rfl
        exact hsame rfl
      rw [bitmapBitGet, List.getElem?_set_ne hsame, ← bitmapBitGet, hold]
      simp only [if_neg hother]

/-- **One call** within the size succeeds, and does to the bits what it means for the indices. -/
theorem indexes_step {size : ℕ} {op : BitmapOp} (hop : op.InRange size) {bitmap : List UInt8}
    {members : ℕ → Bool} (hrep : Indexes size bitmap members) :
    ∃ o bitmap' members', (bitmapMachine size).step bitmap op = some (o, bitmap') ∧
      indexMachine.step members op = some (o, members') ∧ Indexes size bitmap' members' := by
  cases op with
  | allSet enable =>
    obtain ⟨bitmap', hset, hrep'⟩ := indexes_allSet hrep.1 enable
    exact ⟨(), bitmap', _, by simp [bitmapMachine, hset], rfl, hrep'⟩
  | bitSet b enable =>
    obtain ⟨bitmap', hset, hroom, hbits⟩ := indexes_bitSet hrep hop enable
    refine ⟨(), bitmap', _, by simp [bitmapMachine, hset], rfl, hroom, fun bit hbit => ?_⟩
    rw [hbits bit hbit]
    by_cases hb : b = bit <;> simp [BitmapOp.affects, hb]

/-! ## Runs -/

/-- **A run of calls** within the size succeeds, and so does the set of indices. -/
theorem indexes_run {size : ℕ} {ops : List BitmapOp} (hops : ∀ op ∈ ops, op.InRange size)
    {bitmap : List UInt8} {members : ℕ → Bool} (hrep : Indexes size bitmap members) :
    ∃ h bitmap' members', (bitmapMachine size).exec bitmap ops = some (h, bitmap') ∧
      indexMachine.exec members ops = some (h, members') ∧ Indexes size bitmap' members' :=
  Machine.exec_simulates (Indexes size) ops
    (fun op hop _ _ hrep => indexes_step (hops op hop) hrep) bitmap members hrep

/-- After calls on the set an index is in it by the last call that affects it, or as before. -/
theorem mem_exec {ops : List BitmapOp} {members members' : ℕ → Bool}
    {h : List (BitmapOp × Unit)} (hexec : indexMachine.exec members ops = some (h, members'))
    (bit : ℕ) : members' bit = (lastEnable bit ops).getD (members bit) := by
  induction ops generalizing members h with
  | nil =>
    obtain ⟨-, rfl⟩ := Prod.mk.inj (Option.some.inj hexec)
    rfl
  | cons op ops ih =>
    simp only [Machine.exec, indexMachine, Option.bind_eq_bind, Option.bind_some,
      Option.bind_eq_some_iff, Prod.exists, Option.pure_def, Option.some.injEq,
      Prod.mk.injEq] at hexec
    obtain ⟨rest, _, hrest, -, rfl⟩ := hexec
    rw [ih hrest, lastEnable, lastEnable]
    cases haffects : op.affects bit with
    | none => rw [List.filterMap_cons_none haffects, Option.getD_none]
    | some enable =>
      rw [List.filterMap_cons_some haffects, List.getLast?_cons, Option.getD_some, Option.getD_some]

end Ctools.Analysis

open Ctools.Library Ctools.Program Ctools.Analysis in
/-- **The bitmap is a faithful set of bit indices.**  In a block of at least `size` bytes, with any
contents, every sequence of `bitmap_all_set` and `bitmap_bit_set` within the size succeeds, and
`bitmap_bit_get` then gives for every bit the enable value of the last call that affected it, or
the initial bit if there was none.
SOURCE: bitmap.h:15-31 -/
theorem Ctools.Analysis.bitmap_faithful {size : ℕ} {bitmap : List UInt8}
    (hroom : size ≤ bitmap.length) {ops : List BitmapOp} (hops : ∀ op ∈ ops, op.InRange size) :
    ∃ h bitmap', (bitmapMachine size).exec bitmap ops = some (h, bitmap') ∧
      ∀ bit < 8 * size, ∃ initial, bitmapBitGet bitmap bit = some initial ∧
        bitmapBitGet bitmap' bit = some ((lastEnable bit ops).getD initial) := by
  have hrep : Indexes size bitmap fun bit => (bitmapBitGet bitmap bit).getD false := by
    refine ⟨hroom, fun bit hbit => ?_⟩
    simp [bitmapBitGet, List.getElem?_eq_getElem (show bit / 8 < bitmap.length by omega)]
  obtain ⟨h, bitmap', members', hexec, hindex, -, hbits⟩ := indexes_run hops hrep
  refine ⟨h, bitmap', hexec, fun bit hbit => ⟨_, hrep.2 bit hbit, ?_⟩⟩
  rw [hbits bit hbit, mem_exec hindex bit]

open Ctools.Library Ctools.Program Ctools.Analysis in
/-- The theorem at two bytes: all bits are cleared, then two of one byte are set and one of them is
cleared again. -/
theorem Ctools.Analysis.bitmap_faithful_shared :
    ∃ h bitmap', (bitmapMachine 2).exec [0xA5, 0x5A]
        [.allSet false, .bitSet 9 true, .bitSet 10 true, .bitSet 9 false] = some (h, bitmap') ∧
      bitmapBitGet bitmap' 9 = some false ∧ bitmapBitGet bitmap' 10 = some true := by
  obtain ⟨h, bitmap', hexec, hbits⟩ := bitmap_faithful (show 2 ≤ [0xA5, 0x5A].length by decide)
    (show ∀ op ∈ [.allSet false, .bitSet 9 true, .bitSet 10 true, .bitSet 9 false],
      BitmapOp.InRange 2 op by decide)
  obtain ⟨_, -, hcleared⟩ := hbits 9 (by decide)
  obtain ⟨_, -, hset⟩ := hbits 10 (by decide)
  exact ⟨h, bitmap', hexec, hcleared, hset⟩
