import Ctools.Program.Bitmap

/-!
# Which set bits the bitmap search finds

The cursor `j` of `bitmap_next_enable_bit_get` starts at `start_bit % 8` and is
never set back: it stays there over bytes that are zero, and once a byte has been
scanned it is 8 for all that follow.  So the search looks into one byte only, the
first one that is not zero, and there from bit `start_bit % 8` on (`search_hit`,
`search_miss`).  `SearchReaches` is when that is enough, and `ForeachReaches` when
it is enough for every search of `bitmap_foreach`.
-/

set_option autoImplicit false

namespace Ctools.Analysis

open Ctools.Program

/-- `bitmap_bit_get` reads the bit as set. -/
def IsSet (bitmap : List UInt8) (b : ℕ) : Prop := bitmapBitGet bitmap b = some true

instance (bitmap : List UInt8) (b : ℕ) : Decidable (IsSet bitmap b) :=
  inferInstanceAs (Decidable (bitmapBitGet bitmap b = some true))

/-- The set bits from `start` on. -/
def setFrom (bitmap : List UInt8) (start : ℕ) : Set ℕ := {b | start ≤ b ∧ IsSet bitmap b}

/-- The search from `start` answers with the first set bit from there on, and with
-1 when there is none. -/
def SearchExact (bitmap : List UInt8) (start : ℕ) : Prop :=
  (∀ b, IsLeast (setFrom bitmap start) b →
    bitmapNextEnableBitGet bitmap bitmap.length start = some (b : ℤ)) ∧
  (setFrom bitmap start = ∅ → bitmapNextEnableBitGet bitmap bitmap.length start = some (-1))

/-- The first set bit from `start` on, if there is one, is an `int`, lies in the
byte of `start` unless that byte is zero, and lies in its own byte at no lower
place than `start` does in its byte. -/
def SearchReaches (bitmap : List UInt8) (start : ℕ) : Prop :=
  ∀ b, IsLeast (setFrom bitmap start) b →
    b < 2 ^ 31 ∧ (bitmap[start / 8]? = some 0 ∨ b / 8 = start / 8) ∧ start % 8 ≤ b % 8

/-- `bitmap_foreach` ends, and has run its body for every set bit once, in
increasing order. -/
def ForeachComplete (bitmap : List UInt8) : Prop :=
  ∃ fuel visited, bitmapForeach bitmap bitmap.length fuel 0 = some visited ∧
    visited.Pairwise (· < ·) ∧ ∀ b, b ∈ visited ↔ IsSet bitmap b

/-- Every byte with a set bit, other than the last such byte, has its top bit
set, and no set bit is the last `int`. -/
def ForeachReaches (bitmap : List UInt8) : Prop :=
  (∀ b, IsSet bitmap b → b + 1 < 2 ^ 31) ∧
    ∀ b c, IsSet bitmap b → IsSet bitmap c → b / 8 < c / 8 → IsSet bitmap (b / 8 * 8 + 7)

variable {bitmap : List UInt8} {byte : UInt8}

/-- A result is returned if an `int` can count it. -/
theorem intResult_eq_some {n m : ℕ} : intResult n = some m ↔ n < 2 ^ 31 ∧ n = m := by
  unfold intResult
  by_cases hn : n < 2 ^ 31
  · rw [if_pos hn, Option.some.injEq, and_iff_right hn]
  · rw [if_neg hn]
    exact iff_of_false (by simp) (fun h => hn h.1)

/-! ## Bits of bytes -/

/-- A bit of a byte is one of its number. -/
theorem byteBit_eq_testBit (byte : UInt8) (j : ℕ) : byteBit byte j = byte.toNat.testBit j := by
  unfold byteBit
  rw [Nat.one_shiftLeft, Nat.and_two_pow]
  cases byte.toNat.testBit j <;> simp

/-- A byte that is not zero has a set bit. -/
theorem exists_byteBit (hbyte : byte ≠ 0) : ∃ j, j < 8 ∧ byteBit byte j = true := by
  by_contra hnone
  push Not at hnone
  apply hbyte
  rw [← UInt8.toNat_inj]
  apply Nat.eq_of_testBit_eq
  intro j
  rw [UInt8.toNat_zero, Nat.zero_testBit]
  by_cases hj : j < 8
  · rw [← byteBit_eq_testBit]
    exact Bool.eq_false_iff.mpr (hnone j hj)
  · apply Nat.testBit_lt_two_pow
    exact lt_of_lt_of_le byte.toNat_lt (Nat.pow_le_pow_right two_pos (not_lt.mp hj))

/-- No bit of 0 is set. -/
theorem byteBit_zero (j : ℕ) : byteBit 0 j = false := by
  rw [byteBit_eq_testBit, UInt8.toNat_zero, Nat.zero_testBit]

/-- A bit of a bitmap is one of its bytes. -/
theorem isSet_iff {b : ℕ} :
    IsSet bitmap b ↔ ∃ byte, bitmap[b / 8]? = some byte ∧ byteBit byte (b % 8) = true := by
  simp [IsSet, bitmapBitGet, Option.bind_eq_some_iff]

/-- Bit `j` of byte `i`. -/
theorem isSet_at {i j : ℕ} (hget : bitmap[i]? = some byte) (hj : j < 8) :
    IsSet bitmap (i * 8 + j) ↔ byteBit byte j = true := by
  have hrow : (i * 8 + j) / 8 = i := by omega
  have hcol : (i * 8 + j) % 8 = j := by omega
  rw [isSet_iff, hrow, hcol, hget]
  simp

/-- A set bit is inside the bitmap. -/
theorem IsSet.lt_length {b : ℕ} (hset : IsSet bitmap b) : b < 8 * bitmap.length := by
  obtain ⟨byte, hget, -⟩ := isSet_iff.mp hset
  obtain ⟨hlt, -⟩ := List.getElem?_eq_some_iff.mp hget
  omega

/-- A byte with a set bit is not zero. -/
theorem IsSet.byte_ne_zero {b : ℕ} (hset : IsSet bitmap b) : bitmap[b / 8]? ≠ some 0 := by
  intro hzero
  obtain ⟨byte, hget, hbit⟩ := isSet_iff.mp hset
  rw [hzero, Option.some.injEq] at hget
  rw [← hget, byteBit_zero] at hbit
  exact absurd hbit (by decide)

/-! ## The two loops -/

/-- The inner loop leaves at the first set bit from `j` on.
SOURCE: bitmap.h:41-45 -/
theorem scanByte_hit {left j j' : ℕ} (hscan : scanByte byte left j = (true, j')) :
    j ≤ j' ∧ j' < j + left ∧ byteBit byte j' = true ∧
      ∀ c, j ≤ c → c < j' → byteBit byte c = false := by
  induction left generalizing j with
  | zero => simp [scanByte] at hscan
  | succ left ih =>
    rw [scanByte] at hscan
    cases hbit : byteBit byte j with
    | true =>
      rw [hbit, if_pos rfl, Prod.mk.injEq] at hscan
      obtain ⟨-, rfl⟩ := hscan
      exact ⟨le_refl j, by omega, hbit, by intro c hc hlt; omega⟩
    | false =>
      rw [hbit, if_neg Bool.false_ne_true] at hscan
      obtain ⟨hle, hlt, hhit, hnone⟩ := ih hscan
      refine ⟨by omega, by omega, hhit, ?_⟩
      intro c hc hlt
      rcases hc.eq_or_lt with rfl | hc
      · exact hbit
      · exact hnone c hc hlt

/-- Otherwise it has found all bits from `j` on clear, and leaves the cursor at
the end.
SOURCE: bitmap.h:41-45 -/
theorem scanByte_miss {left j j' : ℕ} (hscan : scanByte byte left j = (false, j')) :
    j' = j + left ∧ ∀ c, j ≤ c → c < j + left → byteBit byte c = false := by
  induction left generalizing j with
  | zero =>
    simp only [scanByte, Prod.mk.injEq, true_and] at hscan
    exact ⟨hscan.symm, by intro c hc hlt; omega⟩
  | succ left ih =>
    rw [scanByte] at hscan
    cases hbit : byteBit byte j with
    | true => simp [hbit] at hscan
    | false =>
      rw [hbit, if_neg Bool.false_ne_true] at hscan
      obtain ⟨hend, hnone⟩ := ih hscan
      refine ⟨by omega, ?_⟩
      intro c hc hlt
      rcases hc.eq_or_lt with rfl | hc
      · exact hbit
      · exact hnone c hc (by omega)

/-- With its cursor at 8 the search finds nothing more. -/
theorem searchBytes_spent {left i : ℕ} (hin : i + left ≤ bitmap.length) :
    searchBytes bitmap left i 8 = some (-1) := by
  induction left generalizing i with
  | zero => rfl
  | succ left ih =>
    have hget : bitmap[i]? = some bitmap[i] := List.getElem?_eq_getElem (by omega)
    have hnext := ih (i := i + 1) (by omega)
    by_cases hzero : bitmap[i] = 0
    · simp [searchBytes, hget, hzero, hnext]
    · simp [searchBytes, hget, scanByte, hnext]

/-- Over bytes that are zero the search keeps its cursor. -/
theorem searchBytes_zeros {i j n left : ℕ}
    (hzeros : ∀ m, i ≤ m → m < i + n → bitmap[m]? = some 0) :
    searchBytes bitmap (n + left) i j = searchBytes bitmap left (i + n) j := by
  induction n generalizing i with
  | zero => rw [Nat.zero_add, Nat.add_zero]
  | succ n ih =>
    have hget := hzeros i le_rfl (by omega)
    have hrest := ih (i := i + 1) (by intro m hm hlt; exact hzeros m (by omega) (by omega))
    rw [show n + 1 + left = (n + left) + 1 by omega, searchBytes, hget]
    simp only [Option.bind_eq_bind, Option.bind_some, if_pos]
    rw [hrest, show i + 1 + n = i + (n + 1) by omega]

/-- `k` is the first byte from `i` on that is not zero. -/
structure FirstByte (bitmap : List UInt8) (i k : ℕ) (byte : UInt8) : Prop where
  le : i ≤ k
  get : bitmap[k]? = some byte
  ne_zero : byte ≠ 0
  zeros : ∀ m, i ≤ m → m < k → bitmap[m]? = some 0

/-- The first byte that is not 0 is in the bitmap. -/
theorem FirstByte.lt_length {i k : ℕ} (hk : FirstByte bitmap i k byte) : k < bitmap.length :=
  (List.getElem?_eq_some_iff.mp hk.get).1

/-- From byte `i` on there is a first byte that is not zero, or all are zero. -/
theorem exists_firstByte (bitmap : List UInt8) (i : ℕ) :
    (∃ k byte, FirstByte bitmap i k byte) ∨
      ∀ m, i ≤ m → m < bitmap.length → bitmap[m]? = some 0 := by
  by_cases hbusy : ∃ k, i ≤ k ∧ k < bitmap.length ∧ bitmap[k]? ≠ some 0
  · left
    have hmin := fun m => Nat.find_min hbusy (m := m)
    obtain ⟨hle, hlt, hne⟩ := Nat.find_spec hbusy
    have hget := List.getElem?_eq_getElem hlt
    refine ⟨Nat.find hbusy, bitmap[Nat.find hbusy], hle, hget, ?_, ?_⟩
    · intro hzero
      rw [hzero] at hget
      exact hne hget
    · intro m him hm
      by_contra hzero
      exact hmin m hm ⟨him, hm.trans hlt, hzero⟩
  · right
    intro m him hm
    by_contra hzero
    exact hbusy ⟨m, him, hm, hzero⟩

/-- The search ends in the first byte that is not zero.
SOURCE: bitmap.h:33-48 -/
theorem search_firstByte {start k : ℕ} (hk : FirstByte bitmap (start / 8) k byte) :
    bitmapNextEnableBitGet bitmap bitmap.length start =
      match scanByte byte (8 - start % 8) (start % 8) with
      | (true, j) => (intResult (k * 8 + j)).map Nat.cast
      | (false, _) => some (-1) := by
  have hle := hk.le
  have hlt := hk.lt_length
  have hskip : searchBytes bitmap (k - start / 8 + (bitmap.length - (k + 1) + 1)) (start / 8)
      (start % 8) = _ := searchBytes_zeros fun m hm hmk => hk.zeros m hm (by omega)
  rw [show k - start / 8 + (bitmap.length - (k + 1) + 1) = bitmap.length - start / 8 by omega,
    show start / 8 + (k - start / 8) = k by omega] at hskip
  simp only [bitmapNextEnableBitGet]
  rw [hskip, searchBytes, hk.get]
  simp only [Option.bind_eq_bind, Option.bind_some, if_neg hk.ne_zero]
  rcases hscan : scanByte byte (8 - start % 8) (start % 8) with ⟨_ | _, j⟩
  · obtain ⟨hend, -⟩ := scanByte_miss hscan
    have hj : j = 8 := by omega
    simp only [hj]
    exact searchBytes_spent (by omega)
  · simp only
    cases intResult (k * 8 + j) <;> rfl

/-- Set bits from `start` on lie in the first byte that is not zero, or behind it. -/
theorem FirstByte.le_row {start k b : ℕ} (hk : FirstByte bitmap (start / 8) k byte)
    (hb : b ∈ setFrom bitmap start) : k ≤ b / 8 := by
  obtain ⟨hle, hset⟩ := hb
  by_contra hlt
  exact hset.byte_ne_zero (hk.zeros (b / 8) (by omega) (by omega))

/-- Where all bytes are zero no bit is set. -/
theorem setFrom_zeros {start : ℕ}
    (hzeros : ∀ m, start / 8 ≤ m → m < bitmap.length → bitmap[m]? = some 0) :
    setFrom bitmap start = ∅ := by
  rw [Set.eq_empty_iff_forall_notMem]
  rintro b ⟨hle, hset⟩
  have hlt := hset.lt_length
  exact hset.byte_ne_zero (hzeros (b / 8) (by omega) (by omega))

/-- Set bits, if any, have a least one. -/
theorem exists_isLeast {start b : ℕ} (hb : b ∈ setFrom bitmap start) :
    ∃ l, IsLeast (setFrom bitmap start) l := by
  refine ⟨sInf (setFrom bitmap start), Nat.sInf_mem ⟨b, hb⟩, ?_⟩
  intro c hc
  exact Nat.sInf_le hc

/-- A set bit of the first byte, at or behind the cursor, lies behind `start`. -/
theorem FirstByte.mem_setFrom {start k j : ℕ} (hk : FirstByte bitmap (start / 8) k byte)
    (hj : start % 8 ≤ j) (hj8 : j < 8) (hbit : byteBit byte j = true) :
    k * 8 + j ∈ setFrom bitmap start := by
  have := hk.le
  exact ⟨by omega, (isSet_at hk.get hj8).mpr hbit⟩

/-- Set bits in the row of the first byte are bits of that byte. -/
theorem FirstByte.byteBit_of_mem {start k b : ℕ} (hk : FirstByte bitmap (start / 8) k byte)
    (hb : b ∈ setFrom bitmap start) (hrow : b / 8 = k) : byteBit byte (b % 8) = true := by
  obtain ⟨byte', hget, hset⟩ := isSet_iff.mp hb.2
  rw [hrow, hk.get, Option.some.injEq] at hget
  rw [hget]
  exact hset

/-- Where the condition holds, the first set bit lies in the first byte that is
not zero. -/
theorem FirstByte.row_eq {start k b : ℕ} (hk : FirstByte bitmap (start / 8) k byte)
    (hb : IsLeast (setFrom bitmap start) b)
    (hbyte : bitmap[start / 8]? = some 0 ∨ b / 8 = start / 8) : b / 8 = k := by
  have hlow := hk.le_row hb.1
  rcases hk.le.eq_or_lt with hsame | hafter
  · have hne : bitmap[start / 8]? ≠ some 0 := by
      rw [hsame, hk.get, Ne, Option.some.injEq]
      exact hk.ne_zero
    exact (hbyte.resolve_left hne).trans hsame
  · obtain ⟨c, hc, hset⟩ := exists_byteBit hk.ne_zero
    have hbehind : k * 8 + c ∈ setFrom bitmap start :=
      ⟨by omega, (isSet_at hk.get hc).mpr hset⟩
    have := hb.2 hbehind
    omega

/-- The search whose first byte shows no bit at or behind the cursor. -/
theorem searchExact_iff_of_miss {start k j : ℕ} (hk : FirstByte bitmap (start / 8) k byte)
    (hscan : scanByte byte (8 - start % 8) (start % 8) = (false, j)) :
    SearchExact bitmap start ↔ SearchReaches bitmap start := by
  obtain ⟨-, hclear⟩ := scanByte_miss hscan
  have hnext := search_firstByte hk
  rw [hscan] at hnext
  simp only at hnext
  constructor
  · rintro ⟨hleast, -⟩ b hb
    rw [hleast b hb, Option.some.injEq] at hnext
    omega
  · intro hreach
    refine ⟨?_, fun _ => hnext⟩
    intro b hb
    exfalso
    obtain ⟨-, hbyte, hcol⟩ := hreach b hb
    have hset := hk.byteBit_of_mem hb.1 (hk.row_eq hb hbyte)
    rw [hclear (b % 8) hcol (by omega)] at hset
    exact Bool.false_ne_true hset

/-- The search whose first byte shows a bit at or behind the cursor. -/
theorem searchExact_iff_of_hit {start k j : ℕ} (hk : FirstByte bitmap (start / 8) k byte)
    (hscan : scanByte byte (8 - start % 8) (start % 8) = (true, j)) :
    SearchExact bitmap start ↔ SearchReaches bitmap start := by
  obtain ⟨hle, hlt, hhit, hclear⟩ := scanByte_hit hscan
  have hfound := hk.mem_setFrom hle (by omega) hhit
  have hnext := search_firstByte hk
  rw [hscan] at hnext
  simp only at hnext
  constructor
  · rintro ⟨hleast, -⟩ b hb
    rw [hleast b hb, eq_comm, Option.map_eq_some_iff] at hnext
    obtain ⟨bit, hbit, hcast⟩ := hnext
    obtain ⟨hfit, rfl⟩ := intResult_eq_some.mp hbit
    have heq : k * 8 + j = b := Nat.cast_inj.mp hcast
    have hrow : b / 8 = k := by omega
    refine ⟨by omega, ?_, by omega⟩
    rcases hk.le.eq_or_lt with hsame | hafter
    · exact .inr (hrow.trans hsame.symm)
    · exact .inl (hk.zeros (start / 8) le_rfl hafter)
  · intro hreach
    refine ⟨?_, fun hempty => absurd hempty (Set.nonempty_iff_ne_empty.mp ⟨_, hfound⟩)⟩
    intro b hb
    obtain ⟨hfit, hbyte, hcol⟩ := hreach b hb
    have hrow := hk.row_eq hb hbyte
    have hset := hk.byteBit_of_mem hb.1 hrow
    have hmin := hb.2 hfound
    -- the scan saw no bit between its cursor and `j`, so `b` is not before `j`
    have hcursor : j ≤ b % 8 := by
      by_contra hearly
      rw [hclear (b % 8) hcol (by omega)] at hset
      exact Bool.false_ne_true hset
    have heq : k * 8 + j = b := by omega
    have hbit : intResult b = some b := intResult_eq_some.mpr ⟨hfit, rfl⟩
    rw [hnext, heq, hbit, Option.map_some]

/-- The search that finds all bytes zero. -/
theorem search_zeros {start : ℕ}
    (hzeros : ∀ m, start / 8 ≤ m → m < bitmap.length → bitmap[m]? = some 0) :
    bitmapNextEnableBitGet bitmap bitmap.length start = some (-1) := by
  have hskip : searchBytes bitmap (bitmap.length - start / 8 + 0) (start / 8) (start % 8) = _ :=
    searchBytes_zeros fun m hm hlt => hzeros m hm (by omega)
  exact hskip

/-- The search is exact where `SearchReaches` says, and nowhere else. -/
theorem searchExact_iff (bitmap : List UInt8) (start : ℕ) :
    SearchExact bitmap start ↔ SearchReaches bitmap start := by
  rcases exists_firstByte bitmap (start / 8) with ⟨k, byte, hk⟩ | hzeros
  · rcases hscan : scanByte byte (8 - start % 8) (start % 8) with ⟨_ | _, j⟩
    · exact searchExact_iff_of_miss hk hscan
    · exact searchExact_iff_of_hit hk hscan
  · have habsent : ∀ b, ¬ IsLeast (setFrom bitmap start) b := by
      rintro b ⟨hb, -⟩
      rw [setFrom_zeros hzeros] at hb
      exact hb
    constructor
    · intro _ b hb
      exact absurd hb (habsent b)
    · intro _
      exact ⟨fun b hb => absurd hb (habsent b), fun _ => search_zeros hzeros⟩

/-! ## The loop over all set bits -/

/-- With nothing left to find the search says so. -/
theorem search_none {start : ℕ} (hempty : setFrom bitmap start = ∅) :
    bitmapNextEnableBitGet bitmap bitmap.length start = some (-1) := by
  have hexact : SearchExact bitmap start := by
    rw [searchExact_iff]
    rintro b ⟨hb, -⟩
    rw [hempty] at hb
    exact absurd hb (Set.notMem_empty b)
  exact hexact.2 hempty

/-- The set bits behind one. -/
theorem mem_setFrom_succ {bit b c : ℕ} (hb : IsLeast (setFrom bitmap bit) b) :
    c ∈ setFrom bitmap (b + 1) ↔ c ∈ setFrom bitmap bit ∧ c ≠ b := by
  constructor
  · rintro ⟨hlt, hset⟩
    have := hb.1.1
    exact ⟨⟨by omega, hset⟩, by omega⟩
  · rintro ⟨hc, hne⟩
    have := hb.2 hc
    exact ⟨by omega, hc.2⟩

/-- One round that finds a bit. -/
theorem bitmapForeach_found {fuel bit b : ℕ} {visited : List ℕ}
    (hnext : bitmapNextEnableBitGet bitmap bitmap.length bit = some (b : ℤ)) (hb : b + 1 < 2 ^ 31) :
    bitmapForeach bitmap bitmap.length (fuel + 1) bit = some visited ↔
      ∃ rest, bitmapForeach bitmap bitmap.length fuel (b + 1) = some rest ∧
        b :: rest = visited := by
  have hfit : intResult (b + 1) = some (b + 1) := intResult_eq_some.mpr ⟨hb, rfl⟩
  simp [bitmapForeach, hnext, hfit, Option.bind_eq_some_iff]

/-- Where every search that follows a set bit is exact, the loop from an exact
search on visits all set bits that are left. -/
theorem bitmapForeach_visits
    (hall : ∀ b, IsSet bitmap b → b + 1 < 2 ^ 31 ∧ SearchExact bitmap (b + 1)) (fuel : ℕ) :
    ∀ bit, SearchExact bitmap bit → 8 * bitmap.length ≤ bit + fuel →
      ∃ visited, bitmapForeach bitmap bitmap.length (fuel + 1) bit = some visited ∧
        visited.Pairwise (· < ·) ∧ ∀ b, b ∈ visited ↔ b ∈ setFrom bitmap bit := by
  induction fuel with
  | zero =>
    intro bit hexact hend
    have hempty : setFrom bitmap bit = ∅ := by
      rw [Set.eq_empty_iff_forall_notMem]
      rintro b ⟨hle, hset⟩
      have := hset.lt_length
      omega
    refine ⟨[], ?_, .nil, ?_⟩
    · simp [bitmapForeach, search_none hempty]
    · simp [hempty]
  | succ fuel ih =>
    intro bit hexact hend
    rcases (setFrom bitmap bit).eq_empty_or_nonempty with hempty | ⟨c, hc⟩
    · refine ⟨[], ?_, .nil, ?_⟩
      · simp [bitmapForeach, search_none hempty]
      · simp [hempty]
    · obtain ⟨b, hb⟩ := exists_isLeast hc
      obtain ⟨hfit, hafter⟩ := hall b hb.1.2
      have hle := hb.1.1
      obtain ⟨rest, hrest, hsorted, hmem⟩ := ih (b + 1) hafter (by omega)
      refine ⟨b :: rest, ?_, ?_, ?_⟩
      · exact (bitmapForeach_found (hexact.1 b hb) hfit).mpr ⟨rest, hrest, rfl⟩
      · rw [List.pairwise_cons]
        refine ⟨?_, hsorted⟩
        intro d hd
        exact ((hmem d).mp hd).1
      · intro d
        rw [List.mem_cons, hmem, mem_setFrom_succ hb]
        by_cases hd : d = b
        · simp [hd, hb.1]
        · simp [hd]

/-- Conversely, a loop that has visited all set bits has searched exactly. -/
theorem searchExact_of_visits (fuel : ℕ) :
    ∀ bit visited, bitmapForeach bitmap bitmap.length fuel bit = some visited →
      visited.Pairwise (· < ·) → (∀ b, b ∈ visited ↔ b ∈ setFrom bitmap bit) →
      SearchExact bitmap bit ∧
        ∀ b ∈ setFrom bitmap bit, b + 1 < 2 ^ 31 ∧ SearchExact bitmap (b + 1) := by
  induction fuel with
  | zero =>
    intro bit visited hrun
    exact absurd hrun (by simp [bitmapForeach])
  | succ fuel ih =>
    intro bit visited hrun hsorted hmem
    have hnone : setFrom bitmap bit = ∅ → _ := search_none
    rcases hnext : bitmapNextEnableBitGet bitmap bitmap.length bit with _ | found
    · simp [bitmapForeach, hnext] at hrun
    rcases lt_or_ge found 0 with hneg | hpos
    · have hnil : visited = [] := by simpa [bitmapForeach, hnext, hneg.not_ge] using hrun.symm
      have hempty : setFrom bitmap bit = ∅ := by
        rw [Set.eq_empty_iff_forall_notMem]
        intro b hb
        rw [← hmem, hnil] at hb
        exact absurd hb List.not_mem_nil
      refine ⟨⟨?_, hnone⟩, ?_⟩
      · rintro b ⟨hb, -⟩
        rw [hempty] at hb
        exact absurd hb (Set.notMem_empty b)
      · intro b hb
        rw [hempty] at hb
        exact absurd hb (Set.notMem_empty b)
    · obtain ⟨b, rfl⟩ := Int.eq_ofNat_of_zero_le hpos
      have hfit : b + 1 < 2 ^ 31 := by
        by_contra hover
        have hundef : intResult (b + 1) = none := if_neg hover
        simp [bitmapForeach, hnext, hundef] at hrun
      obtain ⟨rest, hrest, rfl⟩ := (bitmapForeach_found hnext hfit).mp hrun
      obtain ⟨hhead, hsorted⟩ := List.pairwise_cons.mp hsorted
      -- the first bit visited is the least one there is
      have hb : IsLeast (setFrom bitmap bit) b := by
        refine ⟨(hmem b).mp List.mem_cons_self, ?_⟩
        intro c hc
        rcases List.mem_cons.mp ((hmem c).mpr hc) with rfl | hc
        · exact le_refl c
        · exact (hhead c hc).le
      have hmem' : ∀ c, c ∈ rest ↔ c ∈ setFrom bitmap (b + 1) := by
        intro c
        rw [mem_setFrom_succ hb, ← hmem, List.mem_cons]
        constructor
        · intro hc
          exact ⟨.inr hc, (hhead c hc).ne'⟩
        · rintro ⟨hc, hne⟩
          exact hc.resolve_left hne
      obtain ⟨hexact, hall⟩ := ih (b + 1) rest hrest hsorted hmem'
      refine ⟨⟨?_, hnone⟩, ?_⟩
      · intro c hc
        rw [hc.unique hb, hnext]
      · intro c hc
        by_cases hcb : c = b
        · rw [hcb]
          exact ⟨hfit, hexact⟩
        · exact hall c ((mem_setFrom_succ hb).mpr ⟨hc, hcb⟩)

/-- `bitmap_foreach` is complete exactly where each of its searches is exact. -/
theorem foreachComplete_iff_searches (bitmap : List UInt8) :
    ForeachComplete bitmap ↔ SearchExact bitmap 0 ∧
      ∀ b, IsSet bitmap b → b + 1 < 2 ^ 31 ∧ SearchExact bitmap (b + 1) := by
  have hall : ∀ b, b ∈ setFrom bitmap 0 ↔ IsSet bitmap b := by
    intro b
    exact and_iff_right (Nat.zero_le b)
  constructor
  · rintro ⟨fuel, visited, hrun, hsorted, hmem⟩
    obtain ⟨hexact, hrest⟩ := searchExact_of_visits fuel 0 visited hrun hsorted
      (fun b => (hmem b).trans (hall b).symm)
    exact ⟨hexact, fun b hb => hrest b ((hall b).mpr hb)⟩
  · rintro ⟨hexact, hrest⟩
    obtain ⟨visited, hrun, hsorted, hmem⟩ :=
      bitmapForeach_visits hrest (8 * bitmap.length) 0 hexact (Nat.le_add_left _ 0)
    exact ⟨_, visited, hrun, hsorted, fun b => (hmem b).trans (hall b)⟩

/-- The last set bit of the byte of a set bit. -/
theorem exists_last_in_byte {b : ℕ} (hb : IsSet bitmap b) :
    ∃ l, IsSet bitmap l ∧ l / 8 = b / 8 ∧ ∀ c, IsSet bitmap c → c / 8 = b / 8 → c ≤ l := by
  let row : Set ℕ := {c | IsSet bitmap c ∧ c / 8 = b / 8}
  have hbdd : BddAbove row := by
    refine ⟨b / 8 * 8 + 7, ?_⟩
    rintro c ⟨-, hc⟩
    omega
  obtain ⟨hset, hrow⟩ := Nat.sSup_mem (s := row) ⟨b, hb, rfl⟩ hbdd
  exact ⟨sSup row, hset, hrow, fun c hc hcb => le_csSup hbdd ⟨hc, hcb⟩⟩

/-- From the start of a byte on, the first set bit lies in that byte unless it is
zero. -/
theorem byte_of_aligned {start d : ℕ} (halign : start % 8 = 0)
    (hd : IsLeast (setFrom bitmap start) d) :
    bitmap[start / 8]? = some 0 ∨ d / 8 = start / 8 := by
  by_cases hzero : bitmap[start / 8]? = some 0
  · exact .inl hzero
  have hle := hd.1.1
  have hlt : start / 8 < bitmap.length := by
    have := hd.1.2.lt_length
    omega
  have hget := List.getElem?_eq_getElem hlt
  have hne : bitmap[start / 8] ≠ 0 := by
    intro h
    rw [h] at hget
    exact hzero hget
  obtain ⟨j, hj, hset⟩ := exists_byteBit hne
  have hmin : d ≤ start / 8 * 8 + j := hd.2 ⟨by omega, (isSet_at hget hj).mpr hset⟩
  exact .inr (by omega)

/-- The searches of `bitmap_foreach` that follow a set bit reach what they have to
when the bytes they leave have their top bit set. -/
theorem searchReaches_succ_iff (hfit : ∀ b, IsSet bitmap b → b + 1 < 2 ^ 31) :
    (∀ b, IsSet bitmap b → SearchReaches bitmap (b + 1)) ↔
      ∀ b c, IsSet bitmap b → IsSet bitmap c → b / 8 < c / 8 → IsSet bitmap (b / 8 * 8 + 7) := by
  constructor
  · intro hreach b c hb hc hlt
    obtain ⟨l, hl, hrow, hlast⟩ := exists_last_in_byte hb
    by_cases htop : l = b / 8 * 8 + 7
    · exact htop ▸ hl
    exfalso
    -- the search goes on in the byte of `l`, where nothing is left
    have hsame : (l + 1) / 8 = l / 8 := by omega
    have hcset : c ∈ setFrom bitmap (l + 1) := ⟨by omega, hc⟩
    obtain ⟨d, hd⟩ := exists_isLeast hcset
    obtain ⟨-, hbyte, -⟩ := hreach l hl d hd
    rw [hsame] at hbyte
    have hdrow := hbyte.resolve_left hl.byte_ne_zero
    have hdl := hlast d hd.1.2 (hdrow.trans hrow)
    have := hd.1.1
    omega
  · intro htop b hb d hd
    have hle := hd.1.1
    refine ⟨by have := hfit d hd.1.2; omega, ?_⟩
    by_cases hcol : b % 8 = 7
    · have halign : (b + 1) % 8 = 0 := by omega
      exact ⟨byte_of_aligned halign hd, by omega⟩
    · have hrow : d / 8 = b / 8 := by
        by_contra hother
        have hset := htop b d hb hd.1.2 (by omega)
        have hmin : d ≤ b / 8 * 8 + 7 := hd.2 ⟨by omega, hset⟩
        omega
      exact ⟨.inr (by omega), by omega⟩

end Ctools.Analysis

open Ctools.Analysis in
/-- **When the bitmap search is exact.**  The search from `start` finds the first
set bit, and says -1 where there is none, exactly when that bit, if there is one,
is an `int` and lies in the byte of `start`, or that byte is zero and the bit
stands no lower in its byte than `start` does.  `bitmap_foreach` visits every set
bit once and in order exactly when every byte with a set bit but the last has its
top bit set and no set bit is the last `int`.
SOURCE: bitmap.h:33-52 -/
theorem Ctools.Analysis.bitmap_search_exact_iff (bitmap : List UInt8) :
    (∀ start, SearchExact bitmap start ↔ SearchReaches bitmap start) ∧
      (ForeachComplete bitmap ↔ ForeachReaches bitmap) := by
  refine ⟨searchExact_iff bitmap, ?_⟩
  rw [foreachComplete_iff_searches]
  constructor
  · rintro ⟨-, hall⟩
    have hfit : ∀ b, IsSet bitmap b → b + 1 < 2 ^ 31 := fun b hb => (hall b hb).1
    refine ⟨hfit, (searchReaches_succ_iff hfit).mp ?_⟩
    intro b hb
    exact (searchExact_iff bitmap (b + 1)).mp (hall b hb).2
  · rintro ⟨hfit, htop⟩
    constructor
    · rw [searchExact_iff]
      intro b hb
      have := hfit b hb.1.2
      exact ⟨by omega, byte_of_aligned rfl hb, Nat.zero_le _⟩
    · intro b hb
      refine ⟨hfit b hb, ?_⟩
      rw [searchExact_iff]
      exact (searchReaches_succ_iff hfit).mpr htop b hb

open Ctools.Analysis Ctools.Program in
/-- Two bytes of which each has its lowest bit set: the search from bit 1 does not
see bit 8, nor does it when the first byte is zero, and the loop visits bit 0
only. -/
theorem Ctools.Analysis.bitmap_search_misses :
    ¬ SearchExact [1, 1] 1 ∧ ¬ SearchExact [0, 1] 1 ∧ ¬ ForeachComplete [1, 1] := by
  have hleast : ∀ first : UInt8, first = 1 ∨ first = 0 → IsLeast (setFrom [first, 1] 1) 8 := by
    intro first hfirst
    refine ⟨⟨by decide, by rfl⟩, ?_⟩
    rintro c ⟨hle, hset⟩
    have hlt := hset.lt_length
    by_contra hbefore
    obtain hc : c < 8 := not_le.mp hbefore
    rcases hfirst with rfl | rfl <;> interval_cases c <;> exact absurd hset (by decide)
  have hone : ¬ SearchExact [1, 1] 1 := by
    intro hexact
    exact absurd (hexact.1 8 (hleast 1 (.inl rfl))) (by decide)
  refine ⟨hone, ?_, ?_⟩
  · intro hexact
    exact absurd (hexact.1 8 (hleast 0 (.inr rfl))) (by decide)
  · intro hcomplete
    obtain ⟨-, hall⟩ := (foreachComplete_iff_searches [1, 1]).mp hcomplete
    exact hone (hall 0 (by rfl)).2
