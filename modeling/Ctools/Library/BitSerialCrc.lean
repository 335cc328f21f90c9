import Mathlib

/-!
# Bit-serial cyclic redundancy checks

The register of a CRC over `GF(2)`, fed one bit at a time, most significant
bit first: it shifts left, and is reduced by the polynomial when the bit that
leaves it differs from the bit that comes in.  `poly` is the polynomial without
its leading term.

Three facts carry everything else.  The register is linear in its state and
the bits read (`crcBits_xor`).  Reading at most `w` bits is the same as adding
them to the top of the register and reading zeros (`crcBits_eq_zeros`).  And
reading zeros loses nothing when the polynomial has a constant term
(`crcZeros_eq_zero`).
-/

set_option autoImplicit false

namespace Ctools.Library

variable {w : ℕ} (poly : BitVec w)

/-- Read one bit. -/
def crcBit (crc : BitVec w) (bit : Bool) : BitVec w :=
  if crc.msb != bit then (crc <<< 1) ^^^ poly else crc <<< 1

/-- Read the bits of a list in order. -/
def crcBits (crc : BitVec w) (bits : List Bool) : BitVec w := bits.foldl (crcBit poly) crc

/-- Read `n` zeros. -/
def crcZeros (n : ℕ) (crc : BitVec w) : BitVec w := crcBits poly crc (List.replicate n false)

/-- No bits leave the register. -/
@[simp] theorem crcBits_nil (crc : BitVec w) : crcBits poly crc [] = crc := rfl

/-- The first bit goes first. -/
@[simp] theorem crcBits_cons (crc : BitVec w) (bit : Bool) (bits : List Bool) :
    crcBits poly crc (bit :: bits) = crcBits poly (crcBit poly crc bit) bits := rfl

/-- Bits in two pieces. -/
theorem crcBits_append (crc : BitVec w) (first second : List Bool) :
    crcBits poly crc (first ++ second) = crcBits poly (crcBits poly crc first) second :=
  List.foldl_append

/-- No zeros leave the register. -/
@[simp] theorem crcZeros_zero (crc : BitVec w) : crcZeros poly 0 crc = crc := rfl

/-- The first zero goes first. -/
theorem crcZeros_succ (n : ℕ) (crc : BitVec w) :
    crcZeros poly (n + 1) crc = crcZeros poly n (crcBit poly crc false) := rfl

/-! ## Linearity -/

/-- The reduction, as a term to add. -/
theorem crcBit_eq (crc : BitVec w) (bit : Bool) :
    crcBit poly crc bit = (crc <<< 1) ^^^ (if crc.msb != bit then poly else 0#w) := by
  unfold crcBit
  split_ifs
  · rfl
  · exact (BitVec.xor_zero).symm

/-- One step is linear. -/
theorem crcBit_xor (a b : BitVec w) (x y : Bool) :
    crcBit poly (a ^^^ b) (x ^^ y) = crcBit poly a x ^^^ crcBit poly b y := by
  have hsel : (if (a ^^^ b).msb != (x ^^ y) then poly else 0#w) =
      (if a.msb != x then poly else 0#w) ^^^ (if b.msb != y then poly else 0#w) := by
    rw [BitVec.msb_xor]
    cases a.msb <;> cases b.msb <;> cases x <;> cases y <;> simp
  rw [crcBit_eq, crcBit_eq, crcBit_eq, hsel, BitVec.shiftLeft_xor_distrib]
  ac_rfl

/-- The register on the sum of two messages, from the sum of two states. -/
theorem crcBits_xor (a b : BitVec w) {first second : List Bool}
    (hlen : first.length = second.length) :
    crcBits poly (a ^^^ b) (List.zipWith xor first second) =
      crcBits poly a first ^^^ crcBits poly b second := by
  induction first generalizing a b second with
  | nil =>
    obtain rfl := List.eq_nil_of_length_eq_zero hlen.symm
    rfl
  | cons x first ih =>
    cases second with
    | nil => cases hlen
    | cons y second =>
      simp only [List.length_cons, Nat.add_right_cancel_iff] at hlen
      simp only [List.zipWith_cons_cons, crcBits_cons, crcBit_xor, ih _ _ hlen]

/-- Zeros are linear. -/
theorem crcZeros_xor (n : ℕ) (a b : BitVec w) :
    crcZeros poly n (a ^^^ b) = crcZeros poly n a ^^^ crcZeros poly n b := by
  have hlen : (List.replicate n false).length = (List.replicate n false).length := rfl
  have h := crcBits_xor poly a b hlen
  simpa [crcZeros] using h

/-- Zeros keep the register zero. -/
@[simp] theorem crcZeros_of_zero (n : ℕ) : crcZeros poly n 0#w = 0#w := by
  have h := crcZeros_xor poly n 0#w 0#w
  rwa [BitVec.xor_self, BitVec.xor_self] at h

/-! ## Reading zeros -/

/-- With a constant term, one zero takes only the zero register to zero. -/
theorem crcBit_false_eq_zero (hpoly : poly.getLsbD 0 = true) {crc : BitVec w}
    (h : crcBit poly crc false = 0#w) : crc = 0#w := by
  cases hmsb : crc.msb with
  | true =>
    have hbit := congrArg (fun v => v.getLsbD 0) h
    simp [crcBit, hmsb, hpoly] at hbit
  | false =>
    have hshift : crc <<< 1 = 0#w := by simpa [crcBit, hmsb] using h
    apply BitVec.eq_of_getLsbD_eq
    intro i hi
    by_cases htop : i + 1 < w
    · have hbit := congrArg (fun v => v.getLsbD (i + 1)) hshift
      have hclear : crc[i] = false := by simpa [htop] using hbit
      rw [BitVec.getLsbD_eq_getElem hi, hclear, BitVec.getLsbD_zero]
    · have hlast : i = w - 1 := by omega
      rw [hlast, ← BitVec.msb_eq_getLsbD_last, hmsb]
      simp

/-- Only the zero register becomes zero. -/
theorem crcZeros_eq_zero (hpoly : poly.getLsbD 0 = true) {n : ℕ} {crc : BitVec w}
    (h : crcZeros poly n crc = 0#w) : crc = 0#w := by
  induction n generalizing crc with
  | zero => exact h
  | succ n ih => exact crcBit_false_eq_zero poly hpoly (ih h)

/-- Zeros only shift a register whose top bits, as many as the zeros, are clear. -/
theorem crcZeros_eq_shiftLeft {n : ℕ} {crc : BitVec w} (h : ∀ i < n, crc.getMsbD i = false) :
    crcZeros poly n crc = crc <<< n := by
  induction n generalizing crc with
  | zero => simp
  | succ n ih =>
    have hmsb : crc.msb = false := h 0 (Nat.succ_pos n)
    have hstep : crcBit poly crc false = crc <<< 1 := by simp [crcBit, hmsb]
    rw [crcZeros_succ, hstep, ih]
    · rw [← BitVec.shiftLeft_add, Nat.add_comm]
    · intro i hi
      rw [BitVec.getMsbD_shiftLeft]
      exact h (i + 1) (by omega)

/-! ## Adding the message to the register -/

/-- The bits of a list from the top of a register down. -/
def topBits (w : ℕ) : List Bool → BitVec w
  | [] => 0#w
  | bit :: bits => (if bit then BitVec.intMin w else 0#w) ^^^ (topBits w bits >>> 1)

/-- The first bit is on top. -/
theorem getMsbD_topBits (bits : List Bool) {i : ℕ} (hi : i < w) :
    (topBits w bits).getMsbD i = bits.getD i false := by
  induction bits generalizing i with
  | nil => simp [topBits]
  | cons bit bits ih =>
    cases i with
    | zero => cases bit <;> simp [topBits, hi, BitVec.getMsbD_intMin]
    | succ i =>
      have hbits := ih (i := i) (by omega)
      cases bit <;> simp_all [topBits, BitVec.getMsbD_intMin]

/-- A bit read is a bit added to the top of the register. -/
theorem crcBit_eq_false (crc : BitVec w) (bit : Bool) :
    crcBit poly crc bit = crcBit poly (crc ^^^ (if bit then BitVec.intMin w else 0#w)) false := by
  cases bit with
  | false => simp
  | true =>
    rcases Nat.eq_zero_or_pos w with rfl | hw
    · exact Subsingleton.elim _ _
    · have hmin : BitVec.intMin w <<< 1 = 0#w := by
        apply BitVec.eq_of_getLsbD_eq
        intro i hi
        simp [BitVec.getLsbD_intMin]
        omega
      simp [crcBit, BitVec.shiftLeft_xor_distrib, hmin, BitVec.msb_intMin, hw]

/-- **At most `w` bits read** are those bits added to the top of the register
and as many zeros read. -/
theorem crcBits_eq_zeros {bits : List Bool} (hlen : bits.length ≤ w) (crc : BitVec w) :
    crcBits poly crc bits = crcZeros poly bits.length (crc ^^^ topBits w bits) := by
  induction bits generalizing crc with
  | nil => simp [topBits]
  | cons bit bits ih =>
    simp only [List.length_cons] at hlen
    -- the bits still to come have not reached the top, so the first zero only shifts them
    have hmsb : (topBits w bits >>> 1).msb = false := by
      rw [BitVec.msb_ushiftRight]
      simp
    have hlow : (topBits w bits).getLsbD 0 = false := by
      have hget := getMsbD_topBits bits (w := w) (i := w - 1) (by omega)
      rw [List.getD_eq_default _ _ (by omega), BitVec.getMsbD_eq_getLsbD] at hget
      simpa [show 0 < w by omega] using hget
    have hback : (topBits w bits >>> 1) <<< 1 = topBits w bits := by
      apply BitVec.eq_of_getLsbD_eq
      intro i hi
      cases i with
      | zero => simp [hlow]
      | succ i => simp [hi, Nat.add_comm]
    have hshift : crcBit poly (topBits w bits >>> 1) false = topBits w bits := by
      rw [crcBit, hmsb]
      simpa using hback
    rw [crcBits_cons, ih (by omega), List.length_cons, crcZeros_succ, crcBit_eq_false, topBits,
      ← BitVec.xor_assoc]
    have hsum := crcBit_xor poly (crc ^^^ (if bit then BitVec.intMin w else 0#w))
      (topBits w bits >>> 1) false false
    rw [Bool.xor_false, hshift] at hsum
    rw [hsum]

/-- **The residue is zero** after at most `w` bits exactly when they are the top
of the register, whose other bits are clear. -/
theorem crcBits_eq_zero_iff (hpoly : poly.getLsbD 0 = true) {bits : List Bool}
    (hlen : bits.length ≤ w) (crc : BitVec w) :
    crcBits poly crc bits = 0#w ↔ crc = topBits w bits := by
  rw [crcBits_eq_zeros poly hlen]
  constructor
  · intro h
    exact BitVec.xor_eq_zero_iff.mp (crcZeros_eq_zero poly hpoly h)
  · intro h
    rw [h, BitVec.xor_self, crcZeros_of_zero]

/-- From the zero register, at most `w` bits that are not all zero leave a
register that is not zero. -/
theorem crcBits_zero_ne_zero (hpoly : poly.getLsbD 0 = true) {bits : List Bool}
    (hlen : bits.length ≤ w) (hbit : true ∈ bits) : crcBits poly 0#w bits ≠ 0#w := by
  intro h
  have htop := ((crcBits_eq_zero_iff poly hpoly hlen 0#w).mp h).symm
  obtain ⟨i, hi, hget⟩ := List.getElem_of_mem hbit
  have hmsb := getMsbD_topBits bits (w := w) (i := i) (by omega)
  rw [htop, List.getD_eq_getElem _ _ hi, hget] at hmsb
  simp at hmsb

/-! ## Bursts -/

/-- **A short burst changes the register.**  Two messages of one length that
differ, and only within `w` consecutive bits, leave different registers. -/
theorem crcBits_ne_of_burst (hpoly : poly.getLsbD 0 = true) {first second : List Bool}
    (hlen : first.length = second.length) (hne : first ≠ second) {p : ℕ}
    (hburst : ∀ i : ℕ, first[i]? ≠ second[i]? → p ≤ i ∧ i < p + w) (crc : BitVec w) :
    crcBits poly crc first ≠ crcBits poly crc second := by
  let diff := List.zipWith xor first second
  have hget : ∀ i : ℕ, diff[i]? = some true ↔ first[i]? ≠ second[i]? := by
    intro i
    rw [List.getElem?_zipWith]
    by_cases hi : i < first.length
    · rw [List.getElem?_eq_getElem hi, List.getElem?_eq_getElem (hlen ▸ hi)]
      cases first[i] <;> cases second[i] <;> simp
    · rw [List.getElem?_eq_none (by omega), List.getElem?_eq_none (by omega)]
      simp
  -- outside the burst the difference is zero
  have hclear : ∀ part : List Bool, (∀ b ∈ part, b ≠ true) →
      part = List.replicate part.length false := fun part h =>
    List.eq_replicate_of_mem fun b hb => by simpa using h b hb
  have hbefore : diff.take p = List.replicate (diff.take p).length false := by
    apply hclear
    rintro b hb rfl
    obtain ⟨i, hi, hbit⟩ := List.getElem_of_mem hb
    rw [List.length_take] at hi
    have hdiff : diff[i]? = some true := by
      rw [← hbit, List.getElem_take, List.getElem?_eq_getElem]
    have := (hburst i ((hget i).mp hdiff)).1
    omega
  have hafter : (diff.drop p).drop w = List.replicate ((diff.drop p).drop w).length false := by
    apply hclear
    rintro b hb rfl
    obtain ⟨i, hi, hbit⟩ := List.getElem_of_mem hb
    have hdiff : diff[p + (w + i)]? = some true := by
      rw [← List.getElem?_drop, ← List.getElem?_drop, List.getElem?_eq_getElem hi, hbit]
    have := (hburst _ ((hget _).mp hdiff)).2
    omega
  have hwithin : true ∈ (diff.drop p).take w := by
    obtain ⟨i, hi⟩ : ∃ i : ℕ, first[i]? ≠ second[i]? := by
      by_contra hall
      push Not at hall
      exact hne (List.ext_getElem? hall)
    have hrange := hburst i hi
    have hdiff : ((diff.drop p).take w)[i - p]? = some true := by
      rw [List.getElem?_take_of_lt (by omega), List.getElem?_drop,
        show p + (i - p) = i by omega]
      exact (hget i).mpr hi
    exact List.mem_of_getElem? hdiff
  intro heq
  have hsum := crcBits_xor poly crc crc hlen
  rw [heq, BitVec.xor_self, BitVec.xor_self] at hsum
  have hsplit : diff = diff.take p ++ ((diff.drop p).take w ++ (diff.drop p).drop w) := by
    rw [List.take_append_drop, List.take_append_drop]
  change crcBits poly 0#w diff = 0#w at hsum
  rw [hsplit, crcBits_append, crcBits_append, hbefore, hafter] at hsum
  have hstart : crcBits poly 0#w (List.replicate (diff.take p).length false) = 0#w :=
    crcZeros_of_zero poly _
  rw [hstart] at hsum
  exact crcBits_zero_ne_zero poly hpoly (List.length_take_le _ _) hwithin
    (crcZeros_eq_zero poly hpoly hsum)

end Ctools.Library
