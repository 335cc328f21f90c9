import Ctools.Library.BitSerialCrc

/-!
# Odd and double bit errors of a bit-serial CRC

A polynomial with an even number of terms keeps the parity of what was read in the
parity of the register (`parity_crcBits`), so an odd number of errors shows.  Two
errors cancel only if the register's top bit, fed zeros over their distance, comes
back to itself, that is at a multiple of its period (`crcBits_ne_of_double`).
`minimalPeriod_eq` finds the period from its prime factors, and `crcRun` is the
computation that checks them, over natural numbers.
-/

set_option autoImplicit false

namespace Ctools.Library

variable {w : ℕ} (poly : BitVec w)

/-! ## Parity -/

/-- The sum of the lowest `n` bits. -/
def parityTo (n : ℕ) (v : BitVec w) : Bool :=
  match n with
  | 0 => false
  | n + 1 => parityTo n v ^^ v.getLsbD n

/-- The sum of all bits. -/
def parity (v : BitVec w) : Bool := parityTo w v

/-- Parities add up. -/
theorem parityTo_xor (n : ℕ) (a b : BitVec w) :
    parityTo n (a ^^^ b) = (parityTo n a ^^ parityTo n b) := by
  induction n with
  | zero => rfl
  | succ n ih =>
    rw [parityTo, ih, BitVec.getLsbD_xor, parityTo, parityTo]
    cases parityTo n a <;> cases parityTo n b <;> cases a.getLsbD n <;> cases b.getLsbD n <;> rfl

/-- No bit is set in zero. -/
theorem parityTo_zero (n : ℕ) : parityTo n (0#w) = false := by
  induction n with
  | zero => rfl
  | succ n ih => simp [parityTo, ih]

/-- A shift does not change the number of bits, as long as none falls out. -/
theorem parityTo_shiftLeft {n : ℕ} (hn : n < w) (v : BitVec w) :
    parityTo (n + 1) (v <<< 1) = parityTo n v := by
  induction n with
  | zero => simp [parityTo]
  | succ n ih =>
    rw [parityTo, ih (by omega), parityTo, BitVec.getLsbD_shiftLeft]
    simp [hn]

/-- A shift drops the top bit from the parity. -/
theorem parity_shiftLeft (v : BitVec w) : parity (v <<< 1) = (parity v ^^ v.msb) := by
  cases w with
  | zero => simp [parity, parityTo, BitVec.msb_eq_getLsbD_last]
  | succ w =>
    rw [parity, parityTo_shiftLeft (Nat.lt_succ_self w), parity, parityTo,
      BitVec.msb_eq_getLsbD_last]
    simp

/-- The sum of the bits of a message. -/
def parityOf (bits : List Bool) : Bool := bits.foldr xor false

/-- The first bit adds to the parity of the others. -/
theorem parityOf_cons (bit : Bool) (bits : List Bool) :
    parityOf (bit :: bits) = (bit ^^ parityOf bits) := rfl

/-- One bit read is added to the parity of the register. -/
theorem parity_crcBit (hpoly : parity poly = true) (crc : BitVec w) (bit : Bool) :
    parity (crcBit poly crc bit) = (parity crc ^^ bit) := by
  have hsel : parity (if crc.msb != bit then poly else 0#w) = (crc.msb ^^ bit) := by
    split
    · rename_i hne
      rw [hpoly]
      exact hne.symm
    · rename_i heq
      rw [parity, parityTo_zero]
      simpa using heq
  rw [crcBit_eq, parity, parityTo_xor, ← parity, ← parity, parity_shiftLeft, hsel]
  cases parity crc <;> cases crc.msb <;> cases bit <;> rfl

/-- Bits add their parity to that of the register. -/
theorem parity_crcBits (hpoly : parity poly = true) (crc : BitVec w) (bits : List Bool) :
    parity (crcBits poly crc bits) = (parity crc ^^ parityOf bits) := by
  induction bits generalizing crc with
  | nil => simp [parityOf]
  | cons bit bits ih =>
    rw [crcBits_cons, ih, parity_crcBit poly hpoly, parityOf_cons]
    exact Bool.xor_assoc _ _ _

/-- The parity says whether the number of ones is odd. -/
theorem parityOf_eq_odd (bits : List Bool) : parityOf bits = decide (Odd (bits.count true)) := by
  induction bits with
  | nil => rfl
  | cons bit bits ih =>
    rw [parityOf_cons, ih]
    cases bit with
    | false => simp
    | true =>
        rw [List.count_cons_self, Bool.true_xor, ← decide_not, decide_eq_decide, Nat.odd_add_one]

/-- **An odd number of errors changes the register.** -/
theorem crcBits_ne_of_odd (hpoly : parity poly = true) {first second : List Bool}
    (hlen : first.length = second.length)
    (hodd : Odd ((List.zipWith xor first second).count true)) (crc : BitVec w) :
    crcBits poly crc first ≠ crcBits poly crc second := by
  intro heq
  have hsum := crcBits_xor poly crc crc hlen
  rw [heq, BitVec.xor_self, BitVec.xor_self] at hsum
  have hparity := parity_crcBits poly hpoly 0#w (List.zipWith xor first second)
  rw [hsum, parityOf_eq_odd, decide_eq_true hodd, parity, parityTo_zero] at hparity
  cases hparity

/-! ## Two errors -/

/-- Zeros are an iteration of one step. -/
theorem crcZeros_eq_iterate (n : ℕ) (crc : BitVec w) :
    crcZeros poly n crc = (fun v => crcBit poly v false)^[n] crc := by
  induction n generalizing crc with
  | zero => rfl
  | succ n ih => rw [crcZeros_succ, ih, Function.iterate_succ_apply]

/-- A message whose only bits are at positions 0 and `n + 1`, read from the zero
register. -/
theorem crcBits_pair (n rest : ℕ) :
    crcBits poly 0#w (true :: (List.replicate n false ++ true :: List.replicate rest false)) =
      crcZeros poly (rest + 1) (crcZeros poly (n + 1) (BitVec.intMin w) ^^^ BitVec.intMin w) := by
  rw [crcBits_cons, crcBit_eq_false, if_pos rfl, BitVec.zero_xor, crcBits_append, crcBits_cons,
    crcBit_eq_false, if_pos rfl, crcZeros_succ, crcZeros_succ]
  rfl

/-- **Two errors closer than the period change the register.** -/
theorem crcBits_ne_of_double (hpoly : poly.getLsbD 0 = true) {first second : List Bool}
    (hlen : first.length = second.length) {p q : ℕ} (hpq : p < q)
    (hnear : q - p < Function.minimalPeriod (fun v => crcBit poly v false) (BitVec.intMin w))
    (hdiff : ∀ i : ℕ, first[i]? ≠ second[i]? ↔ i = p ∨ i = q) (crc : BitVec w) :
    crcBits poly crc first ≠ crcBits poly crc second := by
  intro heq
  have hsum := crcBits_xor poly crc crc hlen
  rw [heq, BitVec.xor_self, BitVec.xor_self] at hsum
  have hq : q < first.length := by
    by_contra hlong
    apply (hdiff q).mpr (.inr rfl)
    rw [List.getElem?_eq_none (by omega), List.getElem?_eq_none (by omega)]
  -- the difference of the two messages: zeros but at `p` and `q`
  have hpair : List.zipWith xor first second = List.replicate p false ++
      (true :: (List.replicate (q - p - 1) false ++
        true :: List.replicate (first.length - q - 1) false)) := by
    apply List.ext_getElem
    · simp
      omega
    · intro i hi hi'
      have hi₁ : i < first.length := by simp at hi; omega
      have hi₂ : i < second.length := by omega
      have hdiffi := hdiff i
      rw [List.getElem?_eq_getElem hi₁, List.getElem?_eq_getElem hi₂, ne_eq,
        Option.some_inj] at hdiffi
      rw [List.getElem_zipWith]
      have hxor : (first[i] ^^ second[i]) = decide (i = p ∨ i = q) := by
        by_cases hat : i = p ∨ i = q
        · have hne := hdiffi.mpr hat
          rw [decide_eq_true hat]
          revert hne
          cases first[i] <;> cases second[i] <;> simp
        · have hsame : first[i] = second[i] := not_not.mp fun hne => hat (hdiffi.mp hne)
          rw [decide_eq_false hat, hsame, Bool.xor_self]
      rw [hxor]
      rcases Nat.lt_trichotomy i p with hlt | rfl | hgt
      · rw [List.getElem_append_left (by simpa using hlt), List.getElem_replicate]
        exact decide_eq_false (by omega)
      · rw [List.getElem_append_right (by simp)]
        simp
      · rw [List.getElem_append_right (by simp; omega)]
        obtain ⟨j, rfl⟩ : ∃ j, i = p + 1 + j := ⟨i - p - 1, by omega⟩
        simp only [List.length_replicate, show p + 1 + j - p = j + 1 by omega,
          List.getElem_cons_succ]
        rcases Nat.lt_trichotomy j (q - p - 1) with hlt | rfl | hgt'
        · rw [List.getElem_append_left (by simpa using hlt), List.getElem_replicate]
          exact decide_eq_false (by omega)
        · rw [List.getElem_append_right (by simp)]
          simp
          omega
        · rw [List.getElem_append_right (by simp; omega)]
          obtain ⟨k, rfl⟩ : ∃ k, j = q - p - 1 + 1 + k := ⟨j - (q - p - 1) - 1, by omega⟩
          simp only [List.length_replicate, show q - p - 1 + 1 + k - (q - p - 1) = k + 1 by omega,
            List.getElem_cons_succ, List.getElem_replicate]
          exact decide_eq_false (by omega)
  rw [hpair, crcBits_append] at hsum
  have hstart : crcBits poly 0#w (List.replicate p false) = 0#w := crcZeros_of_zero poly p
  rw [hstart, crcBits_pair] at hsum
  have hback := crcZeros_eq_zero poly hpoly hsum
  rw [BitVec.xor_eq_zero_iff, crcZeros_eq_iterate] at hback
  have hperiod :
      Function.IsPeriodicPt (fun v => crcBit poly v false) (q - p) (BitVec.intMin w) := by
    rwa [show q - p - 1 + 1 = q - p by omega] at hback
  have hle := hperiod.minimalPeriod_le (by omega)
  omega

/-! ## The period -/

/-- A period is the least one if it is none after a division by any of its prime
factors. -/
theorem minimalPeriod_eq {α : Type} {f : α → α} {x : α} {n : ℕ}
    (hperiod : Function.IsPeriodicPt f n x)
    (hleast : ∀ p : ℕ, p.Prime → p ∣ n → ¬ Function.IsPeriodicPt f (n / p) x) :
    Function.minimalPeriod f x = n := by
  obtain ⟨k, hk⟩ := hperiod.minimalPeriod_dvd
  by_contra hne
  have hk1 : k ≠ 1 := by
    rintro rfl
    exact hne (by rw [hk, Nat.mul_one])
  obtain ⟨p, hp, m, rfl⟩ := Nat.exists_prime_and_dvd hk1
  have hdiv : n / p = Function.minimalPeriod f x * m := by
    rw [hk, show Function.minimalPeriod f x * (p * m) = Function.minimalPeriod f x * m * p by ring,
      Nat.mul_div_cancel _ hp.pos]
  refine hleast p hp ⟨Function.minimalPeriod f x * m, by rw [hk]; ring⟩ ?_
  rw [hdiv, Function.isPeriodicPt_iff_minimalPeriod_dvd]
  exact Nat.dvd_mul_right _ _

/-- One zero read, over natural numbers. -/
def crcStep (w poly v : ℕ) : ℕ := Nat.xor (2 * v % 2 ^ w) (v / 2 ^ (w - 1) * poly)

/-- `n` zeros read, over natural numbers.  The recursion on the register has it
computed before the next step. -/
def crcRun (w poly : ℕ) : ℕ → ℕ → ℕ
  | 0, v => v
  | n + 1, v => Nat.rec (crcRun w poly n 0) (fun u _ => crcRun w poly n (u + 1)) (crcStep w poly v)

/-- The first step goes first. -/
theorem crcRun_succ (w poly n v : ℕ) :
    crcRun w poly (n + 1) v = crcRun w poly n (crcStep w poly v) := by
  rw [crcRun]
  cases crcStep w poly v <;> rfl

/-- `crcStep` is a step of the register on numbers. -/
theorem crcStep_eq (crc : BitVec w) :
    (crcBit poly crc false).toNat = crcStep w poly.toNat crc.toNat := by
  cases w with
  | zero => simp [crcStep, BitVec.of_length_zero]
  | succ w =>
    have hlt := crc.isLt
    have hshift : (crc <<< 1).toNat = 2 * crc.toNat % 2 ^ (w + 1) := by
      rw [BitVec.toNat_shiftLeft, Nat.shiftLeft_eq, Nat.mul_comm]
    have hmsb : crc.toNat / 2 ^ (w + 1 - 1) = if crc.msb then 1 else 0 := by
      rw [BitVec.msb_eq_decide, Nat.add_sub_cancel]
      rw [Nat.pow_succ] at hlt
      by_cases hhigh : 2 ^ w ≤ crc.toNat
      · rw [decide_eq_true hhigh, if_pos rfl]
        exact Nat.div_eq_of_lt_le (by omega) (by omega)
      · rw [decide_eq_false hhigh, if_neg (by simp), Nat.div_eq_of_lt (by omega)]
    rw [crcStep, ← hshift, hmsb, crcBit]
    cases crc.msb with
    | false => simp
    | true => simp

/-- `crcRun` is a run of the register on numbers. -/
theorem crcRun_eq (n : ℕ) (crc : BitVec w) :
    ((fun v => crcBit poly v false)^[n] crc).toNat = crcRun w poly.toNat n crc.toNat := by
  induction n generalizing crc with
  | zero => rfl
  | succ n ih => rw [Function.iterate_succ_apply, ih, crcRun_succ, crcStep_eq]

/-- A period of the register is one of its numbers. -/
theorem isPeriodicPt_iff_crcRun (n : ℕ) (crc : BitVec w) :
    Function.IsPeriodicPt (fun v => crcBit poly v false) n crc ↔
      crcRun w poly.toNat n crc.toNat = crc.toNat := by
  rw [← crcRun_eq, BitVec.toNat_inj]
  rfl

end Ctools.Library
