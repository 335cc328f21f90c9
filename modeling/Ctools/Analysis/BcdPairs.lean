import Ctools.Analysis.BcdLoop

/-!
# What a byte of `asc2bcd` depends on, and where its tables are left

A first character of no class leaves `c` as the byte before set it, so the byte
before shows in this one; any other first character sets all of `c`.  And a
letter beyond `'F'` or `'f'` asks its table of six for an entry it has not.
-/

set_option autoImplicit false

namespace Ctools.Analysis

open Ctools.Library Ctools.Program Ctools.Interface

/-- The passes look into a table outside of it exactly when a character they
read has no entry there.
SOURCE: app_utils.c:24-52 -/
theorem passes_eq_table_iff {n : ℕ} {s : Asc2bcd} :
    passes asc2bcdBody n s = .error .table ↔ ¬ ∀ ch ∈ s.asc.take (2 * n), Tabled ch := by
  induction n generalizing s with
  | zero => simp [passes]
  | succ n ih =>
    obtain ⟨asc, bcd, c, i⟩ := s
    rw [show 2 * (n + 1) = 2 * n + 1 + 1 by omega]
    cases asc with
    | nil =>
      have hbody : asc2bcdBody ⟨[], bcd, c, i⟩ = .error .read := rfl
      rw [passes_succ_error hbody]
      simp
    | cons first rest =>
      cases rest with
      | nil =>
        have hbody : asc2bcdBody ⟨[first], bcd, c, i⟩ =
            (asc2bcdDigit first).bind fun _ => .error .read := rfl
        cases hdigit : asc2bcdDigit first with
        | error fault =>
          obtain ⟨hfirst, hfault⟩ := (asc2bcdDigit_eq_error_iff first fault).mp hdigit
          rw [hdigit] at hbody
          rw [passes_succ_error hbody, hfault]
          simp [hfirst]
        | ok digit =>
          rw [hdigit] at hbody
          rw [passes_succ_error hbody]
          simp [tabled_of_asc2bcdDigit hdigit]
      | cons second asc =>
        have hbody := asc2bcdBody_cons first second asc bcd c i
        rw [List.take_succ_cons, List.take_succ_cons, List.forall_mem_cons, List.forall_mem_cons]
        cases hpair : pairByte c first second with
        | error fault =>
          obtain ⟨hfault, hnot⟩ := (pairByte_eq_error_iff c first second fault).mp hpair
          rw [hpair] at hbody
          rw [passes_succ_error hbody, hfault]
          simp only [true_iff]
          rintro ⟨hfirst, hsecond, -⟩
          exact hnot ⟨hfirst, hsecond⟩
        | ok byte =>
          obtain ⟨hfirst, hsecond⟩ := tabled_of_pairByte hpair
          rw [hpair] at hbody
          rw [passes_succ_ok hbody, ih]
          simp [hfirst, hsecond]

/-- Among `2 * n` characters with defined lookups, `first` and `second` at
positions `2 * i` and `2 * i + 1` settle the byte at `i`, whatever the others are. -/
def PairSettles (n i : ℕ) (first second : Int8) : Prop :=
  ∀ fuel asc asc' bcd bcd', asc.length = 2 * n → asc'.length = 2 * n →
    asc[2 * i]? = some first → asc[2 * i + 1]? = some second →
    asc'[2 * i]? = some first → asc'[2 * i + 1]? = some second →
    asc2bcd fuel asc (Int32.ofNat (2 * n)) = some (.ok (0, bcd)) →
    asc2bcd fuel asc' (Int32.ofNat (2 * n)) = some (.ok (0, bcd')) → bcd[i]? = bcd'[i]?

variable {n i : ℕ} {first second : Int8}

/-- A call on `2 * n` characters makes `n` passes. -/
theorem toInt_half (hn : n ≤ 255) : (Int32.ofNat (2 * n) >>> 1).toInt = n := by
  rw [toInt_shiftRight_one, Int32.toInt_ofNat_of_lt (show 2 * n < 2 ^ 31 by omega)]
  omega

/-- The bytes of a call that has returned. -/
theorem stores_of_asc2bcd (hn : n ≤ 255) {fuel : ℕ} {asc : List Int8} {bcd : List UInt8}
    (h : asc2bcd fuel asc (Int32.ofNat (2 * n)) = some (.ok (0, bcd))) :
    Stores 0 asc bcd ∧ bcd.length = n := by
  obtain ⟨-, -, -, hlen, hstores⟩ := asc2bcd_eq_ok_iff.mp h
  rw [toInt_half hn, Int.toNat_natCast] at hlen
  exact ⟨hstores, hlen⟩

/-- The byte at `i`, and what the byte before it left. -/
theorem exists_byte_of_stores {asc : List Int8} {bcd : List UInt8} (h : Stores 0 asc bcd)
    (hi : i < bcd.length) (hfirst : asc[2 * i]? = some first)
    (hsecond : asc[2 * i + 1]? = some second) :
    ∃ before, (0 :: bcd)[i]? = some before ∧ pairByte before first second = .ok bcd[i] := by
  obtain ⟨before, ch, ch', hbefore, hch, hch', hpair⟩ := h.byte_eq (List.getElem?_eq_getElem hi)
  rw [hfirst] at hch
  rw [hsecond] at hch'
  cases hch
  cases hch'
  exact ⟨before, hbefore, hpair⟩

/-- The first pair, and a pair whose first character is of a class, settle
their byte. -/
theorem pairSettles_of_classed (hn : n ≤ 255) (hi : i < n) (h : i = 0 ∨ Classed first) :
    PairSettles n i first second := by
  intro fuel asc asc' bcd bcd' _ _ hfirst hsecond hfirst' hsecond' hrun hrun'
  obtain ⟨hstores, hlen⟩ := stores_of_asc2bcd hn hrun
  obtain ⟨hstores', hlen'⟩ := stores_of_asc2bcd hn hrun'
  obtain ⟨before, hbefore, hpair⟩ :=
    exists_byte_of_stores hstores (show i < bcd.length by omega) hfirst hsecond
  obtain ⟨before', hbefore', hpair'⟩ :=
    exists_byte_of_stores hstores' (show i < bcd'.length by omega) hfirst' hsecond'
  have hsame : pairByte before first second = pairByte before' first second := by
    rcases h with hzero | hclass
    · rw [hzero] at hbefore hbefore'
      cases hbefore
      cases hbefore'
      rfl
    · exact pairByte_of_classed before before' hclass
  rw [hsame, hpair'] at hpair
  rw [List.getElem?_eq_getElem (by omega), List.getElem?_eq_getElem (by omega)]
  exact congrArg some (Except.ok.inj hpair).symm

/-- The pair `first`, `second` at `j + 1`, with a pair of digits before it whose
first is `ch`, and with zeros all around. -/
def pairAfter (n j : ℕ) (ch first second : Int8) : List Int8 :=
  List.replicate (2 * j) 0x30 ++ ch :: 0x30 :: first :: second ::
    List.replicate (2 * (n - (j + 2))) 0x30

/-- The row has `n` pairs. -/
theorem length_pairAfter {j : ℕ} (hj : j + 1 < n) (ch first second : Int8) :
    (pairAfter n j ch first second).length = 2 * n := by
  simp only [pairAfter, List.length_append, List.length_replicate, List.length_cons]
  omega

/-- The row from pair `j` on. -/
theorem getElem?_pairAfter (n j k : ℕ) (ch first second : Int8) :
    (pairAfter n j ch first second)[2 * j + k]? =
      (ch :: 0x30 :: first :: second :: List.replicate (2 * (n - (j + 2))) 0x30)[k]? := by
  rw [pairAfter, List.getElem?_append_right (by simp), List.length_replicate,
    Nat.add_sub_cancel_left]

/-- The byte of the pair, when the pair before it leaves `v`. -/
theorem exists_byte_pairAfter (hn : n ≤ 255) {j : ℕ} (hj : j + 1 < n) {ch : Int8} {v : UInt8}
    (hclass : Classed ch) (hv : pairByte 0 ch 0x30 = .ok v) (hfirst : Tabled first)
    (hsecond : Tabled second) :
    ∃ bcd byte, asc2bcd (n + 1) (pairAfter n j ch first second) (Int32.ofNat (2 * n)) =
        some (.ok (0, bcd)) ∧
      bcd[j + 1]? = some byte ∧ pairByte v first second = .ok byte := by
  have hlen := length_pairAfter hj ch first second
  have hget := fun k => getElem?_pairAfter n j k ch first second
  have htabled : ∀ c ∈ pairAfter n j ch first second, Tabled c := by
    obtain ⟨hch, hzero⟩ := tabled_of_pairByte hv
    intro c hc
    simp only [pairAfter, List.mem_append, List.mem_cons, List.mem_replicate] at hc
    rcases hc with ⟨-, rfl⟩ | rfl | rfl | rfl | rfl | ⟨-, rfl⟩ <;> assumption
  obtain ⟨bcd, hstores, hcount⟩ := (exists_stores_iff hlen.ge 0).mpr fun c hc =>
    htabled c (List.mem_of_mem_take hc)
  obtain ⟨before, -, hpair⟩ := exists_byte_of_stores hstores (show j < bcd.length by omega)
    (hget 0) (hget 1)
  rw [pairByte_of_classed before 0 hclass, hv] at hpair
  obtain ⟨before', hbefore', hpair'⟩ := exists_byte_of_stores hstores
    (show j + 1 < bcd.length by omega) (hget 2) (hget 3)
  rw [List.getElem?_cons_succ, List.getElem?_eq_getElem (by omega),
    ← Except.ok.inj hpair] at hbefore'
  rw [← Option.some.inj hbefore'] at hpair'
  refine ⟨bcd, _, ?_, List.getElem?_eq_getElem (by omega), hpair'⟩
  rw [asc2bcd_eq_ok_iff, toInt_half hn]
  exact ⟨by omega, by omega, rfl, by omega, hstores⟩

/-- **A pair whose first character is of no class** does not settle its byte,
unless it is the first: the byte before shows in it.
SOURCE: app_utils.c:26-35 -/
theorem not_pairSettles {j : ℕ} (hn : n ≤ 255) (hj : j + 1 < n) (hfirst : Tabled first)
    (hsecond : Tabled second) (h : ¬ Classed first) : ¬ PairSettles n (j + 1) first second := by
  have hdiffer : ∀ ch : Int8, Tabled ch →
      ((asc2bcdDigit ch).map fun digit => (digit.map fun v : UInt8 => 0x00 ||| v).getD 0x00) ≠
        (asc2bcdDigit ch).map fun digit => (digit.map fun v : UInt8 => 0x10 ||| v).getD 0x10 := by
    apply forall_int8
    decide +kernel
  intro hsettles
  have hlow : pairByte 0 0x30 0x30 = .ok 0x00 := by decide
  have hhigh : pairByte 0 0x31 0x30 = .ok 0x10 := by decide
  obtain ⟨bcd, byte, hrun, hbyte, hpair⟩ :=
    exists_byte_pairAfter hn hj (by decide) hlow hfirst hsecond
  obtain ⟨bcd', byte', hrun', hbyte', hpair'⟩ :=
    exists_byte_pairAfter hn hj (by decide) hhigh hfirst hsecond
  have hsame := hsettles _ _ _ _ _ (length_pairAfter hj _ _ _) (length_pairAfter hj _ _ _)
    (getElem?_pairAfter n j 2 _ _ _) (getElem?_pairAfter n j 3 _ _ _)
    (getElem?_pairAfter n j 2 _ _ _) (getElem?_pairAfter n j 3 _ _ _) hrun hrun'
  rw [hbyte, hbyte'] at hsame
  rw [pairByte_of_not_classed h] at hpair hpair'
  apply hdiffer second hsecond
  rw [hpair, hpair', Option.some.inj hsame]

end Ctools.Analysis

open Ctools.Program Ctools.Interface in
/-- **When the table lookups stay in range.**  With at most 255 passes, no
lookup of `asc2bcd` is beyond its table if and only if none of the characters it
reads is a letter beyond `'F'` or `'f'`.
SOURCE: app_utils.c:24-52 -/
theorem Ctools.Analysis.asc2bcd_lookups_in_range_iff (asc : List Int8) (len : Int32)
    (hlen : (len >>> 1).toInt ≤ 255) :
    (∀ fuel, asc2bcd fuel asc len ≠ some (.error .table)) ↔
      ∀ ch ∈ asc.take (2 * (len >>> 1).toInt.toNat), Tabled ch := by
  have hcounts := Ctools.Analysis.asc2bcd_counts (len >>> 1)
  have hbound : (len >>> 1).toInt.toNat ≤ 255 := by omega
  have htable := Ctools.Analysis.passes_eq_table_iff
    (n := (len >>> 1).toInt.toNat) (s := asc2bcdStart asc)
  constructor
  · intro hnever
    by_contra hnot
    have hrun := hcounts.runLoop_eq hbound (show (asc2bcdStart asc).i = 0 from rfl)
      (Nat.lt_succ_self _)
    rw [htable.mpr hnot] at hrun
    exact hnever _ (Ctools.Analysis.asc2bcd_eq_some_iff.mpr ⟨_, hrun, rfl⟩)
  · intro hall fuel h
    obtain ⟨ended, hrun, hmap⟩ := Ctools.Analysis.asc2bcd_eq_some_iff.mp h
    have hmore := Ctools.Library.runLoop_mono hrun
      (Nat.le_add_right fuel ((len >>> 1).toInt.toNat + 1))
    have hpasses := hcounts.runLoop_eq hbound (show (asc2bcdStart asc).i = 0 from rfl)
      (show _ < fuel + ((len >>> 1).toInt.toNat + 1) by omega)
    cases ended with
    | error fault =>
      cases hmap
      exact htable.mp (Option.some.inj (hpasses.symm.trans hmore)) hall
    | ok t => cases hmap

open Ctools.Program Ctools.Interface in
/-- The characters `Ff` are the last letters in the tables. -/
theorem Ctools.Analysis.asc2bcd_lookups_in_range_iff_last :
    (∀ fuel, asc2bcd fuel [0x46, 0x66] 2 ≠ some (.error .table)) ↔
      ∀ ch ∈ ([0x46, 0x66] : List Int8).take (2 * ((2 : Int32) >>> 1).toInt.toNat), Tabled ch :=
  asc2bcd_lookups_in_range_iff [0x46, 0x66] 2 (by decide)

open Ctools.Program in
/-- `'G'` asks for the seventh entry of `ascii2bcd2`, `'z'` for the 26th of
`ascii2bcd3`. -/
theorem Ctools.Analysis.asc2bcd_lookups_out_of_range :
    asc2bcd 2 [0x47, 0x30] 2 = some (.error .table) ∧
      asc2bcd 2 [0x30, 0x7a] 2 = some (.error .table) := by
  decide

open Ctools.Program Ctools.Interface in
/-- **When a byte depends on its own two characters only.**  Among sequences of
`2 * n ≤ 510` characters whose lookups are defined, the characters at `2 * i` and
`2 * i + 1` settle the byte at `i` if and only if it is the first byte or the
first of them is a letter or a digit.
SOURCE: app_utils.c:16-55 -/
theorem Ctools.Analysis.pairSettles_iff (n i : ℕ) (hn : n ≤ 255) (hi : i < n)
    (first second : Int8) (hfirst : Tabled first) (hsecond : Tabled second) :
    PairSettles n i first second ↔ i = 0 ∨ Classed first := by
  constructor
  · intro hsettles
    by_contra h
    push Not at h
    cases i with
    | zero => exact h.1 rfl
    | succ j => exact not_pairSettles hn hi hfirst hsecond h.2 hsettles
  · exact pairSettles_of_classed hn hi

open Ctools.Program Ctools.Interface in
/-- The second byte, from a digit and a separator. -/
theorem Ctools.Analysis.pairSettles_iff_separated :
    PairSettles 2 1 0x31 0x2d ↔ 1 = 0 ∨ Classed 0x31 :=
  pairSettles_iff 2 1 (by decide) (by decide) 0x31 0x2d (by decide) (by decide)

open Ctools.Program in
/-- After `12` and after `34`, the pair `-5` stores two different bytes. -/
theorem Ctools.Analysis.pair_does_not_settle :
    asc2bcd 3 [0x31, 0x32, 0x2d, 0x35] 4 = some (.ok (0, [0x12, 0x17])) ∧
      asc2bcd 3 [0x33, 0x34, 0x2d, 0x35] 4 = some (.ok (0, [0x34, 0x35])) ∧
      ¬ PairSettles 2 1 0x2d 0x35 := by
  have hrun : asc2bcd 3 [0x31, 0x32, 0x2d, 0x35] 4 = some (.ok (0, [0x12, 0x17])) := by decide
  have hrun' : asc2bcd 3 [0x33, 0x34, 0x2d, 0x35] 4 = some (.ok (0, [0x34, 0x35])) := by decide
  refine ⟨hrun, hrun', ?_⟩
  intro hsettles
  have hsame := hsettles 3 _ _ _ _ rfl rfl rfl rfl rfl rfl hrun hrun'
  cases hsame
