import Ctools.Interface.BcdSpec

/-!
# The loops of the BCD conversions

A pass of `asc2bcd` takes two characters and stores the byte they give
(`asc2bcdBody_cons`), so its passes store what `Stores` says
(`passes_asc2bcd_iff`); a pass of `bcd2asc` stores the characters of the two
digits of a byte.  Both count their passes in a `uint8_t` (`asc2bcd_counts`,
`bcd2asc_counts`), so they end after up to 255 passes and never after more.
-/

set_option autoImplicit false

namespace Ctools.Analysis

open Ctools.Library Ctools.Program Ctools.Interface

/-! ## `asc2bcd` -/

/-- **One pass** over two characters.
SOURCE: app_utils.c:24-52 -/
theorem asc2bcdBody_cons (first second : Int8) (asc : List Int8) (bcd : List UInt8) (c i : UInt8) :
    asc2bcdBody ⟨first :: second :: asc, bcd, c, i⟩ =
      (pairByte c first second).map fun byte => ⟨asc, bcd ++ [byte], byte, i + 1⟩ := by
  unfold asc2bcdBody pairByte
  cases hfirst : asc2bcdDigit first with
  | error fault => simp [deref, hfirst, bind, Except.bind, Except.map]
  | ok digit =>
    cases hsecond : asc2bcdDigit second with
    | error fault => simp [deref, hfirst, hsecond, bind, Except.bind, Except.map]
    | ok digit' => simp [deref, hfirst, hsecond, bind, Except.bind, Except.map, pure, Except.pure]

/-- A pass that succeeds has had two characters to read. -/
theorem exists_of_asc2bcdBody {s t : Asc2bcd} (h : asc2bcdBody s = .ok t) :
    ∃ first second asc byte, s.asc = first :: second :: asc ∧
      pairByte s.c first second = .ok byte ∧ t = ⟨asc, s.bcd ++ [byte], byte, s.i + 1⟩ := by
  obtain ⟨asc, bcd, c, i⟩ := s
  match asc with
  | [] => cases h
  | [first] =>
    cases hfirst : asc2bcdDigit first <;>
      simp [asc2bcdBody, deref, hfirst, bind, Except.bind] at h
  | first :: second :: asc =>
    rw [asc2bcdBody_cons] at h
    cases hpair : pairByte c first second with
    | error fault =>
      rw [hpair] at h
      cases h
    | ok byte =>
      rw [hpair] at h
      cases h
      exact ⟨first, second, asc, byte, rfl, hpair, rfl⟩

/-- A pass moves the counter on by one.
SOURCE: app_utils.c:24 -/
theorem i_of_asc2bcdBody {s t : Asc2bcd} (h : asc2bcdBody s = .ok t) : t.i = s.i + 1 := by
  obtain ⟨first, second, asc, byte, -, -, rfl⟩ := exists_of_asc2bcdBody h
  rfl

/-- **The passes** store bytes as `Stores` says.
SOURCE: app_utils.c:24-52 -/
theorem stores_of_passes {n : ℕ} {s t : Asc2bcd} (h : passes asc2bcdBody n s = .ok t) :
    ∃ bcd, Stores s.c s.asc bcd ∧ bcd.length = n ∧ t.bcd = s.bcd ++ bcd := by
  induction n generalizing s with
  | zero =>
    cases h
    exact ⟨[], .nil, rfl, (List.append_nil _).symm⟩
  | succ n ih =>
    cases hbody : asc2bcdBody s with
    | error fault =>
      rw [passes_succ_error hbody] at h
      cases h
    | ok u =>
      rw [passes_succ_ok hbody] at h
      obtain ⟨first, second, asc, byte, hasc, hpair, rfl⟩ := exists_of_asc2bcdBody hbody
      obtain ⟨bcd, hstores, hlen, hbcd⟩ := ih h
      refine ⟨byte :: bcd, ?_, congrArg Nat.succ hlen, ?_⟩
      · rw [hasc]
        exact .cons hpair hstores
      · rw [hbcd, List.append_assoc, List.singleton_append]

/-- What `Stores` says, the passes store.
SOURCE: app_utils.c:24-52 -/
theorem passes_of_stores {c : UInt8} {asc : List Int8} {bcd : List UInt8} (h : Stores c asc bcd)
    (out : List UInt8) (i : UInt8) :
    ∃ t, passes asc2bcdBody bcd.length ⟨asc, out, c, i⟩ = .ok t ∧ t.bcd = out ++ bcd := by
  induction h generalizing out i with
  | nil => exact ⟨_, rfl, (List.append_nil _).symm⟩
  | @cons c byte first second asc bcd pair rest ih =>
    obtain ⟨t, hpasses, hbcd⟩ := ih (out ++ [byte]) (i + 1)
    have hbody := asc2bcdBody_cons first second asc out c i
    rw [pair] at hbody
    refine ⟨t, (passes_succ_ok hbody).trans hpasses, ?_⟩
    rw [hbcd, List.append_assoc, List.singleton_append]

section Asc2bcd

variable {len : Int32}

/-- `len >>= 1` halves.
SOURCE: app_utils.c:22 -/
theorem toInt_shiftRight_one (len : Int32) : (len >>> 1).toInt = len.toInt / 2 := by
  have hone : ((1 : Int32).toBitVec.smod 32).toNat = 1 := by decide
  rw [← Int32.toInt_toBitVec, Int32.toBitVec_shiftRight, BitVec.sshiftRight_eq', hone,
    BitVec.toInt_sshiftRight, Int.shiftRight_eq_div_pow, Int32.toInt_toBitVec]
  rfl

/-- The loop counts in a `uint8_t`.
SOURCE: app_utils.c:20-24 -/
theorem asc2bcd_counts (len : Int32) :
    CountsInByte (asc2bcdCond len) asc2bcdBody Asc2bcd.i len.toInt.toNat where
  cond_eq := fun s => by
    unfold asc2bcdCond
    apply decide_eq_decide.mpr
    omega
  body_eq := fun _ _ => i_of_asc2bcdBody

/-- **From 256 passes on the loop never ends.**
SOURCE: app_utils.c:20-24 -/
theorem asc2bcd_never_ends (hlen : 256 ≤ len.toInt) {n : ℕ} {s t : Asc2bcd} :
    ¬ EndsAfter (asc2bcdTurn len) n s t :=
  (asc2bcd_counts len).never_ends (by omega)

/-- Up to 255 passes, the loop ends after them and with what they come to.
SOURCE: app_utils.c:20-24 -/
theorem asc2bcd_endsAfter_iff (hlen : len.toInt ≤ 255) {n : ℕ} {asc : List Int8} {t : Asc2bcd} :
    EndsAfter (asc2bcdTurn len) n (asc2bcdStart asc) t ↔
      n = len.toInt.toNat ∧ passes asc2bcdBody len.toInt.toNat (asc2bcdStart asc) = .ok t :=
  (asc2bcd_counts len).endsAfter_iff (by omega) rfl

/-- What a call comes to is what its loop comes to.
SOURCE: app_utils.c:16-55 -/
theorem asc2bcd_eq_some_iff {fuel : ℕ} {asc : List Int8}
    {result : Except Fault (UInt32 × List UInt8)} :
    asc2bcd fuel asc len = some result ↔
      ∃ ended, runLoop (asc2bcdTurn (len >>> 1)) fuel (asc2bcdStart asc) = some ended ∧
        ended.map (fun s => (0, s.bcd)) = result :=
  Option.map_eq_some_iff

/-- **`asc2bcd` returns** exactly when its passes are at most 255 and store
bytes, and these are what it stores.
SOURCE: app_utils.c:16-55 -/
theorem asc2bcd_eq_ok_iff {fuel : ℕ} {asc : List Int8} {ret : UInt32} {bcd : List UInt8} :
    asc2bcd fuel asc len = some (.ok (ret, bcd)) ↔
      (len >>> 1).toInt ≤ 255 ∧ (len >>> 1).toInt.toNat < fuel ∧ ret = 0 ∧
        bcd.length = (len >>> 1).toInt.toNat ∧ Stores 0 asc bcd := by
  constructor
  · intro h
    obtain ⟨ended, hrun, hmap⟩ := asc2bcd_eq_some_iff.mp h
    cases ended with
    | error fault => cases hmap
    | ok t =>
      cases hmap
      obtain ⟨n, hn, hends⟩ := runLoop_eq_ok_iff.mp hrun
      by_cases hlen : (len >>> 1).toInt ≤ 255
      · obtain ⟨hcount, hpasses⟩ := (asc2bcd_endsAfter_iff hlen).mp hends
        obtain ⟨stored, hstores, hlength, happend⟩ := stores_of_passes hpasses
        rw [asc2bcdStart, List.nil_append] at happend
        rw [happend]
        exact ⟨hlen, hcount ▸ hn, rfl, hlength, hstores⟩
      · exact absurd hends (asc2bcd_never_ends (by omega))
  · intro ⟨hlen, hfuel, hret, hlength, hstores⟩
    obtain ⟨t, hpasses, hbcd⟩ := passes_of_stores hstores [] 0
    rw [hlength] at hpasses
    have hends := (asc2bcd_endsAfter_iff hlen).mpr ⟨rfl, hpasses⟩
    refine asc2bcd_eq_some_iff.mpr ⟨.ok t, hends.runLoop_eq hfuel, ?_⟩
    rw [hret, ← List.nil_append bcd, ← hbcd]
    rfl

end Asc2bcd

/-! ## `bcd2asc` -/

/-- **One pass** over a byte.
SOURCE: app_utils.c:63-72 -/
theorem bcd2ascBody_cons (byte : UInt8) (bcd : List UInt8) (asc : List Int8) (i : UInt8) :
    bcd2ascBody ⟨byte :: bcd, asc, i⟩ =
      .ok ⟨bcd, asc ++ [hexChar (highDigit byte), hexChar (lowDigit byte)], i + 1⟩ := by
  have hlookup : ∀ digit : BitVec 4,
      lookup bcd2ascii (UInt8.ofBitVec (digit.setWidth 8)) = .ok (hexChar digit).toUInt8 := by
    decide
  have hhigh : byte >>> 4 = UInt8.ofBitVec ((highDigit byte).setWidth 8) := by
    apply UInt8.toBitVec_inj.mp
    apply BitVec.eq_of_getLsbD_eq
    intro i hi
    by_cases hlow : i < 4
    · simp [highDigit, hlow, hi]
    · simp [highDigit, hlow, show 8 ≤ 4 + i by omega]
  have hlow : byte &&& 0x0f = UInt8.ofBitVec ((lowDigit byte).setWidth 8) := by
    have hmask : ∀ i : Fin 8, (0x0f#8)[i.val] = decide (i.val < 4) := by decide
    apply UInt8.toBitVec_inj.mp
    apply BitVec.eq_of_getLsbD_eq
    intro i hi
    have hm : (0x0f#8)[i] = decide (i < 4) := hmask ⟨i, hi⟩
    simp [lowDigit, hi, hm, Bool.and_comm]
  unfold bcd2ascBody
  simp [deref, hhigh, hlow, hlookup, bind, Except.bind, pure, Except.pure]

/-- **The passes** store the characters of the bytes' digits.
SOURCE: app_utils.c:63-72 -/
theorem passes_bcd2asc (bcd rest : List UInt8) (asc : List Int8) (i : UInt8) :
    ∃ i', passes bcd2ascBody bcd.length ⟨bcd ++ rest, asc, i⟩ =
      .ok ⟨rest, asc ++ (unpackDigits bcd).map hexChar, i'⟩ := by
  induction bcd generalizing asc i with
  | nil => exact ⟨i, by simp [unpackDigits]⟩
  | cons byte bcd ih =>
    obtain ⟨i', hpasses⟩ := ih (asc ++ [hexChar (highDigit byte), hexChar (lowDigit byte)]) (i + 1)
    refine ⟨i', ?_⟩
    rw [List.length_cons, List.cons_append, passes_succ_ok (bcd2ascBody_cons _ _ _ _), hpasses]
    simp [unpackDigits]

section Bcd2asc

variable {len : UInt32}

/-- The loop counts in a `uint8_t`.
SOURCE: app_utils.c:60-63 -/
theorem bcd2asc_counts (len : UInt32) :
    CountsInByte (bcd2ascCond len) bcd2ascBody Bcd2asc.i len.toNat where
  cond_eq := fun s => by
    unfold bcd2ascCond
    apply decide_eq_decide.mpr
    rw [UInt32.lt_iff_toNat_lt, UInt8.toNat_toUInt32]
  body_eq := fun s t hbody => by
    obtain ⟨bcd, asc, i⟩ := s
    cases bcd with
    | nil => cases hbody
    | cons byte bcd =>
      rw [bcd2ascBody_cons] at hbody
      cases hbody
      rfl

/-- **From 256 passes on the loop never ends.**
SOURCE: app_utils.c:60-63 -/
theorem bcd2asc_never_ends (hlen : 256 ≤ len.toNat) {n : ℕ} {s t : Bcd2asc} :
    ¬ EndsAfter (bcd2ascTurn len) n s t :=
  (bcd2asc_counts len).never_ends hlen

/-- Up to 255 passes, the loop ends after them and with what they come to.
SOURCE: app_utils.c:60-63 -/
theorem bcd2asc_endsAfter_iff (hlen : len.toNat ≤ 255) {n : ℕ} {bcd : List UInt8} {t : Bcd2asc} :
    EndsAfter (bcd2ascTurn len) n (bcd2ascStart bcd) t ↔
      n = len.toNat ∧ passes bcd2ascBody len.toNat (bcd2ascStart bcd) = .ok t :=
  (bcd2asc_counts len).endsAfter_iff hlen rfl

/-- **`bcd2asc` on up to 255 bytes** stores the characters of their digits.
SOURCE: app_utils.c:57-75 -/
theorem bcd2asc_eq {fuel : ℕ} {bcd : List UInt8} (hbcd : bcd.length ≤ 255)
    (hfuel : bcd.length < fuel) :
    bcd2asc fuel bcd (UInt32.ofNat bcd.length) =
      some (.ok ((unpackDigits bcd).map hexChar)) := by
  have hlen : (UInt32.ofNat bcd.length).toNat = bcd.length :=
    UInt32.toNat_ofNat_of_lt' (show bcd.length < 2 ^ 32 by omega)
  obtain ⟨i, hpasses⟩ := passes_bcd2asc bcd [] [] 0
  rw [List.append_nil, List.nil_append, ← hlen] at hpasses
  have hends := (bcd2asc_endsAfter_iff (hlen.le.trans hbcd)).mpr ⟨rfl, hpasses⟩
  unfold bcd2asc
  rw [hends.runLoop_eq (by omega)]
  rfl

end Bcd2asc

end Ctools.Analysis

open Ctools.Library Ctools.Program Ctools.Interface in
/-- **When the conversions end.**  `asc2bcd` ends after `len >> 1` passes (none
if that is negative) and has stored that many bytes if and only if `len >> 1` is
at most 255 and its characters have entries in their tables; `bcd2asc` ends
after as many passes as its length says and has stored twice as many characters
if and only if that is at most 255.
SOURCE: app_utils.c:16-75 -/
theorem Ctools.Analysis.bcd_conversions_end_iff (asc : List Int8) (len : Int32)
    (hasc : 2 * (len >>> 1).toInt ≤ (asc.length : ℤ)) (bcd : List UInt8) (bytes : UInt32)
    (hbcd : bytes.toNat ≤ bcd.length) :
    ((∃ t, EndsAfter (asc2bcdTurn (len >>> 1)) (len >>> 1).toInt.toNat (asc2bcdStart asc) t ∧
          t.bcd.length = (len >>> 1).toInt.toNat) ↔
        (len >>> 1).toInt ≤ 255 ∧
          ∀ ch ∈ asc.take (2 * (len >>> 1).toInt.toNat), Tabled ch) ∧
      ((∃ t, EndsAfter (bcd2ascTurn bytes) bytes.toNat (bcd2ascStart bcd) t ∧
          t.asc.length = 2 * bytes.toNat) ↔ bytes.toNat ≤ 255) := by
  constructor
  · rw [← exists_stores_iff (by omega) 0]
    constructor
    · intro ⟨t, hends, _⟩
      by_cases hlen : (len >>> 1).toInt ≤ 255
      · obtain ⟨stored, hstores, hcount, -⟩ :=
          stores_of_passes ((asc2bcd_endsAfter_iff hlen).mp hends).2
        exact ⟨hlen, stored, hstores, hcount⟩
      · exact absurd hends (asc2bcd_never_ends (by omega))
    · intro ⟨hlen, stored, hstores, hcount⟩
      obtain ⟨t, hpasses, hstored⟩ := passes_of_stores hstores [] 0
      rw [hcount] at hpasses
      refine ⟨t, (asc2bcd_endsAfter_iff hlen).mpr ⟨rfl, hpasses⟩, ?_⟩
      rw [hstored, List.nil_append, hcount]
  · constructor
    · intro ⟨t, hends, _⟩
      by_contra hlen
      exact bcd2asc_never_ends (by omega) hends
    · intro hlen
      obtain ⟨i, hpasses⟩ := passes_bcd2asc (bcd.take bytes.toNat) (bcd.drop bytes.toNat) [] 0
      rw [List.take_append_drop, List.length_take_of_le hbcd] at hpasses
      refine ⟨_, (bcd2asc_endsAfter_iff hlen).mpr ⟨rfl, hpasses⟩, ?_⟩
      rw [List.nil_append, List.length_map, length_unpackDigits, List.length_take_of_le hbcd]

open Ctools.Library Ctools.Program Ctools.Interface in
/-- Two digits, and one byte. -/
theorem Ctools.Analysis.bcd_conversions_end_iff_one :
    ((∃ t, EndsAfter (asc2bcdTurn ((2 : Int32) >>> 1)) ((2 : Int32) >>> 1).toInt.toNat
            (asc2bcdStart [0x31, 0x46]) t ∧
          t.bcd.length = ((2 : Int32) >>> 1).toInt.toNat) ↔
        ((2 : Int32) >>> 1).toInt ≤ 255 ∧
          ∀ ch ∈ ([0x31, 0x46] : List Int8).take (2 * ((2 : Int32) >>> 1).toInt.toNat),
            Tabled ch) ∧
      ((∃ t, EndsAfter (bcd2ascTurn 1) (1 : UInt32).toNat (bcd2ascStart [0x1f]) t ∧
          t.asc.length = 2 * (1 : UInt32).toNat) ↔ (1 : UInt32).toNat ≤ 255) :=
  bcd_conversions_end_iff [0x31, 0x46] 2 (by decide) [0x1f] 1 (by decide)

open Ctools.Library Ctools.Program in
/-- 512 characters `'0'` are 256 passes, which the loop never ends; neither does
the one over 256 bytes. -/
theorem Ctools.Analysis.bcd_conversions_never_end :
    (¬ ∃ n t, EndsAfter (asc2bcdTurn ((512 : Int32) >>> 1)) n
      (asc2bcdStart (List.replicate 512 0x30)) t) ∧
    ¬ ∃ n t, EndsAfter (bcd2ascTurn 256) n (bcd2ascStart (List.replicate 256 0)) t := by
  constructor
  · rintro ⟨n, t, hends⟩
    exact asc2bcd_never_ends (by decide) hends
  · rintro ⟨n, t, hends⟩
    exact bcd2asc_never_ends (by decide) hends
