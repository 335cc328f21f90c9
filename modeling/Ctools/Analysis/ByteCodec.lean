import Ctools.Library.ByteOrder
import Ctools.Program.AppType

/-!
# The byte-order macros are one codec

The lines of every `GET` and `SET` macro are those of its width and order (`getMacro_eq`,
`setMacro_eq`), and the lines of every `SWAP` macro those of its width (`swapMacro_eq`).  Such
lines read and write numbers as the orders of `ByteOrder` do: `getBytes_linesOf`,
`setBytes_linesOf` and `swapBytes_swapLines`, for any number of bytes that fit the types.
-/

set_option autoImplicit false

namespace Ctools.Analysis

open Ctools.Library Ctools.Program

/-! ## The macros by width and order -/

/-- The widths that the macros come in. -/
inductive Width where
  | u16
  | u24
  | u32
  | u64
deriving DecidableEq

/-- The byte that the macros put first. -/
inductive Endian where
  | msbfirst
  | lsbfirst
deriving DecidableEq

/-- The bytes of a width. -/
def Width.bytes : Width → ℕ
  | .u16 => 2
  | .u24 => 3
  | .u32 => 4
  | .u64 => 8

/-- The bits of a width. -/
def Width.bits : Width → ℕ
  | .u16 => 16
  | .u24 => 24
  | .u32 => 32
  | .u64 => 64

/-- The bits of the type that the macros of a width cast to. -/
def Width.cast : Width → ℕ
  | .u16 => 16
  | .u24 | .u32 => 32
  | .u64 => 64

/-- `GET_Uw_MSBFIRST` and `GET_Uw_LSBFIRST`.
SOURCE: app_type.h:152-185 -/
def getMacro : Width → Endian → List UInt8 → ℕ → Option ℤ
  | .u16, .msbfirst => getU16Msbfirst
  | .u24, .msbfirst => getU24Msbfirst
  | .u32, .msbfirst => getU32Msbfirst
  | .u64, .msbfirst => getU64Msbfirst
  | .u16, .lsbfirst => getU16Lsbfirst
  | .u24, .lsbfirst => getU24Lsbfirst
  | .u32, .lsbfirst => getU32Lsbfirst
  | .u64, .lsbfirst => getU64Lsbfirst

/-- `SET_Uw_MSBFIRST` and `SET_Uw_LSBFIRST`.
SOURCE: app_type.h:187-244 -/
def setMacro : Width → Endian → ℕ → (List UInt8 → Option ℤ) → List UInt8 → Option (List UInt8)
  | .u16, .msbfirst => setU16Msbfirst
  | .u24, .msbfirst => setU24Msbfirst
  | .u32, .msbfirst => setU32Msbfirst
  | .u64, .msbfirst => setU64Msbfirst
  | .u16, .lsbfirst => setU16Lsbfirst
  | .u24, .lsbfirst => setU24Lsbfirst
  | .u32, .lsbfirst => setU32Lsbfirst
  | .u64, .lsbfirst => setU64Lsbfirst

/-- `SWAP_Uw`, with an `unsigned long` of `l` bits.
SOURCE: app_type.h:263-279 -/
def swapMacro (l : ℕ) : Width → ℤ → ℤ
  | .u16 => swapU16
  | .u24 => swapU24 l
  | .u32 => swapU32 l
  | .u64 => swapU64

/-- The order of the bytes. -/
def Endian.order (n : ℕ) : Endian → ByteOrder n
  | .msbfirst => msbFirst n
  | .lsbfirst => lsbFirst n

/-- The lines of a `GET` or `SET` macro for an order: at each offset the shift to the byte's
place. -/
def linesOf {n : ℕ} (order : ByteOrder n) : List (ℕ × ℕ) :=
  (List.range n).map fun k => (k, 8 * order.place k)

/-- The lines of a `SWAP` macro: for each place, from the least significant, the mask of the byte
opposite and the shift that brings it there. -/
def swapLines (n : ℕ) : List (ℕ × ByteShift) :=
  (List.range n).map fun k => (255 <<< (8 * (n - 1 - k)),
    if k < n - 1 - k then .right (8 * (n - 1 - k - k)) else .left (8 * (k - (n - 1 - k))))

/-- Every `GET` macro has the lines of its width and order.
SOURCE: app_type.h:152-185 -/
theorem getMacro_eq (width : Width) (endian : Endian) :
    getMacro width endian = getBytes width.cast (linesOf (endian.order width.bytes)) := by
  cases width <;> cases endian <;> rfl

/-- Every `SET` macro has the lines of its width and order.
SOURCE: app_type.h:187-244 -/
theorem setMacro_eq (width : Width) (endian : Endian) (p : ℕ) (v : List UInt8 → Option ℤ) :
    setMacro width endian p v =
      setBytes width.cast p v (linesOf (endian.order width.bytes)) := by
  cases width <;> cases endian <;> rfl

/-- The bits of the masks of a `SWAP` macro. -/
def Width.mask (l : ℕ) : Width → ℕ
  | .u16 => 16
  | .u24 | .u32 => l
  | .u64 => 64

/-- Every `SWAP` macro has the lines of its width.
SOURCE: app_type.h:263-279 -/
theorem swapMacro_eq (l : ℕ) (width : Width) :
    swapMacro l width = swapBytes (width.mask l) width.cast (swapLines width.bytes) := by
  cases width <;> rfl

/-- The bits of a width are those of its bytes, and fit the type that is cast to. -/
theorem Width.fits (width : Width) :
    width.bits = 8 * width.bytes ∧ width.bits ≤ width.cast := by
  cases width <;> decide

/-- The type that is cast to fits the type of the masks. -/
theorem Width.cast_le_mask (l : ℕ) (width : Width) : width.cast ≤ max 32 (width.mask l) := by
  cases width <;> simp [Width.cast, Width.mask]

/-! ## Reading -/

/-- The byte of a memory at an offset from `p`. -/
def byteAt (memory : List UInt8) (p k : ℕ) : ℕ := (memory.getD (p + k) 0).toNat

/-- A byte of the memory has eight bits. -/
theorem byteAt_lt (memory : List UInt8) (p k : ℕ) : byteAt memory p k < 256 :=
  UInt8.toNat_lt _

/-- A byte inside the memory. -/
theorem getElem?_eq_byteAt {memory : List UInt8} {p k : ℕ} (hk : p + k < memory.length) :
    ∃ byte, memory[p + k]? = some byte ∧ byte.toNat = byteAt memory p k := by
  refine ⟨memory[p + k], List.getElem?_eq_getElem hk, ?_⟩
  rw [byteAt, List.getD_eq_getElem _ _ hk]

/-- A value is not changed by a promotion to a type that fits it. -/
theorem toNat_promote {v c : ℕ} (x : BitVec v) (hfits : v ≤ max 32 c) :
    (promote c x).toNat = x.toNat := by
  rw [promote, BitVec.toNat_setWidth]
  exact Nat.mod_eq_of_lt (x.isLt.trans_le (Nat.pow_le_pow_right (by decide) hfits))

variable {c n : ℕ} (order : ByteOrder n)

/-- The or over some of the lines is the join of the bytes there. -/
theorem orBytes_map (hfits : 8 * n ≤ c) {memory : List UInt8} {p : ℕ}
    (hroom : p + n ≤ memory.length) (offsets : List ℕ) (hoffsets : ∀ k ∈ offsets, k < n) :
    ∃ value, orBytes c memory p (offsets.map fun k => (k, 8 * order.place k)) = some value ∧
      value.toNat = joinBytes (offsets.map fun k => (byteAt memory p k, order.place k)) := by
  induction offsets with
  | nil => exact ⟨0, rfl, rfl⟩
  | cons k offsets ih =>
    obtain ⟨rest, hrest, hvalue⟩ := ih fun j hj => hoffsets j (List.mem_cons_of_mem _ hj)
    have hk : k < n := hoffsets k List.mem_cons_self
    have hplace := order.place_lt k hk
    obtain ⟨byte, hbyte, hbyteAt⟩ := getElem?_eq_byteAt (show p + k < memory.length by omega)
    refine ⟨promote c (byte.toBitVec.setWidth c) <<< (8 * order.place k) ||| rest,
      by simp [orBytes, hbyte, hrest], ?_⟩
    have hcast : (promote c (byte.toBitVec.setWidth c)).toNat = byte.toNat := by
      rw [toNat_promote _ (by omega), BitVec.toNat_setWidth]
      exact Nat.mod_eq_of_lt (byte.toNat_lt.trans_le (Nat.pow_le_pow_right (by decide) (by omega)))
    rw [BitVec.toNat_or, BitVec.toNat_shiftLeft, hcast, hvalue, hbyteAt, List.map_cons, joinBytes,
      Nat.mod_eq_of_lt (shiftLeft_byte_lt (byteAt_lt _ _ _) (by omega))]

/-- **A `GET` macro** reads the bytes in its order. -/
theorem getBytes_linesOf (hfits : 8 * n ≤ c) {memory : List UInt8} {p : ℕ}
    (hroom : p + n ≤ memory.length) :
    getBytes c (linesOf order) memory p = some (order.read (byteAt memory p) : ℤ) := by
  obtain ⟨value, hor, hvalue⟩ := orBytes_map order hfits hroom (List.range n)
    fun k hk => List.mem_range.mp hk
  rw [getBytes, linesOf, hor, Option.map_some, hvalue, ByteOrder.read]

/-! ## Writing -/

/-- The value of an argument in the type that it is cast to. -/
def castTo (c : ℕ) (v : ℤ) : ℕ := (BitVec.ofInt c v).toNat

/-- A cast keeps the low bits. -/
theorem castTo_eq (c : ℕ) (v : ℤ) : (castTo c v : ℤ) = v % 2 ^ c := by
  rw [castTo, BitVec.toNat_ofInt, Int.toNat_of_nonneg (Int.emod_nonneg _ (by positivity))]
  norm_cast

/-- A value that fits is not changed by the cast. -/
theorem castTo_of_lt {c x : ℕ} (hx : x < 2 ^ c) : castTo c x = x := by
  have hcast := castTo_eq c x
  rw [Int.emod_eq_of_lt (by positivity) (by exact_mod_cast hx)] at hcast
  exact_mod_cast hcast

/-- What a line of a `SET` macro stores is a byte of the argument. -/
theorem toNat_byteToSet (c : ℕ) (v : ℤ) (k : ℕ) :
    (byteToSet c v (8 * k)).toNat = byteOf (castTo c v) k := by
  have hmask : (0xFF : BitVec (max 32 c)).toNat = 2 ^ 8 - 1 := by
    rw [show (0xFF : BitVec (max 32 c)) = BitVec.ofNat (max 32 c) 0xFF from rfl,
      BitVec.toNat_ofNat]
    exact Nat.mod_eq_of_lt (lt_of_lt_of_le (by decide)
      (Nat.pow_le_pow_right (show 0 < 2 by decide) (le_max_left 32 c)))
  rw [byteToSet, UInt8.toNat, BitVec.toNat_setWidth, BitVec.toNat_and, BitVec.toNat_ushiftRight,
    toNat_promote _ (le_max_right _ _), hmask, Nat.and_two_pow_sub_one_eq_mod, Nat.mod_mod]
  rfl

/-- A `SET` macro with a value stores its bytes. -/
theorem setBytes_map (v : ℤ) {p : ℕ} (offsets : List ℕ) {memory : List UInt8}
    (hoffsets : ∀ k ∈ offsets, p + k < memory.length) :
    setBytes c p (fun _ => some v) (offsets.map fun k => (k, 8 * order.place k)) memory =
      some (offsets.foldl
        (fun memory k => memory.set (p + k) (byteToSet c v (8 * order.place k))) memory) := by
  induction offsets generalizing memory with
  | nil => rfl
  | cons k offsets ih =>
    have hk := hoffsets k List.mem_cons_self
    have hstill : ∀ j ∈ offsets,
        p + j < (memory.set (p + k) (byteToSet c v (8 * order.place k))).length :=
      fun j hj => by simpa using hoffsets j (List.mem_cons_of_mem _ hj)
    simpa [setBytes, hk] using ih hstill

/-- **A `SET` macro** writes the bytes of a number in its order. -/
theorem setBytes_linesOf (v : ℤ) {memory : List UInt8} {p : ℕ} (hroom : p + n ≤ memory.length) :
    setBytes c p (fun _ => some v) (linesOf order) memory =
      some (store memory p n fun k => .ofNat (order.write (castTo c v) k)) := by
  rw [linesOf, setBytes_map order v (List.range n)
    fun k hk => by have := List.mem_range.mp hk; omega]
  have hbyte : ∀ k, byteToSet c v (8 * order.place k) = .ofNat (order.write (castTo c v) k) := by
    intro k
    apply UInt8.toNat.inj
    rw [toNat_byteToSet, UInt8.toNat_ofNat']
    exact (Nat.mod_eq_of_lt (byteOf_lt _ _)).symm
  simp only [hbyte, store]

/-- What a `SET` macro has written a `GET` macro reads. -/
theorem getBytes_store (hfits : 8 * n ≤ c) {memory : List UInt8} {p : ℕ}
    (hroom : p + n ≤ memory.length) (x : ℕ) :
    getBytes c (linesOf order) (store memory p n fun k => .ofNat (order.write x k)) p =
      some ((x % 256 ^ n : ℕ) : ℤ) := by
  rw [getBytes_linesOf order hfits (by rw [length_store]; exact hroom), ← order.read_write x]
  congr 2
  refine order.read_congr fun k hk => ?_
  obtain ⟨byte, hbyte, hbyteAt⟩ := getElem?_eq_byteAt (show p + k <
    (store memory p n fun k => UInt8.ofNat (order.write x k)).length by rw [length_store]; omega)
  rw [getElem?_store_inside hk hroom, Option.some.injEq] at hbyte
  rw [← hbyteAt, ← hbyte, UInt8.toNat_ofNat']
  exact Nat.mod_eq_of_lt (byteOf_lt _ _)

/-- A `SET` macro whose argument has, for the memory, the bytes that are there changes nothing:
every line finds the memory as the first did. -/
theorem setBytes_map_same {v : List UInt8 → Option ℤ} {memory : List UInt8} {p : ℕ} {value : ℤ}
    (hv : v memory = some value) (offsets : List ℕ)
    (hsame : ∀ k ∈ offsets, memory[p + k]? = some (byteToSet c value (8 * order.place k))) :
    setBytes c p v (offsets.map fun k => (k, 8 * order.place k)) memory = some memory := by
  induction offsets with
  | nil => rfl
  | cons k offsets ih =>
    have hhere := hsame k List.mem_cons_self
    obtain ⟨hk, hbyte⟩ := List.getElem?_eq_some_iff.mp hhere
    have hset : memory.set (p + k) (byteToSet c value (8 * order.place k)) = memory := by
      rw [← hbyte, List.set_getElem_self]
    have hrest := ih fun j hj => hsame j (List.mem_cons_of_mem _ hj)
    simpa [setBytes, hv, hk, hset] using hrest

/-- Setting what was got changes nothing. -/
theorem setBytes_getBytes (hfits : 8 * n ≤ c) {memory : List UInt8} {p : ℕ}
    (hroom : p + n ≤ memory.length) :
    setBytes c p (fun memory => getBytes c (linesOf order) memory p) (linesOf order) memory =
      some memory := by
  have hbytes : ∀ k < n, byteAt memory p k < 256 := fun _ _ => byteAt_lt _ _ _
  have hread : order.read (byteAt memory p) < 2 ^ c :=
    (order.read_lt hbytes).trans_le (by
      rw [show 256 = 2 ^ 8 from rfl, ← pow_mul]
      exact Nat.pow_le_pow_right (by decide) hfits)
  refine setBytes_map_same order (getBytes_linesOf order hfits hroom) (List.range n) ?_
  intro k hk
  rw [List.mem_range] at hk
  obtain ⟨byte, hbyte, hbyteAt⟩ := getElem?_eq_byteAt (show p + k < memory.length by omega)
  rw [hbyte, Option.some.injEq]
  apply UInt8.toNat.inj
  rw [toNat_byteToSet, castTo_of_lt hread, hbyteAt]
  exact (order.write_read hbytes hk).symm

/-! ## Exchanging -/

/-- A line of a `SWAP` macro brings a byte to the place opposite. -/
theorem orSwapped_map {l : ℕ} (v : ℤ) (hcast : c ≤ max 32 l) (hfits : 8 * n ≤ c) (places : List ℕ)
    (hplaces : ∀ k ∈ places, k < n) :
    (orSwapped l c v (places.map fun k => (255 <<< (8 * (n - 1 - k)),
      if k < n - 1 - k then ByteShift.right (8 * (n - 1 - k - k))
      else ByteShift.left (8 * (k - (n - 1 - k)))))).toNat =
        joinBytes (places.map fun k => (byteOf (castTo c v) (n - 1 - k), k)) := by
  induction places with
  | nil => rfl
  | cons k places ih =>
    have hk := hplaces k List.mem_cons_self
    have hmasked : (promote l (BitVec.ofInt c v) &&&
        BitVec.ofNat (max 32 l) (255 <<< (8 * (n - 1 - k)))).toNat =
          byteOf (castTo c v) (n - 1 - k) <<< (8 * (n - 1 - k)) := by
      rw [BitVec.toNat_and, toNat_promote _ hcast, BitVec.toNat_ofNat,
        Nat.mod_eq_of_lt (shiftLeft_byte_lt (by decide) (by omega)), and_mask_eq]
      rfl
    have hrest := ih fun j hj => hplaces j (List.mem_cons_of_mem _ hj)
    rw [List.map_cons, List.map_cons, joinBytes]
    by_cases hlow : k < n - 1 - k
    · have hshift : 8 * (n - 1 - k) = 8 * k + 8 * (n - 1 - k - k) := by omega
      rw [if_pos hlow, orSwapped, BitVec.toNat_or, hrest, BitVec.toNat_ushiftRight, hmasked]
      nth_rewrite 1 [hshift]
      rw [Nat.shiftLeft_add, Nat.shiftLeft_shiftRight]
    · have hshift : 8 * (n - 1 - k) + 8 * (k - (n - 1 - k)) = 8 * k := by omega
      rw [if_neg hlow, orSwapped, BitVec.toNat_or, hrest, BitVec.toNat_shiftLeft, hmasked,
        ← Nat.shiftLeft_add, hshift,
        Nat.mod_eq_of_lt (shiftLeft_byte_lt (byteOf_lt _ _) (by omega))]

/-- **A `SWAP` macro** exchanges the bytes of its argument. -/
theorem swapBytes_swapLines {l : ℕ} (v : ℤ) (hcast : c ≤ max 32 l) (hfits : 8 * n ≤ c) :
    swapBytes l c (swapLines n) v = exchange n (castTo c v) := by
  rw [swapBytes, swapLines, orSwapped_map v hcast hfits (List.range n)
    fun k hk => List.mem_range.mp hk]
  rfl

end Ctools.Analysis

open Ctools.Library Ctools.Program Ctools.Analysis in
/-- **The byte-order macros are one codec.**  In each width, with `p` pointing to that many bytes
of a memory: in both orders `SET` succeeds, `GET` after it gives the value modulo `2 ^ w`, and no
byte outside is touched; to set what was got changes nothing; and the two orders differ by `SWAP`,
of what is got or of what is set, which is an involution below `2 ^ w`.
SOURCE: app_type.h:152-279 -/
theorem Ctools.Analysis.byte_order_codec (l : ℕ) (width : Width) (p : ℕ) (memory : List UInt8)
    (hroom : p + width.bytes ≤ memory.length) (v : ℤ) :
    (∀ endian, ∃ memory', setMacro width endian p (fun _ => some v) memory = some memory' ∧
      getMacro width endian memory' p = some (v % 2 ^ width.bits) ∧
      memory'.length = memory.length ∧
      ∀ i, i < p ∨ p + width.bytes ≤ i → memory'[i]? = memory[i]?) ∧
    (∀ endian, setMacro width endian p (fun memory => getMacro width endian memory p) memory =
      some memory) ∧
    getMacro width .msbfirst memory p =
      (getMacro width .lsbfirst memory p).map (swapMacro l width) ∧
    setMacro width .msbfirst p (fun _ => some v) memory =
      setMacro width .lsbfirst p (fun _ => some (swapMacro l width v)) memory ∧
    (0 ≤ v → v < 2 ^ width.bits → swapMacro l width (swapMacro l width v) = v) := by
  obtain ⟨hbits, hcast⟩ := width.fits
  have hfits : 8 * width.bytes ≤ width.cast := by omega
  have hpow : 256 ^ width.bytes = 2 ^ width.bits := by
    rw [show 256 = 2 ^ 8 from rfl, ← pow_mul, hbits]
  have hexchange : ∀ x, exchange width.bytes x < 2 ^ width.cast := fun x =>
    (exchange_lt _ x).trans_le (hpow ▸ Nat.pow_le_pow_right (by decide) hcast)
  have hswap : ∀ v, swapMacro l width v = exchange width.bytes (castTo width.cast v) := fun v => by
    rw [swapMacro_eq, swapBytes_swapLines v (width.cast_le_mask l) hfits]
  simp only [getMacro_eq, setMacro_eq, hswap]
  refine ⟨fun endian => ⟨_, setBytes_linesOf _ v hroom, ?_, length_store _ _ _ _,
    fun i hi => getElem?_store_outside hi⟩, fun endian => setBytes_getBytes _ hfits hroom, ?_, ?_,
    fun hnonneg hlt => ?_⟩
  · rw [getBytes_store _ hfits hroom, hpow, Int.natCast_mod, castTo_eq]
    push_cast
    rw [Int.emod_emod_of_dvd _ (pow_dvd_pow 2 hcast)]
  · have hread : (lsbFirst width.bytes).read (byteAt memory p) < 2 ^ width.cast :=
      ((lsbFirst _).read_lt fun _ _ => byteAt_lt _ _ _).trans_le
        (hpow ▸ Nat.pow_le_pow_right (by decide) hcast)
    rw [Endian.order, getBytes_linesOf _ hfits hroom, Endian.order, getBytes_linesOf _ hfits hroom,
      Option.map_some, hswap, castTo_of_lt hread, read_msbFirst fun _ _ => byteAt_lt _ _ _]
  · rw [setBytes_linesOf _ v hroom, setBytes_linesOf _ _ hroom, castTo_of_lt (hexchange _)]
    congr 1
    refine store_congr memory fun k hk => ?_
    rw [Endian.order, Endian.order, write_msbFirst _ hk]
  · obtain ⟨x, rfl⟩ := Int.eq_ofNat_of_zero_le hnonneg
    have hx : x < 2 ^ width.bits := by exact_mod_cast hlt
    rw [castTo_of_lt (hexchange _),
      castTo_of_lt (hx.trans_le (Nat.pow_le_pow_right (by decide) hcast)),
      exchange_exchange (hpow ▸ hx)]

open Ctools.Library Ctools.Program Ctools.Analysis in
/-- The theorem at the 24-bit macros, inside a memory of five bytes. -/
theorem Ctools.Analysis.byte_order_codec_u24 :
    setU24Msbfirst 1 (fun _ => some 0x1234567) [1, 2, 3, 4, 5] = some [1, 0x23, 0x45, 0x67, 5] ∧
      getU24Msbfirst [1, 0x23, 0x45, 0x67, 5] 1 = some 0x234567 ∧
      swapU24 64 (swapU24 64 0x234567) = 0x234567 := by
  have hcodec := byte_order_codec 64 .u24 1 [1, 2, 3, 4, 5] (by decide) 0x1234567
  obtain ⟨memory', hset, hget, -⟩ := hcodec.1 .msbfirst
  have hwritten : setU24Msbfirst 1 (fun _ => some 0x1234567) [1, 2, 3, 4, 5] =
      some [1, 0x23, 0x45, 0x67, 5] := by decide
  obtain rfl : memory' = [1, 0x23, 0x45, 0x67, 5] := Option.some.inj (hset.symm.trans hwritten)
  exact ⟨hwritten, hget,
    (byte_order_codec 64 .u24 1 [1, 2, 3, 4, 5] (by decide) 0x234567).2.2.2.2 (by decide)
      (by decide)⟩
