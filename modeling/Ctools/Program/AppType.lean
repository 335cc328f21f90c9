import Mathlib

/-!
# The bit and byte macros of `app_type.h`

An unsigned operand of `w` bits is a `BitVec w`; the macros are expanded at such
an operand, in the types that C promotes it to.  `int` and `unsigned int` have 32
bits: a narrower operand becomes an `int` that is not negative, and combined with
an `unsigned int` one of these.  A shift by 32 or more of a 32-bit operand is
undefined; the model's is zero.
-/

set_option autoImplicit false

namespace Ctools.Program

/-! ## Single bits

The data is a `uint32_t`; an `int` operand becomes an `unsigned int` beside it. -/

/-- `BIT`, an `int`; a shift by 31 or more is undefined.
SOURCE: app_type.h:57-60 -/
def bit (b : ℕ) : BitVec 32 := 1#32 <<< b

/-- `BIT_SET`: what it assigns to `data`.
SOURCE: app_type.h:72-75 -/
def bitSet (data : BitVec 32) (b : ℕ) : BitVec 32 := data ||| bit b

/-- `BIT_CLR`: what it assigns to `data`.
SOURCE: app_type.h:77-80 -/
def bitClr (data : BitVec 32) (b : ℕ) : BitVec 32 := data &&& ~~~bit b

/-- `BIT_TOGGLE`: what it assigns to `data`.
SOURCE: app_type.h:82-85 -/
def bitToggle (data : BitVec 32) (b : ℕ) : BitVec 32 := data ^^^ bit b

/-- `BIT_SET_MASK`: what it assigns to `data`.
SOURCE: app_type.h:87-90 -/
def bitSetMask (data mask : BitVec 32) : BitVec 32 := data ||| mask

/-- `BIT_CLR_MASK`: what it assigns to `data`.
SOURCE: app_type.h:92-95 -/
def bitClrMask (data mask : BitVec 32) : BitVec 32 := data &&& ~~~mask

/-- `BIT_TOGGLE_MASK`: what it assigns to `data`, with the complement of the mask.
SOURCE: app_type.h:97-100 -/
def bitToggleMask (data mask : BitVec 32) : BitVec 32 := data ^^^ ~~~mask

/-! ## Fields and reversals -/

/-- `SBF`.
SOURCE: app_type.h:103-105 -/
def sbf {w : ℕ} (value : BitVec w) (field : ℕ) : BitVec w := value <<< field

/-- `BITS_MASK`, an `unsigned int`.
SOURCE: app_type.h:108-110 -/
def bitsMask (n : ℕ) : BitVec 32 := ~~~(~~~0#32 <<< n)

/-- The value of a narrower operand in the type of the expression, which is at
least as wide as `unsigned int`. -/
def promote {v : ℕ} (w : ℕ) (value : BitVec v) : BitVec (max 32 w) := value.setWidth (max 32 w)

/-- `BITS_GET`.
SOURCE: app_type.h:113-115 -/
def bitsGet {w : ℕ} (data : BitVec w) (start len : ℕ) : BitVec (max 32 w) :=
  promote w data >>> start &&& promote w (bitsMask len)

/-- `BITS_SET` with a `uint32_t` value: what it assigns to `data`.  The
complement is taken of an `unsigned int`, before it meets `data`.
SOURCE: app_type.h:118-122 -/
def bitsSet {w : ℕ} (data : BitVec w) (start len : ℕ) (value : BitVec 32) : BitVec w :=
  (promote w data &&& promote w (~~~sbf (bitsMask len) start) |||
    promote w (sbf (value &&& bitsMask len) start)).setWidth w

/-- One line of a `BIT_REVERSE` macro, `v = ((v >> shift) & low) | ((v << shift) & high)`,
computed in `p` bits.
SOURCE: app_type.h:125-150 -/
def bitSwap (p : ℕ) {w : ℕ} (v : BitVec w) (shift : ℕ) (low high : BitVec p) : BitVec w :=
  ((v.setWidth p >>> shift) &&& low ||| (v.setWidth p <<< shift) &&& high).setWidth w

/-- `BIT_REVERSE_U8`.
SOURCE: app_type.h:125-129 -/
def bitReverseU8 (v8 : BitVec 8) : BitVec 8 :=
  let v8 := bitSwap 32 v8 1 0x55 0xaa
  let v8 := bitSwap 32 v8 2 0x33 0xcc
  bitSwap 32 v8 4 0x0f 0xf0

/-- `BIT_REVERSE_U16`.
SOURCE: app_type.h:130-135 -/
def bitReverseU16 (v16 : BitVec 16) : BitVec 16 :=
  let v16 := bitSwap 32 v16 1 0x5555 0xaaaa
  let v16 := bitSwap 32 v16 2 0x3333 0xcccc
  let v16 := bitSwap 32 v16 4 0x0f0f 0xf0f0
  bitSwap 32 v16 8 0x00ff 0xff00

/-- `BIT_REVERSE_U32`; the masks are `unsigned long`, whose bits from 32 on, if
it has any, are zero in all of them.
SOURCE: app_type.h:136-142 -/
def bitReverseU32 (v32 : BitVec 32) : BitVec 32 :=
  let v32 := bitSwap 32 v32 1 0x55555555 0xaaaaaaaa
  let v32 := bitSwap 32 v32 2 0x33333333 0xcccccccc
  let v32 := bitSwap 32 v32 4 0x0f0f0f0f 0xf0f0f0f0
  let v32 := bitSwap 32 v32 8 0x00ff00ff 0xff00ff00
  bitSwap 32 v32 16 0x0000ffff 0xffff0000

/-- `BIT_REVERSE_U64`, whose last line shifts by one.
SOURCE: app_type.h:143-150 -/
def bitReverseU64 (v64 : BitVec 64) : BitVec 64 :=
  let v64 := bitSwap 64 v64 1 0x5555555555555555 0xaaaaaaaaaaaaaaaa
  let v64 := bitSwap 64 v64 2 0x3333333333333333 0xcccccccccccccccc
  let v64 := bitSwap 64 v64 4 0x0f0f0f0f0f0f0f0f 0xf0f0f0f0f0f0f0f0
  let v64 := bitSwap 64 v64 8 0x00ff00ff00ff00ff 0xff00ff00ff00ff00
  let v64 := bitSwap 64 v64 16 0x0000ffff0000ffff 0xffff0000ffff0000
  bitSwap 64 v64 1 0x00000000ffffffff 0xffffffff00000000

/-! ## Byte order

The `GET` and `SET` macros work on the bytes of a memory from `p` on; an access outside it is
undefined behaviour and fails.  A line of such a macro is an offset and a shift. -/

/-- The or of the bytes of a `GET` macro.  A byte is cast to `c` bits and shifted in the type that
is promoted to.
SOURCE: app_type.h:152-185 -/
def orBytes (c : ℕ) (memory : List UInt8) (p : ℕ) : List (ℕ × ℕ) → Option (BitVec (max 32 c))
  | [] => some 0
  | (offset, shift) :: lines => do
      let byte ← memory[p + offset]?
      let rest ← orBytes c memory p lines
      pure (promote c (byte.toBitVec.setWidth c) <<< shift ||| rest)

/-- The value of a `GET` macro; an `int` is not negative here.
SOURCE: app_type.h:152-185 -/
def getBytes (c : ℕ) (lines : List (ℕ × ℕ)) (memory : List UInt8) (p : ℕ) : Option ℤ :=
  (orBytes c memory p lines).map fun value => (value.toNat : ℤ)

/-- `(((uintc_t)(v)) >> shift) & 0xFF`, as it is stored in a byte.
SOURCE: app_type.h:187-244 -/
def byteToSet (c : ℕ) (v : ℤ) (shift : ℕ) : UInt8 :=
  ⟨(promote c (BitVec.ofInt c v) >>> shift &&& 0xFF).setWidth 8⟩

/-- The assignments of a `SET` macro.  Each expands its argument `v` again, an expression that
may read the memory.
SOURCE: app_type.h:187-244 -/
def setBytes (c : ℕ) (p : ℕ) (v : List UInt8 → Option ℤ) :
    List (ℕ × ℕ) → List UInt8 → Option (List UInt8)
  | [], memory => some memory
  | (offset, shift) :: lines, memory => do
      let value ← v memory
      if p + offset < memory.length then
        setBytes c p v lines (memory.set (p + offset) (byteToSet c value shift))
      else none

/-- A shift of a `SWAP` macro. -/
inductive ByteShift where
  | right (n : ℕ)
  | left (n : ℕ)
deriving DecidableEq

/-- The or of a `SWAP` macro: each line masks the argument, cast to `c` bits, and shifts it, in the
type that a mask of `l` bits is promoted to.
SOURCE: app_type.h:263-279 -/
def orSwapped (l c : ℕ) (v : ℤ) : List (ℕ × ByteShift) → BitVec (max 32 l)
  | [] => 0
  | (mask, shift) :: lines =>
      let masked := promote l (BitVec.ofInt c v) &&& BitVec.ofNat (max 32 l) mask
      (match shift with
        | .right n => masked >>> n
        | .left n => masked <<< n) ||| orSwapped l c v lines

/-- The value of a `SWAP` macro; an `int` is not negative here.
SOURCE: app_type.h:263-279 -/
def swapBytes (l c : ℕ) (lines : List (ℕ × ByteShift)) (v : ℤ) : ℤ := (orSwapped l c v lines).toNat

/-- `GET_U16_MSBFIRST`.
SOURCE: app_type.h:152-153 -/
def getU16Msbfirst (memory : List UInt8) (p : ℕ) : Option ℤ := getBytes 16 [(0, 8), (1, 0)] memory p

/-- `GET_U24_MSBFIRST`.
SOURCE: app_type.h:154-156 -/
def getU24Msbfirst (memory : List UInt8) (p : ℕ) : Option ℤ :=
  getBytes 32 [(0, 16), (1, 8), (2, 0)] memory p

/-- `GET_U32_MSBFIRST`.
SOURCE: app_type.h:157-160 -/
def getU32Msbfirst (memory : List UInt8) (p : ℕ) : Option ℤ :=
  getBytes 32 [(0, 24), (1, 16), (2, 8), (3, 0)] memory p

/-- `GET_U64_MSBFIRST`.
SOURCE: app_type.h:161-168 -/
def getU64Msbfirst (memory : List UInt8) (p : ℕ) : Option ℤ :=
  getBytes 64 [(0, 56), (1, 48), (2, 40), (3, 32), (4, 24), (5, 16), (6, 8), (7, 0)] memory p

/-- `GET_U16_LSBFIRST`.
SOURCE: app_type.h:169-170 -/
def getU16Lsbfirst (memory : List UInt8) (p : ℕ) : Option ℤ := getBytes 16 [(0, 0), (1, 8)] memory p

/-- `GET_U24_LSBFIRST`.
SOURCE: app_type.h:171-173 -/
def getU24Lsbfirst (memory : List UInt8) (p : ℕ) : Option ℤ :=
  getBytes 32 [(0, 0), (1, 8), (2, 16)] memory p

/-- `GET_U32_LSBFIRST`.
SOURCE: app_type.h:174-177 -/
def getU32Lsbfirst (memory : List UInt8) (p : ℕ) : Option ℤ :=
  getBytes 32 [(0, 0), (1, 8), (2, 16), (3, 24)] memory p

/-- `GET_U64_LSBFIRST`.
SOURCE: app_type.h:178-185 -/
def getU64Lsbfirst (memory : List UInt8) (p : ℕ) : Option ℤ :=
  getBytes 64 [(0, 0), (1, 8), (2, 16), (3, 24), (4, 32), (5, 40), (6, 48), (7, 56)] memory p

/-- `SET_U16_MSBFIRST`.
SOURCE: app_type.h:187-191 -/
def setU16Msbfirst (p : ℕ) (v : List UInt8 → Option ℤ) (memory : List UInt8) :
    Option (List UInt8) :=
  setBytes 16 p v [(0, 8), (1, 0)] memory

/-- `SET_U24_MSBFIRST`.
SOURCE: app_type.h:192-197 -/
def setU24Msbfirst (p : ℕ) (v : List UInt8 → Option ℤ) (memory : List UInt8) :
    Option (List UInt8) :=
  setBytes 32 p v [(0, 16), (1, 8), (2, 0)] memory

/-- `SET_U32_MSBFIRST`.
SOURCE: app_type.h:198-204 -/
def setU32Msbfirst (p : ℕ) (v : List UInt8 → Option ℤ) (memory : List UInt8) :
    Option (List UInt8) :=
  setBytes 32 p v [(0, 24), (1, 16), (2, 8), (3, 0)] memory

/-- `SET_U64_MSBFIRST`.
SOURCE: app_type.h:205-215 -/
def setU64Msbfirst (p : ℕ) (v : List UInt8 → Option ℤ) (memory : List UInt8) :
    Option (List UInt8) :=
  setBytes 64 p v [(0, 56), (1, 48), (2, 40), (3, 32), (4, 24), (5, 16), (6, 8), (7, 0)] memory

/-- `SET_U16_LSBFIRST`.
SOURCE: app_type.h:216-220 -/
def setU16Lsbfirst (p : ℕ) (v : List UInt8 → Option ℤ) (memory : List UInt8) :
    Option (List UInt8) :=
  setBytes 16 p v [(0, 0), (1, 8)] memory

/-- `SET_U24_LSBFIRST`.
SOURCE: app_type.h:221-226 -/
def setU24Lsbfirst (p : ℕ) (v : List UInt8 → Option ℤ) (memory : List UInt8) :
    Option (List UInt8) :=
  setBytes 32 p v [(0, 0), (1, 8), (2, 16)] memory

/-- `SET_U32_LSBFIRST`.
SOURCE: app_type.h:227-233 -/
def setU32Lsbfirst (p : ℕ) (v : List UInt8 → Option ℤ) (memory : List UInt8) :
    Option (List UInt8) :=
  setBytes 32 p v [(0, 0), (1, 8), (2, 16), (3, 24)] memory

/-- `SET_U64_LSBFIRST`.
SOURCE: app_type.h:234-244 -/
def setU64Lsbfirst (p : ℕ) (v : List UInt8 → Option ℤ) (memory : List UInt8) :
    Option (List UInt8) :=
  setBytes 64 p v [(0, 0), (1, 8), (2, 16), (3, 24), (4, 32), (5, 40), (6, 48), (7, 56)] memory

/-- `SWAP_U16`.
SOURCE: app_type.h:263-264 -/
def swapU16 (v : ℤ) : ℤ := swapBytes 16 16 [(0xFF00, .right 8), (0x00FF, .left 8)] v

/-- `SWAP_U24`; the masks are `unsigned long`, of `l` bits.
SOURCE: app_type.h:265-267 -/
def swapU24 (l : ℕ) (v : ℤ) : ℤ :=
  swapBytes l 32 [(0x00FF0000, .right 16), (0x0000FF00, .left 0), (0x000000FF, .left 16)] v

/-- `SWAP_U32`; the masks are `unsigned long`, of `l` bits.
SOURCE: app_type.h:268-271 -/
def swapU32 (l : ℕ) (v : ℤ) : ℤ :=
  swapBytes l 32 [(0xFF000000, .right 24), (0x00FF0000, .right 8), (0x0000FF00, .left 8),
    (0x000000FF, .left 24)] v

/-- `SWAP_U64`.
SOURCE: app_type.h:272-279 -/
def swapU64 (v : ℤ) : ℤ :=
  swapBytes 64 64 [(0xFF00000000000000, .right 56), (0x00FF000000000000, .right 40),
    (0x0000FF0000000000, .right 24), (0x000000FF00000000, .right 8),
    (0x00000000FF000000, .left 8), (0x0000000000FF0000, .left 24),
    (0x000000000000FF00, .left 40), (0x00000000000000FF, .left 56)] v

end Ctools.Program
