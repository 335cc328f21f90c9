import Mathlib

/-!
# The bitmap of `bitmap.h`

A bitmap is the block of bytes its pointer points to.  Positions are `int`s that
the functions below take and build from 0 upwards, so they are natural numbers;
`intResult` is where one may exceed the largest `int`.  An access outside the block
and a signed overflow are undefined behaviour and fail.
-/

set_option autoImplicit false

namespace Ctools.Program

/-- A natural number that an `int` expression has to hold. -/
def intResult (n : ℕ) : Option ℕ := if n < 2 ^ 31 then some n else none

/-- `bitmap_all_set`.
SOURCE: bitmap.h:15-18 -/
def bitmapAllSet (bitmap : List UInt8) (size : ℕ) (enable : Bool) : Option (List UInt8) :=
  if size ≤ bitmap.length then
    some (List.replicate size (if enable then 0xFF else 0) ++ bitmap.drop size)
  else none

/-- What `bitmap_bit_set` assigns to a byte, from `int`s of 32 bits.
SOURCE: bitmap.h:22-25 -/
def setByteBit (byte : UInt8) (j : ℕ) (enable : Bool) : UInt8 :=
  let value := byte.toBitVec.setWidth 32
  let result := if enable then value ||| 1#32 <<< j else value &&& ~~~(1#32 <<< j)
  ⟨result.setWidth 8⟩

/-- `bitmap_bit_set`.
SOURCE: bitmap.h:20-26 -/
def bitmapBitSet (bitmap : List UInt8) (bit : ℕ) (enable : Bool) : Option (List UInt8) := do
  let byte ← bitmap[bit / 8]?
  pure (bitmap.set (bit / 8) (setByteBit byte (bit % 8) enable))

/-- `byte & (1 << j)`, as a condition.
SOURCE: bitmap.h:30, bitmap.h:42 -/
def byteBit (byte : UInt8) (j : ℕ) : Bool := byte.toNat &&& (1 <<< j) != 0

/-- `bitmap_bit_get`.
SOURCE: bitmap.h:28-31 -/
def bitmapBitGet (bitmap : List UInt8) (bit : ℕ) : Option Bool := do
  let byte ← bitmap[bit / 8]?
  pure (byteBit byte (bit % 8))

/-- The inner loop: from bit `j` on, `left = 8 - j` bits to go.  The result says
whether it left at a set bit, and where it left the cursor `j`.
SOURCE: bitmap.h:41-45 -/
def scanByte (byte : UInt8) : ℕ → ℕ → Bool × ℕ
  | 0, j => (false, j)
  | left + 1, j => if byteBit byte j then (true, j) else scanByte byte left (j + 1)

/-- The outer loop: from byte `i` on, `left = size - i` bytes to go, with the
cursor `j` that the inner loop shares.
SOURCE: bitmap.h:38-47 -/
def searchBytes (bitmap : List UInt8) : ℕ → ℕ → ℕ → Option ℤ
  | 0, _, _ => some (-1)
  | left + 1, i, j => do
      let byte ← bitmap[i]?
      if byte = 0 then
        searchBytes bitmap left (i + 1) j
      else
        match scanByte byte (8 - j) j with
        | (true, j) => do
            let bit ← intResult (i * 8 + j)
            pure bit
        | (false, j) => searchBytes bitmap left (i + 1) j

/-- `bitmap_next_enable_bit_get`.
SOURCE: bitmap.h:33-48 -/
def bitmapNextEnableBitGet (bitmap : List UInt8) (size startBit : ℕ) : Option ℤ :=
  let i := startBit / 8
  let j := startBit % 8
  searchBytes bitmap (size - i) i j

/-- The bits that the body of `bitmap_foreach` is run for, from a search at `bit`
on; `fuel` bounds the searches.
SOURCE: bitmap.h:50-52 -/
def bitmapForeach (bitmap : List UInt8) (size : ℕ) : ℕ → ℕ → Option (List ℕ)
  | 0, _ => none
  | fuel + 1, bit => do
      let found ← bitmapNextEnableBitGet bitmap size bit
      if found ≥ 0 then do
        let bit := found.toNat
        let next ← intResult (bit + 1)
        let visited ← bitmapForeach bitmap size fuel next
        pure (bit :: visited)
      else
        pure []

end Ctools.Program
