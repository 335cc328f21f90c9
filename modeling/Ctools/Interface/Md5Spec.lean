import Ctools.Library.BlockStream
import Ctools.Library.ByteOrder
import Ctools.Program.Md5

/-!
# The MD5 sum of a message

The sum of a message in the terms of its definition, without a buffer, a byte order of a machine
or a text that is fast or small: the message is padded to whole blocks of 64 bytes, a block is
sixteen words with the least significant byte first, and each of 64 steps computes one register
from all four, with a function, a word, a shift and a constant that its number settles.  The
constants are those of the program's table.
-/

set_option autoImplicit false

namespace Ctools.Interface

open Ctools.Library Ctools.Program

/-! ## A block -/

/-- The function of a step, from the round it is in. -/
def roundFunction (round : ℕ) (b c d : BitVec 32) : BitVec 32 :=
  match round with
  | 0 => b &&& c ||| ~~~b &&& d
  | 1 => d &&& b ||| ~~~d &&& c
  | 2 => b ^^^ c ^^^ d
  | _ => c ^^^ (b ||| ~~~d)

/-- Which of the sixteen words a step takes. -/
def wordIndex (step : ℕ) : ℕ :=
  match step / 16 with
  | 0 => step % 16
  | 1 => (5 * step + 1) % 16
  | 2 => (3 * step + 5) % 16
  | _ => 7 * step % 16

/-- By how much a step rotates. -/
def stepShift (step : ℕ) : ℕ :=
  match step / 16, step % 4 with
  | 0, i => 7 + 5 * i
  | 1, 0 => 5
  | 1, 1 => 9
  | 1, 2 => 14
  | 1, _ => 20
  | 2, 0 => 4
  | 2, 1 => 11
  | 2, 2 => 16
  | 2, _ => 23
  | _, 0 => 6
  | _, 1 => 10
  | _, 2 => 15
  | _, _ => 21

/-- The constant of a step. -/
def stepConstant (step : ℕ) : BitVec 32 := cArray.getD step 0

/-- One step, with the words of the block. -/
def md5Step (word : ℕ → BitVec 32) (step : ℕ) (r : Md5Regs) : Md5Regs where
  a := r.d
  b := (r.a + roundFunction (step / 16) r.b r.c r.d + word (wordIndex step) +
    stepConstant step).rotateLeft (stepShift step) + r.b
  c := r.b
  d := r.c

/-- The first `n` steps. -/
def md5Steps (word : ℕ → BitVec 32) (r : Md5Regs) : ℕ → Md5Regs
  | 0 => r
  | n + 1 => md5Step word n (md5Steps word r n)

/-- A word of a block. -/
def blockWord (block : List UInt8) (i : ℕ) : BitVec 32 :=
  BitVec.ofNat 32 ((lsbFirst 4).read fun k => (block.getD (4 * i + k) 0).toNat)

/-- The registers after a block. -/
def compress (r : Md5Regs) (block : List UInt8) : Md5Regs :=
  let r' := md5Steps (blockWord block) r 64
  ⟨r'.a + r.a, r'.b + r.b, r'.c + r.c, r'.d + r.d⟩

/-! ## A message -/

/-- The registers before the first block. -/
def md5Start : Md5Regs := ⟨0x67452301, 0xefcdab89, 0x98badcfe, 0x10325476⟩

/-- What is put behind a message of `n` bytes: a one bit, zeros up to eight bytes short of
whole blocks, and the number of bits, modulo `2 ^ 64`. -/
def md5Padding (n : ℕ) : List UInt8 :=
  0x80 :: List.replicate ((119 - n % 64) % 64) 0 ++
    (List.range 8).map fun k => UInt8.ofNat (byteOf (8 * n) k)

/-- The bytes of a word, the least significant first. -/
def wordBytes (x : BitVec 32) : List UInt8 :=
  (List.range 4).map fun k => UInt8.ofNat (byteOf x.toNat k)

/-- The bytes of the registers. -/
def regsBytes (r : Md5Regs) : List UInt8 :=
  wordBytes r.a ++ wordBytes r.b ++ wordBytes r.c ++ wordBytes r.d

/-- The sum of a message. -/
def md5 (message : List UInt8) : List UInt8 :=
  regsBytes (absorbAll compress 64 md5Start (message ++ md5Padding message.length))

end Ctools.Interface
