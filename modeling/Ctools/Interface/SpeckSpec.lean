import Ctools.Program.Speck

/-!
# What the block cipher is for

Under a key of three words the round keys are those of the schedule: two sequences, each word of
the one computed from the last words of both.  A cipher is for getting back what was enciphered.
-/

set_option autoImplicit false

namespace Ctools.Interface

open Ctools.Program

/-- A round key, with the two words the schedule goes on from. -/
structure ScheduleWords where
  k : BitVec 32
  l : BitVec 32
  lNext : BitVec 32

/-- The schedule from the words of a key: `l` grows by
`l (i + 2) = (k i + ror (l i) 8) xor i`, and `k (i + 1) = rol (k i) 3 xor l (i + 2)`. -/
def keySchedule (start : ScheduleWords) : ℕ → ScheduleWords
  | 0 => start
  | i + 1 =>
      let before := keySchedule start i
      let lBehind := (before.k + before.l.rotateRight 8) ^^^ BitVec.ofNat 32 i
      ⟨before.k.rotateLeft 3 ^^^ lBehind, before.lNext, lBehind⟩

/-- The words of a key of twelve bytes. -/
def keyWords (key : List UInt8) : ScheduleWords :=
  ⟨bytesLe32 (key.take 4), bytesLe32 ((key.drop 4).take 4), bytesLe32 ((key.drop 8).take 4)⟩

end Ctools.Interface
