import Ctools.Library.Memory
import Ctools.Library.CountedLoop

/-!
# The block cipher: `speck.c`

A block is two words, and a round changes both under a round key; there are 26 rounds.  Memory is
a list of bytes, and what is read or written outside of it fails.
-/

set_option autoImplicit false

namespace Ctools.Program

open Ctools.Library

/-- `SPECK64_96_NROUNDS`.
SOURCE: speck.h:15 -/
def SPECK64_96_NROUNDS : ℕ := 26

/-- `rol32`, for a shift below 32.
SOURCE: speck.c:36-39 -/
def rol32 (word : BitVec 32) (shift : BitVec 8) : BitVec 32 :=
  word <<< shift.toNat ||| word >>> (-shift &&& 31).toNat

/-- `ror32`, for a shift from 1 to 31.
SOURCE: speck.c:46-49 -/
def ror32 (word : BitVec 32) (shift : BitVec 8) : BitVec 32 :=
  word >>> shift.toNat ||| word <<< (32 - shift.toNat)

/-- The bytes of `get_unaligned_le32` put together.
SOURCE: speck.c:53 -/
def bytesLe32 (cells : List UInt8) : BitVec 32 :=
  let byte (k : ℕ) : BitVec 32 := (cells.getD k 0).toBitVec.setWidth 32
  byte 0 ||| byte 1 <<< 8 ||| byte 2 <<< 16 ||| byte 3 <<< 24

/-- `get_unaligned_le32`.
SOURCE: speck.c:51-54 -/
def getUnalignedLe32 (memory : List UInt8) (p : ℕ) : Option (BitVec 32) := do
  let cells ← readCells memory p 4
  pure (bytesLe32 cells)

/-- What `put_unaligned_le32` stores.
SOURCE: speck.c:67-70 -/
def le32Bytes (val : BitVec 32) : List UInt8 :=
  let low (x : BitVec 32) : UInt8 := ⟨x.setWidth 8⟩
  [low (val &&& 255), low (val >>> 8 &&& 255), low (val >>> 16 &&& 255), low (val >>> 24)]

/-- `put_unaligned_le32`.
SOURCE: speck.c:63-71 -/
def putUnalignedLe32 (val : BitVec 32) (memory : List UInt8) (p : ℕ) : Option (List UInt8) :=
  writeCells memory p (le32Bytes val)

/-- The words that a round changes. -/
structure Speck64Words where
  x : BitVec 32
  y : BitVec 32
deriving DecidableEq

/-- `speck64_round`.
SOURCE: speck.c:75-82 -/
def speck64Round (s : Speck64Words) (k : BitVec 32) : Speck64Words :=
  let x := ror32 s.x 8
  let x := x + s.y
  let x := x ^^^ k
  let y := rol32 s.y 3
  let y := y ^^^ x
  ⟨x, y⟩

/-- `speck64_unround`.
SOURCE: speck.c:84-91 -/
def speck64Unround (s : Speck64Words) (k : BitVec 32) : Speck64Words :=
  let y := s.y ^^^ s.x
  let y := ror32 y 3
  let x := s.x ^^^ k
  let x := x - y
  let x := rol32 x 8
  ⟨x, y⟩

/-- `speck64_t`.
SOURCE: speck.h:17-19 -/
structure Speck64 where
  roundKeys : Vector (BitVec 32) SPECK64_96_NROUNDS

/-- The loops of `crypto_speck64_cal`.
SOURCE: speck.c:100-106 -/
def speck64Rounds (ctx : Speck64) (isEncrypt : Bool) (s : Speck64Words) : Option Speck64Words :=
  if isEncrypt then
    forTurns SPECK64_96_NROUNDS (fun i s => (ctx.roundKeys[i]?).map (speck64Round s)) s
  else
    forTurns SPECK64_96_NROUNDS
      (fun i s => (ctx.roundKeys[SPECK64_96_NROUNDS - 1 - i]?).map (speck64Unround s)) s

/-- `crypto_speck64_cal`; the result is the memory at `out`.
SOURCE: speck.c:93-110 -/
def cryptoSpeck64Cal (ctx : Speck64) (isEncrypt : Bool) (out inp : List UInt8) :
    Option (List UInt8) := do
  let y ← getUnalignedLe32 inp 0
  let x ← getUnalignedLe32 inp 4
  let s ← speck64Rounds ctx isEncrypt ⟨x, y⟩
  let out ← putUnalignedLe32 s.y out 0
  putUnalignedLe32 s.x out 4

/-- The variables of `crypto_speck64_setkey`. -/
structure SetkeyVars where
  ctx : Speck64
  l : Vector (BitVec 32) 2
  k : BitVec 32

/-- A turn of its loop.
SOURCE: speck.c:122-123 -/
def setkeyTurn (i : ℕ) (v : SetkeyVars) : Option SetkeyVars := do
  let ctx : Speck64 := ⟨v.ctx.roundKeys.setIfInBounds i v.k⟩
  let x ← v.l[i % 2]?
  let s := speck64Round ⟨x, v.k⟩ (BitVec.ofNat 32 i)
  pure ⟨ctx, v.l.setIfInBounds (i % 2) s.x, s.y⟩

/-- `crypto_speck64_setkey`.
SOURCE: speck.c:112-125 -/
def cryptoSpeck64Setkey (ctx : Speck64) (key : List UInt8) : Option Speck64 := do
  let k ← getUnalignedLe32 key 0
  let l₀ ← getUnalignedLe32 key 4
  let l₁ ← getUnalignedLe32 key 8
  let v ← forTurns SPECK64_96_NROUNDS setkeyTurn ⟨ctx, #v[l₀, l₁], k⟩
  pure v.ctx

end Ctools.Program
