import Ctools.Library.Loop

/-!
# The BCD conversions of `app_utils.c`

A source pointer is the list of the cells from it on, a destination the list of
the cells stored through it, in order; the destination blocks are as large as
the stores need.  Reading past the source's cells and outside a table is
undefined behaviour and fails, as `Fault` says.  The loops run for at most
`fuel` turns.

`isupper`, `isdigit` and `islower` are those of the C locale, where a negative
character is of none of the classes.
-/

set_option autoImplicit false

namespace Ctools.Program

open Ctools.Library

/-- How a conversion fails. -/
inductive Fault where
  | read
  | table
deriving DecidableEq

/-- `bcd2ascii`.
SOURCE: app_utils.c:11 -/
def bcd2ascii : List UInt8 :=
  [0x30, 0x31, 0x32, 0x33, 0x34, 0x35, 0x36, 0x37, 0x38, 0x39, 0x61, 0x62, 0x63, 0x64, 0x65, 0x66]

/-- `ascii2bcd1`.
SOURCE: app_utils.c:12 -/
def ascii2bcd1 : List UInt8 := [0, 1, 2, 3, 4, 5, 6, 7, 8, 9]

/-- `ascii2bcd2`.
SOURCE: app_utils.c:13 -/
def ascii2bcd2 : List UInt8 := [0x0A, 0x0B, 0x0C, 0x0D, 0x0E, 0x0F]

/-- `ascii2bcd3`.
SOURCE: app_utils.c:14 -/
def ascii2bcd3 : List UInt8 := [0x0a, 0x0b, 0x0c, 0x0d, 0x0e, 0x0f]

/-- `isupper`, from `'A'` to `'Z'`. -/
def isupper (ch : Int8) : Bool := 0x41 ≤ ch ∧ ch ≤ 0x5a

/-- `isdigit`, from `'0'` to `'9'`. -/
def isdigit (ch : Int8) : Bool := 0x30 ≤ ch ∧ ch ≤ 0x39

/-- `islower`, from `'a'` to `'z'`. -/
def islower (ch : Int8) : Bool := 0x61 ≤ ch ∧ ch ≤ 0x7a

/-- `table[index]`. -/
def lookup (table : List UInt8) (index : UInt8) : Except Fault UInt8 :=
  (table[index.toNat]?).elim (.error .table) .ok

/-- `*ptr`. -/
def deref {α : Type} (ptr : List α) : Except Fault α := ptr.head?.elim (.error .read) .ok

/-- The dispatch on a character, the same for both digits of a byte: the value
its table gives, and nothing if it is of no class.  `index` is a `uint8_t`.
SOURCE: app_utils.c:26-35, app_utils.c:39-48 -/
def asc2bcdDigit (ch : Int8) : Except Fault (Option UInt8) :=
  if isupper ch then
    let index := ch.toUInt8 - 0x41
    (lookup ascii2bcd2 index).map some
  else if isdigit ch then
    let index := ch.toUInt8 - 0x30
    (lookup ascii2bcd1 index).map some
  else if islower ch then
    let index := ch.toUInt8 - 0x61
    (lookup ascii2bcd3 index).map some
  else .ok none

/-- The variables of `asc2bcd`: the pointer it reads from, the bytes stored, and
the locals `c` and `i`.
SOURCE: app_utils.c:16-20 -/
structure Asc2bcd where
  asc : List Int8
  bcd : List UInt8
  c : UInt8
  i : UInt8
deriving DecidableEq

/-- The body of the loop, and its `i++`: a first digit sets `c`, a second is
added to it, and a character of no class leaves it as it is.
SOURCE: app_utils.c:24-52 -/
def asc2bcdBody (s : Asc2bcd) : Except Fault Asc2bcd := do
  let first ← deref s.asc
  let digit ← asc2bcdDigit first
  let c := (digit.map fun v : UInt8 => v <<< 4).getD s.c
  let second ← deref s.asc.tail
  let digit ← asc2bcdDigit second
  let c := (digit.map fun v : UInt8 => c ||| v).getD c
  pure { asc := s.asc.tail.tail, bcd := s.bcd ++ [c], c := c, i := s.i + 1 }

/-- `i < len`, where both are an `int`.
SOURCE: app_utils.c:24 -/
def asc2bcdCond (len : Int32) (s : Asc2bcd) : Bool := (s.i.toNat : ℤ) < len.toInt

/-- The loop, `len` being what `len >>= 1` left.
SOURCE: app_utils.c:24-52 -/
def asc2bcdTurn (len : Int32) : Asc2bcd → Except Fault (Turn Asc2bcd) :=
  whileTurn (asc2bcdCond len) asc2bcdBody

/-- The variables before the loop.
SOURCE: app_utils.c:18-20 -/
def asc2bcdStart (asc : List Int8) : Asc2bcd := { asc := asc, bcd := [], c := 0, i := 0 }

/-- `asc2bcd`; the result is what it returns and the bytes it stored.
SOURCE: app_utils.c:16-55 -/
def asc2bcd (fuel : ℕ) (asc : List Int8) (len : Int32) :
    Option (Except Fault (UInt32 × List UInt8)) :=
  let len := len >>> 1
  (runLoop (asc2bcdTurn len) fuel (asc2bcdStart asc)).map fun result =>
    result.map fun s => (0, s.bcd)

/-- The variables of `bcd2asc`: the pointer it reads from, the characters
stored, and `i`.  The body sets `c` before it reads it.
SOURCE: app_utils.c:57-61 -/
structure Bcd2asc where
  bcd : List UInt8
  asc : List Int8
  i : UInt8
deriving DecidableEq

/-- The body of the loop, and its `i++`.
SOURCE: app_utils.c:63-72 -/
def bcd2ascBody (s : Bcd2asc) : Except Fault Bcd2asc := do
  let byte ← deref s.bcd
  let c := byte >>> 4
  let first ← lookup bcd2ascii c
  let c := byte &&& 0x0f
  let second ← lookup bcd2ascii c
  pure { bcd := s.bcd.tail, asc := s.asc ++ [first.toInt8, second.toInt8], i := s.i + 1 }

/-- `i < len`, where `len` is a `uint32_t`.
SOURCE: app_utils.c:63 -/
def bcd2ascCond (len : UInt32) (s : Bcd2asc) : Bool := s.i.toUInt32 < len

/-- The loop.
SOURCE: app_utils.c:63-72 -/
def bcd2ascTurn (len : UInt32) : Bcd2asc → Except Fault (Turn Bcd2asc) :=
  whileTurn (bcd2ascCond len) bcd2ascBody

/-- The variables before the loop.
SOURCE: app_utils.c:59-63 -/
def bcd2ascStart (bcd : List UInt8) : Bcd2asc := { bcd := bcd, asc := [], i := 0 }

/-- `bcd2asc`; the result is the characters it stored from `asc` on, the pointer
it returns.
SOURCE: app_utils.c:57-75 -/
def bcd2asc (fuel : ℕ) (bcd : List UInt8) (len : UInt32) : Option (Except Fault (List Int8)) :=
  (runLoop (bcd2ascTurn len) fuel (bcd2ascStart bcd)).map fun result => result.map fun s => s.asc

end Ctools.Program
