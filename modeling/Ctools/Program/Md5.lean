import Ctools.Library.ByteOrder
import Ctools.Library.CountedLoop
import Ctools.Library.Memory

/-!
# The MD5 sum of `md5.c`

`md5_uint32` is a `BitVec 32`; a pointer into a block is the block and an offset.
`size_t` has 64 bits, and a length is the number it holds.  The two settings that
the preprocessor reads are parameters: `speed` is `MD5SUM_SIZE_VS_SPEED`, which
picks one of four texts for the rounds, and `host` is the order of the bytes that
`__BYTE_ORDER` names.  An access outside its block or its table is `none`.
-/

set_option autoImplicit false

namespace Ctools.Program

open Ctools.Library

/-! ## Words -/

/-- `__BYTE_ORDER`.
SOURCE: md5.c:68-73 -/
inductive HostOrder where
  | littleEndian
  | bigEndian
deriving DecidableEq

/-- Which byte of a word a byte in memory is. -/
def HostOrder.order : HostOrder → ByteOrder 4
  | .littleEndian => lsbFirst 4
  | .bigEndian => msbFirst 4

/-- The word that a `md5_uint32` pointer points to. -/
def loadWord (host : HostOrder) (memory : List UInt8) (p : ℕ) : Option (BitVec 32) := do
  let cells ← readCells memory p 4
  pure (BitVec.ofNat 32 (host.order.read fun k => (cells.getD k 0).toNat))

/-- A word stored through a `md5_uint32` pointer. -/
def storeWord (host : HostOrder) (memory : List UInt8) (p : ℕ) (x : BitVec 32) :
    Option (List UInt8) :=
  writeCells memory p ((List.range 4).map fun k => UInt8.ofNat (host.order.write x.toNat k))

/-- `SWAP`.
SOURCE: md5.c:68-73 -/
def md5Swap : HostOrder → BitVec 32 → BitVec 32
  | .littleEndian, n => n
  | .bigEndian, n => n <<< 24 ||| (n &&& 65280) <<< 8 ||| (n &&& 16711680) >>> 8 ||| n >>> 24

/-- `CYCLIC`: what it assigns to `w`.
SOURCE: md5.c:59 -/
def cyclic (w : BitVec 32) (s : ℕ) : BitVec 32 := w <<< s ||| w >>> (32 - s)

/-- `FF`.
SOURCE: md5.c:251 -/
def ff (b c d : BitVec 32) : BitVec 32 := d ^^^ (b &&& (c ^^^ d))

/-- `FG`.
SOURCE: md5.c:252 -/
def fg (b c d : BitVec 32) : BitVec 32 := ff d b c

/-- `FH`.
SOURCE: md5.c:253 -/
def fh (b c d : BitVec 32) : BitVec 32 := b ^^^ c ^^^ d

/-- `FI`.
SOURCE: md5.c:254 -/
def fi (b c d : BitVec 32) : BitVec 32 := c ^^^ (b ||| ~~~d)

/-! ## Tables -/

/-- `C_array`.
SOURCE: md5.c:265-286 -/
def cArray : List (BitVec 32) := [
  0xd76aa478, 0xe8c7b756, 0x242070db, 0xc1bdceee,
  0xf57c0faf, 0x4787c62a, 0xa8304613, 0xfd469501,
  0x698098d8, 0x8b44f7af, 0xffff5bb1, 0x895cd7be,
  0x6b901122, 0xfd987193, 0xa679438e, 0x49b40821,
  0xf61e2562, 0xc040b340, 0x265e5a51, 0xe9b6c7aa,
  0xd62f105d, 0x2441453,  0xd8a1e681, 0xe7d3fbc8,
  0x21e1cde6, 0xc33707d6, 0xf4d50d87, 0x455a14ed,
  0xa9e3e905, 0xfcefa3f8, 0x676f02d9, 0x8d2a4c8a,
  0xfffa3942, 0x8771f681, 0x6d9d6122, 0xfde5380c,
  0xa4beea44, 0x4bdecfa9, 0xf6bb4b60, 0xbebfbc70,
  0x289b7ec6, 0xeaa127fa, 0xd4ef3085, 0x4881d05,
  0xd9d4d039, 0xe6db99e5, 0x1fa27cf8, 0xc4ac5665,
  0xf4292244, 0x432aff97, 0xab9423a7, 0xfc93a039,
  0x655b59c3, 0x8f0ccc92, 0xffeff47d, 0x85845dd1,
  0x6fa87e4f, 0xfe2ce6e0, 0xa3014314, 0x4e0811a1,
  0xf7537e82, 0xbd3af235, 0x2ad7d2bb, 0xeb86d391]

/-- The first line of `P_array`, which only the two small texts have.
SOURCE: md5.c:289-291 -/
def pArrayFirst : List ℕ := [0, 1, 2, 3, 4, 5, 6, 7, 8, 9, 10, 11, 12, 13, 14, 15]

/-- `P_array`.
SOURCE: md5.c:288-295 -/
def pArray (speed : Fin 4) : List ℕ :=
  (if speed > 1 then pArrayFirst else []) ++ [
    1, 6, 11, 0, 5, 10, 15, 4, 9, 14, 3, 8, 13, 2, 7, 12,
    5, 8, 11, 14, 1, 4, 7, 10, 13, 0, 3, 6, 9, 12, 15, 2,
    0, 7, 14, 5, 12, 3, 10, 1, 8, 15, 6, 13, 4, 11, 2, 9]

/-- `S_array`.
SOURCE: md5.c:298-303 -/
def sArray : List ℕ := [7, 12, 17, 22, 5, 9, 14, 20, 4, 11, 16, 23, 6, 10, 15, 21]

/-- An entry of a table, by a pointer that may stand before it. -/
def entryAt {α : Type} (table : List α) (i : ℤ) : Option α :=
  if 0 ≤ i then table[i.toNat]? else none

/-! ## The rounds, with the registers moved -/

/-- The variables `A`, `B`, `C`, `D`.
SOURCE: md5.c:307-310 -/
structure Md5Regs where
  a : BitVec 32
  b : BitVec 32
  c : BitVec 32
  d : BitVec 32
deriving DecidableEq

/-- The variables of the small texts: the registers and the pointers into the tables.
SOURCE: md5.c:330-334 -/
structure Md5Cursor where
  regs : Md5Regs
  pc : ℕ
  pp : ℕ
  ps : ℤ

/-- The body of the four loops, each with its function.
SOURCE: md5.c:369-372, 377-380, 384-387, 391-394 -/
def loopTurn (f : BitVec 32 → BitVec 32 → BitVec 32 → BitVec 32) (cwp : List (BitVec 32)) (i : ℕ)
    (s : Md5Cursor) : Option Md5Cursor := do
  let k ← (pArray 2)[s.pp]?
  let x ← cwp[k]?
  let t ← cArray[s.pc]?
  let shift ← entryAt sArray (s.ps + (i &&& 3 : ℕ))
  let temp := s.regs.a + f s.regs.b s.regs.c s.regs.d + x + t
  let temp := cyclic temp shift
  let temp := temp + s.regs.b
  pure ⟨⟨s.regs.d, temp, s.regs.b, s.regs.c⟩, s.pc + 1, s.pp + 1, s.ps⟩

/-- The rounds at speed 2: four loops.
SOURCE: md5.c:366-395 -/
def fourLoops (cwp : List (BitVec 32)) (regs : Md5Regs) : Option Md5Regs := do
  let s : Md5Cursor := ⟨regs, 0, 0, 0⟩
  let s ← forTurns 16 (loopTurn ff cwp) s
  let s ← forTurns 16 (loopTurn fg cwp) { s with ps := s.ps + 4 }
  let s ← forTurns 16 (loopTurn fh cwp) { s with ps := s.ps + 4 }
  let s ← forTurns 16 (loopTurn fi cwp) { s with ps := s.ps + 4 }
  pure s.regs

/-- What the `switch` of the one loop adds to `temp`.
SOURCE: md5.c:346-359 -/
def switchTerm (i : ℕ) (regs : Md5Regs) (temp : BitVec 32) : BitVec 32 :=
  match i >>> 4 with
  | 0 => temp + ff regs.b regs.c regs.d
  | 1 => temp + fg regs.b regs.c regs.d
  | 2 => temp + fh regs.b regs.c regs.d
  | 3 => temp + fi regs.b regs.c regs.d
  | _ => temp

/-- The body of the one loop.
SOURCE: md5.c:345-363 -/
def switchTurn (cwp : List (BitVec 32)) (i : ℕ) (s : Md5Cursor) : Option Md5Cursor := do
  let ps := if i &&& 0x0f = 0 then s.ps + 4 else s.ps
  let temp := switchTerm i s.regs s.regs.a
  let k ← (pArray 3)[s.pp]?
  let x ← cwp[k]?
  let t ← cArray[s.pc]?
  let temp := temp + (x + t)
  let shift ← entryAt sArray (ps + (i &&& 3 : ℕ))
  let temp := cyclic temp shift
  let temp := temp + s.regs.b
  pure ⟨⟨s.regs.d, temp, s.regs.b, s.regs.c⟩, s.pc + 1, s.pp + 1, ps⟩

/-- The rounds at speed 3: one loop.
SOURCE: md5.c:342-364 -/
def oneLoop (cwp : List (BitVec 32)) (regs : Md5Regs) : Option Md5Regs := do
  let s ← forTurns 64 (switchTurn cwp) ⟨regs, 0, 0, -4⟩
  pure s.regs

/-- `cwp[i] = SWAP(words[i])` for sixteen words.
SOURCE: md5.c:336-338 -/
def correctWords (host : HostOrder) (buffer : List UInt8) (words : ℕ) :
    Option (List (BitVec 32)) :=
  (List.range 16).mapM fun i => (loadWord host buffer (words + 4 * i)).map (md5Swap host)

/-! ## The rounds, with the names of the registers moved -/

/-- The name of a register. -/
inductive Reg where
  | A
  | B
  | C
  | D
deriving DecidableEq

/-- A register by its name. -/
def Md5Regs.get (regs : Md5Regs) : Reg → BitVec 32
  | .A => regs.a
  | .B => regs.b
  | .C => regs.c
  | .D => regs.d

/-- A register is written. -/
def Md5Regs.set (regs : Md5Regs) (r : Reg) (x : BitVec 32) : Md5Regs :=
  match r with
  | .A => { regs with a := x }
  | .B => { regs with b := x }
  | .C => { regs with c := x }
  | .D => { regs with d := x }

/-- The registers and the shift that a line of the unrolled texts names. -/
structure OpLine where
  a : Reg
  b : Reg
  c : Reg
  d : Reg
  s : ℕ
deriving DecidableEq

/-- What both `OP` macros do with a word `x` and a constant `t`.
SOURCE: md5.c:409-412, 462-464 -/
def op (f : BitVec 32 → BitVec 32 → BitVec 32 → BitVec 32) (line : OpLine) (x t : BitVec 32)
    (regs : Md5Regs) : Md5Regs :=
  let regs := regs.set line.a
    (regs.get line.a + (f (regs.get line.b) (regs.get line.c) (regs.get line.d) + x + t))
  let regs := regs.set line.a (cyclic (regs.get line.a) line.s)
  regs.set line.a (regs.get line.a + regs.get line.b)

/-- `OP` of the first round: it takes the next word and stores it through `cwp`.  The words
stored so far are `stored`.
SOURCE: md5.c:406-414 -/
def opFirst (host : HostOrder) (buffer : List UInt8) (words : ℕ) (line : OpLine) (t : BitVec 32)
    (regs : Md5Regs) (stored : List (BitVec 32)) : Option (Md5Regs × List (BitVec 32)) := do
  let word ← loadWord host buffer (words + 4 * stored.length)
  let x := md5Swap host word
  pure (op ff line x t regs, stored ++ [x])

/-- `OP` of the other rounds.
SOURCE: md5.c:459-466 -/
def opLater (f : BitVec 32 → BitVec 32 → BitVec 32 → BitVec 32) (stored : List (BitVec 32))
    (line : OpLine) (k : ℕ) (t : BitVec 32) (regs : Md5Regs) : Option Md5Regs := do
  let x ← stored[k]?
  pure (op f line x t regs)

/-- The first round at speed 0.
SOURCE: md5.c:437-452 -/
def unrolledFirst : List (OpLine × BitVec 32) := [
  (⟨.A, .B, .C, .D, 7⟩, 0xd76aa478),
  (⟨.D, .A, .B, .C, 12⟩, 0xe8c7b756),
  (⟨.C, .D, .A, .B, 17⟩, 0x242070db),
  (⟨.B, .C, .D, .A, 22⟩, 0xc1bdceee),
  (⟨.A, .B, .C, .D, 7⟩, 0xf57c0faf),
  (⟨.D, .A, .B, .C, 12⟩, 0x4787c62a),
  (⟨.C, .D, .A, .B, 17⟩, 0xa8304613),
  (⟨.B, .C, .D, .A, 22⟩, 0xfd469501),
  (⟨.A, .B, .C, .D, 7⟩, 0x698098d8),
  (⟨.D, .A, .B, .C, 12⟩, 0x8b44f7af),
  (⟨.C, .D, .A, .B, 17⟩, 0xffff5bb1),
  (⟨.B, .C, .D, .A, 22⟩, 0x895cd7be),
  (⟨.A, .B, .C, .D, 7⟩, 0x6b901122),
  (⟨.D, .A, .B, .C, 12⟩, 0xfd987193),
  (⟨.C, .D, .A, .B, 17⟩, 0xa679438e),
  (⟨.B, .C, .D, .A, 22⟩, 0x49b40821)]

/-- The second round at speed 0.
SOURCE: md5.c:478-493 -/
def unrolledSecond : List (OpLine × ℕ × BitVec 32) := [
  (⟨.A, .B, .C, .D, 5⟩, 1, 0xf61e2562),
  (⟨.D, .A, .B, .C, 9⟩, 6, 0xc040b340),
  (⟨.C, .D, .A, .B, 14⟩, 11, 0x265e5a51),
  (⟨.B, .C, .D, .A, 20⟩, 0, 0xe9b6c7aa),
  (⟨.A, .B, .C, .D, 5⟩, 5, 0xd62f105d),
  (⟨.D, .A, .B, .C, 9⟩, 10, 0x02441453),
  (⟨.C, .D, .A, .B, 14⟩, 15, 0xd8a1e681),
  (⟨.B, .C, .D, .A, 20⟩, 4, 0xe7d3fbc8),
  (⟨.A, .B, .C, .D, 5⟩, 9, 0x21e1cde6),
  (⟨.D, .A, .B, .C, 9⟩, 14, 0xc33707d6),
  (⟨.C, .D, .A, .B, 14⟩, 3, 0xf4d50d87),
  (⟨.B, .C, .D, .A, 20⟩, 8, 0x455a14ed),
  (⟨.A, .B, .C, .D, 5⟩, 13, 0xa9e3e905),
  (⟨.D, .A, .B, .C, 9⟩, 2, 0xfcefa3f8),
  (⟨.C, .D, .A, .B, 14⟩, 7, 0x676f02d9),
  (⟨.B, .C, .D, .A, 20⟩, 12, 0x8d2a4c8a)]

/-- The third round at speed 0.
SOURCE: md5.c:505-520 -/
def unrolledThird : List (OpLine × ℕ × BitVec 32) := [
  (⟨.A, .B, .C, .D, 4⟩, 5, 0xfffa3942),
  (⟨.D, .A, .B, .C, 11⟩, 8, 0x8771f681),
  (⟨.C, .D, .A, .B, 16⟩, 11, 0x6d9d6122),
  (⟨.B, .C, .D, .A, 23⟩, 14, 0xfde5380c),
  (⟨.A, .B, .C, .D, 4⟩, 1, 0xa4beea44),
  (⟨.D, .A, .B, .C, 11⟩, 4, 0x4bdecfa9),
  (⟨.C, .D, .A, .B, 16⟩, 7, 0xf6bb4b60),
  (⟨.B, .C, .D, .A, 23⟩, 10, 0xbebfbc70),
  (⟨.A, .B, .C, .D, 4⟩, 13, 0x289b7ec6),
  (⟨.D, .A, .B, .C, 11⟩, 0, 0xeaa127fa),
  (⟨.C, .D, .A, .B, 16⟩, 3, 0xd4ef3085),
  (⟨.B, .C, .D, .A, 23⟩, 6, 0x04881d05),
  (⟨.A, .B, .C, .D, 4⟩, 9, 0xd9d4d039),
  (⟨.D, .A, .B, .C, 11⟩, 12, 0xe6db99e5),
  (⟨.C, .D, .A, .B, 16⟩, 15, 0x1fa27cf8),
  (⟨.B, .C, .D, .A, 23⟩, 2, 0xc4ac5665)]

/-- The fourth round at speed 0.
SOURCE: md5.c:532-547 -/
def unrolledFourth : List (OpLine × ℕ × BitVec 32) := [
  (⟨.A, .B, .C, .D, 6⟩, 0, 0xf4292244),
  (⟨.D, .A, .B, .C, 10⟩, 7, 0x432aff97),
  (⟨.C, .D, .A, .B, 15⟩, 14, 0xab9423a7),
  (⟨.B, .C, .D, .A, 21⟩, 5, 0xfc93a039),
  (⟨.A, .B, .C, .D, 6⟩, 12, 0x655b59c3),
  (⟨.D, .A, .B, .C, 10⟩, 3, 0x8f0ccc92),
  (⟨.C, .D, .A, .B, 15⟩, 10, 0xffeff47d),
  (⟨.B, .C, .D, .A, 21⟩, 1, 0x85845dd1),
  (⟨.A, .B, .C, .D, 6⟩, 8, 0x6fa87e4f),
  (⟨.D, .A, .B, .C, 10⟩, 15, 0xfe2ce6e0),
  (⟨.C, .D, .A, .B, 15⟩, 6, 0xa3014314),
  (⟨.B, .C, .D, .A, 21⟩, 13, 0x4e0811a1),
  (⟨.A, .B, .C, .D, 6⟩, 4, 0xf7537e82),
  (⟨.D, .A, .B, .C, 10⟩, 11, 0xbd3af235),
  (⟨.C, .D, .A, .B, 15⟩, 2, 0x2ad7d2bb),
  (⟨.B, .C, .D, .A, 21⟩, 9, 0xeb86d391)]

/-- The rounds at speed 0: every step written out.
SOURCE: md5.c:437-547 -/
def unrolled (host : HostOrder) (buffer : List UInt8) (words : ℕ) (regs : Md5Regs) :
    Option Md5Regs := do
  let (regs, stored) ← unrolledFirst.foldlM
    (fun s e => opFirst host buffer words e.1 e.2 s.1 s.2) (regs, [])
  let regs ← unrolledSecond.foldlM (fun regs e => opLater fg stored e.1 e.2.1 e.2.2 regs) regs
  let regs ← unrolledThird.foldlM (fun regs e => opLater fh stored e.1 e.2.1 e.2.2 regs) regs
  unrolledFourth.foldlM (fun regs e => opLater fi stored e.1 e.2.1 e.2.2 regs) regs

/-- The four lines in the loops at speed 1, by their shifts.
SOURCE: md5.c:431-434, 472-475, 499-502, 526-529 -/
def fourOps (s₀ s₁ s₂ s₃ : ℕ) : List OpLine := [
  ⟨.A, .B, .C, .D, s₀⟩,
  ⟨.D, .A, .B, .C, s₁⟩,
  ⟨.C, .D, .A, .B, s₂⟩,
  ⟨.B, .C, .D, .A, s₃⟩]

/-- The variables at speed 1. -/
structure OpCursor where
  regs : Md5Regs
  stored : List (BitVec 32)
  pc : ℕ
  pp : ℕ

/-- A line of the first loop at speed 1.
SOURCE: md5.c:431-434 -/
def opCursorFirst (host : HostOrder) (buffer : List UInt8) (words : ℕ) (s : OpCursor)
    (line : OpLine) : Option OpCursor := do
  let t ← cArray[s.pc]?
  let (regs, stored) ← opFirst host buffer words line t s.regs s.stored
  pure ⟨regs, stored, s.pc + 1, s.pp⟩

/-- A line of the other loops at speed 1.
SOURCE: md5.c:472-475, 499-502, 526-529 -/
def opCursorLater (f : BitVec 32 → BitVec 32 → BitVec 32 → BitVec 32) (s : OpCursor)
    (line : OpLine) : Option OpCursor := do
  let k ← (pArray 1)[s.pp]?
  let t ← cArray[s.pc]?
  let regs ← opLater f s.stored line k t s.regs
  pure ⟨regs, s.stored, s.pc + 1, s.pp + 1⟩

/-- The rounds at speed 1: four loops of four steps.
SOURCE: md5.c:429-435, 470-476, 498-503, 525-530 -/
def rolled (host : HostOrder) (buffer : List UInt8) (words : ℕ) (regs : Md5Regs) :
    Option Md5Regs := do
  let s : OpCursor := ⟨regs, [], 0, 0⟩
  let s ← forTurns 4
    (fun _ s => (fourOps 7 12 17 22).foldlM (opCursorFirst host buffer words) s) s
  let s ← forTurns 4 (fun _ s => (fourOps 5 9 14 20).foldlM (opCursorLater fg) s) { s with pp := 0 }
  let s ← forTurns 4 (fun _ s => (fourOps 4 11 16 23).foldlM (opCursorLater fh) s) s
  let s ← forTurns 4 (fun _ s => (fourOps 6 10 15 21).foldlM (opCursorLater fi) s) s
  pure s.regs

/-! ## The sum -/

/-- The rounds, as the setting picks them.
SOURCE: md5.c:328-549 -/
def blockRounds (speed : Fin 4) (host : HostOrder) (buffer : List UInt8) (words : ℕ)
    (regs : Md5Regs) : Option Md5Regs :=
  if speed > 1 then do
    let cwp ← correctWords host buffer words
    if speed > 2 then oneLoop cwp regs else fourLoops cwp regs
  else if speed = 1 then rolled host buffer words regs
  else unrolled host buffer words regs

/-- `while (words < endp)`, `turns` times.
SOURCE: md5.c:321-556 -/
def blockLoop (speed : Fin 4) (host : HostOrder) (buffer : List UInt8) :
    ℕ → ℕ → Md5Regs → Option Md5Regs
  | 0, _, regs => some regs
  | turns + 1, words, regs => do
      let new ← blockRounds speed host buffer words regs
      blockLoop speed host buffer turns (words + 64)
        ⟨new.a + regs.a, new.b + regs.b, new.c + regs.c, new.d + regs.d⟩

/-- `struct md5_ctx`.
SOURCE: md5.h:23-33 -/
structure Md5Ctx where
  regs : Md5Regs
  total₀ : BitVec 32
  total₁ : BitVec 32
  buflen : BitVec 32
  buffer : List UInt8
deriving DecidableEq

/-- `md5_init_ctx`; the buffer keeps what it holds.
SOURCE: md5.c:85-94 -/
def md5InitCtx (ctx : Md5Ctx) : Md5Ctx :=
  { ctx with
    regs := ⟨0x67452301, 0xefcdab89, 0x98badcfe, 0x10325476⟩
    total₀ := 0
    total₁ := 0
    buflen := 0 }

/-- `ctx->total[0] += len; if (ctx->total[0] < len) ++ctx->total[1];`, in `size_t`.
SOURCE: md5.c:107-109, 315-317 -/
def countBytes (ctx : Md5Ctx) (len : ℕ) : Md5Ctx :=
  let total₀ := ctx.total₀ + BitVec.ofNat 32 len
  { ctx with
    total₀ := total₀
    total₁ := if total₀.toNat < len then ctx.total₁ + 1 else ctx.total₁ }

/-- `md5_process_block`, for the bytes from `p` on: sixteen words at a time, until the
pointer is no longer below the end.
SOURCE: md5.c:256-563 -/
def md5ProcessBlock (speed : Fin 4) (host : HostOrder) (buffer : List UInt8) (p len : ℕ)
    (ctx : Md5Ctx) : Option Md5Ctx := do
  let ctx := countBytes ctx len
  let nwords := len / 4
  let regs ← blockLoop speed host buffer ((nwords + 15) / 16) p ctx.regs
  pure { ctx with regs := regs }

/-- `~63` as a `size_t`. -/
def not63 : ℕ := 2 ^ 64 - 64

/-- The whole blocks among the first `n` bytes of the internal buffer are processed, and the
bytes behind them moved to its start.
SOURCE: md5.c:222-227 -/
def flushBuffer (speed : Fin 4) (host : HostOrder) (n : ℕ) (ctx : Md5Ctx) : Option Md5Ctx := do
  let whole := n &&& not63
  let rest := n &&& 63
  let ctx ← md5ProcessBlock speed host ctx.buffer 0 whole ctx
  let mem ← memcpy ctx.buffer 0 ctx.buffer whole rest
  pure { ctx with buffer := mem, buflen := BitVec.ofNat 32 rest }

/-- The part of `md5_process_bytes` that fills the internal buffer: what it adds, and the
context.
SOURCE: md5.c:214-231 -/
def fillBuffer (speed : Fin 4) (host : HostOrder) (buffer : List UInt8) (len : ℕ) (ctx : Md5Ctx) :
    Option (ℕ × Md5Ctx) :=
  if ctx.buflen ≠ 0 then do
    let leftOver := ctx.buflen.toNat
    let add := if 128 - leftOver > len then len else 128 - leftOver
    let mem ← memcpy ctx.buffer leftOver buffer 0 add
    let ctx := { ctx with buffer := mem, buflen := ctx.buflen + BitVec.ofNat 32 add }
    let ctx ← (if leftOver + add > 64 then flushBuffer speed host (leftOver + add) ctx
      else pure ctx)
    pure (add, ctx)
  else pure (0, ctx)

/-- The part of `md5_process_bytes` that processes complete blocks from where they are: the
pointer and the length of what is left, and the context.
SOURCE: md5.c:233-238 -/
def processWhole (speed : Fin 4) (host : HostOrder) (buffer : List UInt8) (p len : ℕ)
    (ctx : Md5Ctx) : Option (ℕ × ℕ × Md5Ctx) :=
  if len > 64 then do
    let ctx ← md5ProcessBlock speed host buffer p (len &&& not63) ctx
    pure (p + (len &&& not63), len &&& 63, ctx)
  else pure (p, len, ctx)

/-- The part of `md5_process_bytes` that moves the remaining bytes to the internal buffer.
SOURCE: md5.c:240-244 -/
def keepRest (buffer : List UInt8) (p len : ℕ) (ctx : Md5Ctx) : Option Md5Ctx :=
  if len > 0 then do
    let mem ← memcpy ctx.buffer 0 buffer p len
    pure { ctx with buffer := mem, buflen := BitVec.ofNat 32 len }
  else pure ctx

/-- `md5_process_bytes`.
SOURCE: md5.c:210-245 -/
def md5ProcessBytes (speed : Fin 4) (host : HostOrder) (buffer : List UInt8) (len : ℕ)
    (ctx : Md5Ctx) : Option Md5Ctx := do
  let (add, ctx) ← fillBuffer speed host buffer len ctx
  let (p, len, ctx) ← processWhole speed host buffer add (len - add) ctx
  keepRest buffer p len ctx

/-- `fillbuf`.
SOURCE: md5.c:80 -/
def fillbuf : List UInt8 := 0x80 :: List.replicate 63 0

/-- The padding that `md5_finish_ctx` puts behind the bytes in the buffer.
SOURCE: md5.c:112-117 -/
def padBuffer (speed : Fin 4) (buffer : List UInt8) (bytes pad : ℕ) : Option (List UInt8) :=
  if speed > 0 then do
    let buffer ← writeCells buffer bytes (List.replicate pad 0)
    writeCells buffer bytes [0x80]
  else memcpy buffer bytes fillbuf 0 pad

/-- The buffer with the padding and the number of bits behind its bytes.
SOURCE: md5.c:112-122 -/
def finishBuffer (speed : Fin 4) (host : HostOrder) (ctx : Md5Ctx) (bytes pad : ℕ) :
    Option (List UInt8) := do
  let mem ← padBuffer speed ctx.buffer bytes pad
  let mem ← storeWord host mem (bytes + pad) (md5Swap host (ctx.total₀ <<< 3))
  storeWord host mem (bytes + pad + 4) (md5Swap host (ctx.total₁ <<< 3 ||| ctx.total₀ >>> 29))

/-- The registers stored as the result.
SOURCE: md5.c:132-135 -/
def storeRegs (host : HostOrder) (resbuf : List UInt8) (regs : Md5Regs) : Option (List UInt8) := do
  let resbuf ← storeWord host resbuf 0 (md5Swap host regs.a)
  let resbuf ← storeWord host resbuf 4 (md5Swap host regs.b)
  let resbuf ← storeWord host resbuf 8 (md5Swap host regs.c)
  storeWord host resbuf 12 (md5Swap host regs.d)

/-- `md5_finish_ctx`; the result is the block `resbuf` points to, and the context.
SOURCE: md5.c:100-138 -/
def md5FinishCtx (speed : Fin 4) (host : HostOrder) (resbuf : List UInt8) (ctx : Md5Ctx) :
    Option (List UInt8 × Md5Ctx) := do
  let bytes := ctx.buflen
  let ctx := countBytes ctx bytes.toNat
  let pad := (if bytes ≥ 56 then 64 + 56 - bytes else 56 - bytes).toNat
  let mem ← finishBuffer speed host ctx bytes.toNat pad
  let ctx := { ctx with buffer := mem }
  let ctx ← md5ProcessBlock speed host ctx.buffer 0 (bytes.toNat + pad + 8) ctx
  let resbuf ← storeRegs host resbuf ctx.regs
  pure (resbuf, ctx)

/-- `md5_buffer`; `ctx` is the local variable before it is initialised.
SOURCE: md5.c:196-208 -/
def md5Buffer (speed : Fin 4) (host : HostOrder) (ctx : Md5Ctx) (buffer : List UInt8) (len : ℕ)
    (resblock : List UInt8) : Option (List UInt8) := do
  let ctx := md5InitCtx ctx
  let ctx ← md5ProcessBytes speed host buffer len ctx
  let (resblock, _) ← md5FinishCtx speed host resblock ctx
  pure resblock

/-! ## Streams -/

/-- An open file: the bytes it still gives, how many of them the next calls of `fread` give at
most (one more than the number here; without a number, all that were asked for), and whether
behind the bytes there is an error instead of the end. -/
structure Stream where
  bytes : List UInt8
  grants : List ℕ
  failed : Bool

/-- `fread` for at most `n` bytes. -/
def Stream.fread (stream : Stream) (n : ℕ) : List UInt8 × Stream :=
  let n := match stream.grants with
    | [] => n
    | grant :: _ => min n (grant + 1)
  (stream.bytes.take n, ⟨stream.bytes.drop n, stream.grants.tail, stream.failed⟩)

/-- `BLOCKSIZE`.
SOURCE: md5.c:147 -/
def BLOCKSIZE : ℕ := 4096

/-- The `do` loop that reads a block; the result is the last `n`, `sum`, the block and the
stream.
SOURCE: md5.c:162-168 -/
def readBlock : ℕ → List UInt8 → ℕ → Stream → Option (ℕ × ℕ × List UInt8 × Stream)
  | 0, _, _, _ => none
  | fuel + 1, buffer, sum, stream => do
      let (cells, stream) := stream.fread (BLOCKSIZE - sum)
      let buffer ← writeCells buffer sum cells
      let n := cells.length
      let sum := sum + n
      if sum < BLOCKSIZE ∧ n ≠ 0 then readBlock fuel buffer sum stream
      else pure (n, sum, buffer, stream)

/-- The `while` loop of `md5_stream`: the return value, if it returns from there, or `sum`, the
block and the context.
SOURCE: md5.c:156-181 -/
def streamLoop (speed : Fin 4) (host : HostOrder) :
    ℕ → List UInt8 → Stream → Md5Ctx → Option (ℤ ⊕ ℕ × List UInt8 × Md5Ctx)
  | 0, _, _, _ => none
  | fuel + 1, buffer, stream, ctx => do
      let (n, sum, buffer, stream) ← readBlock (BLOCKSIZE + 1) buffer 0 stream
      if n = 0 ∧ stream.failed then pure (.inl 1)
      else if n = 0 then pure (.inr (sum, buffer, ctx))
      else do
        let ctx ← md5ProcessBlock speed host buffer 0 BLOCKSIZE ctx
        streamLoop speed host fuel buffer stream ctx

/-- `md5_stream`; `ctx` and `buffer` are the local variables before they are written.
SOURCE: md5.c:143-190 -/
def md5Stream (speed : Fin 4) (host : HostOrder) (fuel : ℕ) (ctx : Md5Ctx) (buffer : List UInt8)
    (stream : Stream) (resblock : List UInt8) : Option (ℤ × List UInt8) := do
  let ctx := md5InitCtx ctx
  let left ← streamLoop speed host fuel buffer stream ctx
  match left with
  | .inl ret => pure (ret, resblock)
  | .inr (sum, buffer, ctx) => do
      let ctx ← (if sum > 0 then md5ProcessBytes speed host buffer sum ctx else pure ctx)
      let (resblock, _) ← md5FinishCtx speed host resblock ctx
      pure (0, resblock)

end Ctools.Program
