import Ctools.Interface.Md5Spec

/-!
# The texts of the MD5 rounds

Each of the four texts of the rounds comes to the 64 steps of a block.  In the small texts the
registers move from step to step and the pointers into the tables move with them; in the others
the names of the registers move, so that the registers stand elsewhere by `named` and are in
their places again after every fourth step.
-/

set_option autoImplicit false

namespace Ctools.Analysis

open Ctools.Library Ctools.Program Ctools.Interface

/-! ## Functions and words -/

/-- The function of the first round, with the exclusive or written out. -/
theorem ff_eq (b c d : BitVec 32) : ff b c d = b &&& c ||| ~~~b &&& d := by
  apply BitVec.eq_of_getLsbD_eq
  intro i hi
  simp only [ff, BitVec.getLsbD_xor, BitVec.getLsbD_and, BitVec.getLsbD_or, BitVec.getLsbD_not, hi,
    decide_true, Bool.true_and]
  cases b.getLsbD i <;> cases c.getLsbD i <;> cases d.getLsbD i <;> rfl

/-- The function of the second round is that of the first on permuted words. -/
theorem fg_eq (b c d : BitVec 32) : fg b c d = d &&& b ||| ~~~d &&& c := ff_eq d b c

/-- The functions of the four rounds, as the program names them. -/
def roundMacro : Fin 4 → BitVec 32 → BitVec 32 → BitVec 32 → BitVec 32
  | 0 => ff
  | 1 => fg
  | 2 => fh
  | 3 => fi

/-- The macros compute the functions of the rounds. -/
theorem roundMacro_eq (round : Fin 4) (b c d : BitVec 32) :
    roundMacro round b c d = roundFunction round.val b c d := by
  fin_cases round
  · exact ff_eq b c d
  · exact fg_eq b c d
  · rfl
  · rfl

/-- `CYCLIC` rotates to the left. -/
theorem cyclic_eq (w : BitVec 32) {s : ℕ} (hs : s < 32) : cyclic w s = w.rotateLeft s := by
  rw [BitVec.rotateLeft_def, Nat.mod_eq_of_lt hs, cyclic]

/-- The bytes of a word in the other order. -/
theorem md5Swap_bigEndian (x : BitVec 32) :
    md5Swap .bigEndian x = BitVec.ofNat 32 (exchange 4 x.toNat) := by
  apply BitVec.eq_of_getLsbD_eq
  intro i hi
  have hexchange : (exchange 4 x.toNat).testBit i = x.getLsbD (8 * (3 - i / 8) + i % 8) := by
    have hbyte := congrArg (fun b => b.testBit (i % 8))
      (byteOf_exchange x.toNat (show i / 8 < 4 by omega))
    simp only [testBit_byteOf, show i % 8 < 8 by omega, decide_true, Bool.true_and] at hbyte
    rw [Nat.div_add_mod] at hbyte
    rw [hbyte, BitVec.testBit_toNat]
  rw [BitVec.getLsbD_ofNat, hexchange, decide_eq_true hi, Bool.true_and]
  simp only [md5Swap, BitVec.getLsbD_or, BitVec.getLsbD_shiftLeft, BitVec.getLsbD_ushiftRight,
    BitVec.getLsbD_and, hi, decide_true, Bool.true_and]
  interval_cases i <;> simp

/-- What the program makes of a word in memory does not depend on the machine. -/
theorem loadWord_swap (host : HostOrder) {memory : List UInt8} {p : ℕ}
    (hp : p + 4 ≤ memory.length) :
    (loadWord host memory p).map (md5Swap host) =
      some (BitVec.ofNat 32 ((lsbFirst 4).read fun k => (memory.getD (p + k) 0).toNat)) := by
  have hcells : ∀ k < 4, ((memory.drop p).take 4).getD k 0 = memory.getD (p + k) 0 := by
    intro k hk
    rw [List.getD_eq_getElem?_getD, List.getElem?_take_of_lt hk, List.getElem?_drop,
      List.getD_eq_getElem?_getD]
  have hread : ∀ order : ByteOrder 4,
      (order.read fun k => (((memory.drop p).take 4).getD k 0).toNat) =
        order.read fun k => (memory.getD (p + k) 0).toNat :=
    fun order => order.read_congr fun k hk => by rw [hcells k hk]
  have hbytes : ∀ k < 4, (memory.getD (p + k) 0).toNat < 256 := fun k _ => UInt8.toNat_lt _
  rw [loadWord, readCells_of_le hp]
  simp only [Option.bind_eq_bind, Option.bind_some, Option.pure_def, Option.map_some,
    Option.some.injEq]
  rw [hread]
  cases host with
  | littleEndian => rfl
  | bigEndian =>
    have hlt := (msbFirst 4).read_lt hbytes
    rw [md5Swap_bigEndian, BitVec.toNat_ofNat, HostOrder.order,
      Nat.mod_eq_of_lt (show _ < 2 ^ 32 from hlt),
      read_msbFirst hbytes, exchange_exchange ((lsbFirst 4).read_lt hbytes)]

/-- The words of the block from `p` on. -/
theorem loadWord_blockWord (host : HostOrder) {memory : List UInt8} {p i : ℕ}
    (hp : p + 64 ≤ memory.length) (hi : i < 16) :
    (loadWord host memory (p + 4 * i)).map (md5Swap host) =
      some (blockWord (memory.drop p) i) := by
  rw [loadWord_swap host (by omega), blockWord]
  simp only [List.getD_eq_getElem?_getD, List.getElem?_drop, Nat.add_assoc]

/-- The loop that fills `cwp` reads the words of the block. -/
theorem correctWords_eq (host : HostOrder) {memory : List UInt8} {p : ℕ}
    (hp : p + 64 ≤ memory.length) :
    correctWords host memory p = some ((List.range 16).map (blockWord (memory.drop p))) := by
  apply mapM_eq_map
  intro i hi
  exact loadWord_blockWord host hp (List.mem_range.mp hi)

/-! ## The small texts -/

/-- A step, from the values the program puts together. -/
theorem md5Step_eq (word : ℕ → BitVec 32) (round : Fin 4) (i : Fin 16) (r : Md5Regs) :
    ⟨r.d, cyclic (r.a + roundMacro round r.b r.c r.d + word (wordIndex (16 * round + i)) +
      stepConstant (16 * round + i)) (stepShift (16 * round + i)) + r.b, r.b, r.c⟩ =
        md5Step word (16 * round + i) r := by
  have hshift : stepShift (16 * round + i) < 32 := by decide +revert
  have hround : (16 * round.val + i.val) / 16 = round := by omega
  rw [cyclic_eq _ hshift, roundMacro_eq, md5Step, hround]

/-- What the pointers of a step point to. -/
theorem tables_at (round : Fin 4) (i : Fin 16) :
    (pArray 2)[16 * round.val + i.val]? = some (wordIndex (16 * round + i)) ∧
      wordIndex (16 * round + i) < 16 ∧
      cArray[16 * round.val + i.val]? = some (stepConstant (16 * round + i)) ∧
      entryAt sArray (4 * round.val + (i.val &&& 3 : ℕ)) = some (stepShift (16 * round + i)) := by
  decide +revert

/-- The words of the block, read by their index. -/
theorem getElem?_words (word : ℕ → BitVec 32) {k : ℕ} (hk : k < 16) :
    ((List.range 16).map word)[k]? = some (word k) := by
  rw [List.getElem?_map, List.getElem?_range hk, Option.map_some]

/-- The variables of the small texts before a step. -/
def cursorAt (word : ℕ → BitVec 32) (r : Md5Regs) (round step : ℕ) : Md5Cursor :=
  ⟨md5Steps word r step, step, step, 4 * round⟩

/-- A turn of a round's loop is the step it stands for. -/
theorem loopTurn_eq (word : ℕ → BitVec 32) (r : Md5Regs) (round : Fin 4) {i : ℕ} (hi : i < 16) :
    loopTurn (roundMacro round) ((List.range 16).map word) i
        (cursorAt word r round (16 * round + i)) =
      some (cursorAt word r round (16 * round + (i + 1))) := by
  obtain ⟨hk, hlt, ht, hs⟩ := tables_at round ⟨i, hi⟩
  have hstep := md5Step_eq word round ⟨i, hi⟩ (md5Steps word r (16 * round + i))
  simp only [loopTurn, cursorAt, hk, getElem?_words word hlt, ht, hs, Option.bind_eq_bind,
    Option.bind_some, Option.pure_def, hstep]
  rfl

/-- One of the four loops. -/
theorem roundLoop_eq (word : ℕ → BitVec 32) (r : Md5Regs) (round : Fin 4) :
    forTurns 16 (loopTurn (roundMacro round) ((List.range 16).map word))
        (cursorAt word r round (16 * round)) =
      some (cursorAt word r round (16 * round + 16)) :=
  forTurns_eq (fun i => cursorAt word r round (16 * round + i)) fun _ hi =>
    loopTurn_eq word r round hi

/-- The four loops are the 64 steps. -/
theorem fourLoops_eq (word : ℕ → BitVec 32) (r : Md5Regs) :
    fourLoops ((List.range 16).map word) r = some (md5Steps word r 64) := by
  have h₀ : forTurns 16 (loopTurn ff ((List.range 16).map word)) ⟨r, 0, 0, 0⟩ =
      some ⟨md5Steps word r 16, 16, 16, 0⟩ := roundLoop_eq word r 0
  have h₁ : forTurns 16 (loopTurn fg ((List.range 16).map word))
      ⟨md5Steps word r 16, 16, 16, 0 + 4⟩ =
      some ⟨md5Steps word r 32, 32, 32, 0 + 4⟩ := roundLoop_eq word r 1
  have h₂ : forTurns 16 (loopTurn fh ((List.range 16).map word))
      ⟨md5Steps word r 32, 32, 32, 0 + 4 + 4⟩ =
      some ⟨md5Steps word r 48, 48, 48, 0 + 4 + 4⟩ := roundLoop_eq word r 2
  have h₃ : forTurns 16 (loopTurn fi ((List.range 16).map word))
      ⟨md5Steps word r 48, 48, 48, 0 + 4 + 4 + 4⟩ =
      some ⟨md5Steps word r 64, 64, 64, 0 + 4 + 4 + 4⟩ := roundLoop_eq word r 3
  simp only [fourLoops, Option.bind_eq_bind, h₀, h₁, h₂, h₃, Option.bind_some, Option.pure_def]

/-- What the one loop adds before the word and the constant. -/
theorem switchTerm_eq (round : Fin 4) (i : Fin 16) (r : Md5Regs) (temp : BitVec 32) :
    switchTerm (16 * round + i) r temp = temp + roundMacro round r.b r.c r.d := by
  have hround : (16 * round.val + i.val) >>> 4 = round := by
    rw [Nat.shiftRight_eq_div_pow]
    omega
  rw [switchTerm, hround]
  fin_cases round <;> rfl

/-- The variables of the one loop before a step: the pointer to the shifts is moved on at the
start of a round. -/
def switchCursorAt (word : ℕ → BitVec 32) (r : Md5Regs) (step : ℕ) : Md5Cursor :=
  ⟨md5Steps word r step, step, step, 4 * ((step + 15) / 16 : ℕ) - 4⟩

/-- The pointer to the shifts stands before its row at the first step of a round, and at it
later on. -/
theorem switchPointer (round : Fin 4) (i : Fin 16) :
    (if (16 * round.val + i.val) &&& 0x0f = 0 then
      (4 * ((16 * round.val + i.val + 15) / 16 : ℕ) - 4 : ℤ) + 4
      else 4 * ((16 * round.val + i.val + 15) / 16 : ℕ) - 4) = 4 * round.val ∧
      (16 * round.val + i.val) &&& 3 = i.val &&& 3 := by
  decide +revert

/-- A turn of the single loop is the step it stands for. -/
theorem switchTurn_eq (word : ℕ → BitVec 32) (r : Md5Regs) (round : Fin 4) (i : Fin 16) :
    switchTurn ((List.range 16).map word) (16 * round + i)
        (switchCursorAt word r (16 * round + i)) =
      some (switchCursorAt word r (16 * round + i + 1)) := by
  obtain ⟨hk, hlt, ht, hs⟩ := tables_at round i
  have hstep := md5Step_eq word round i (md5Steps word r (16 * round + i))
  obtain ⟨hps, hmask⟩ := switchPointer round i
  have hnext : (4 * ((16 * round.val + i.val + 1 + 15) / 16 : ℕ) - 4 : ℤ) = 4 * round.val := by
    omega
  have hpp : (pArray 3)[16 * round.val + i.val]? = some (wordIndex (16 * round + i)) := hk
  simp only [switchTurn, switchCursorAt, hps, switchTerm_eq, hpp, getElem?_words word hlt, ht,
    hmask, hs, hnext, Option.bind_eq_bind, Option.bind_some, Option.pure_def,
    ← BitVec.add_assoc, hstep]
  rfl

/-- The single loop is the 64 steps. -/
theorem oneLoop_eq (word : ℕ → BitVec 32) (r : Md5Regs) :
    oneLoop ((List.range 16).map word) r = some (md5Steps word r 64) := by
  have hloop : forTurns 64 (switchTurn ((List.range 16).map word)) ⟨r, 0, 0, -4⟩ =
      some (switchCursorAt word r 64) := by
    refine forTurns_eq (switchCursorAt word r) fun step hstep => ?_
    have hturn := switchTurn_eq word r ⟨step / 16, by omega⟩ ⟨step % 16, by omega⟩
    simpa only [Nat.div_add_mod] using hturn
  simp only [oneLoop, Option.bind_eq_bind, hloop, Option.bind_some, Option.pure_def]
  rfl

/-! ## The unrolled texts -/

/-- Where the values of a step stand: its line names the registers so. -/
def lineAt (step : ℕ) : OpLine :=
  match step % 4 with
  | 0 => ⟨.A, .B, .C, .D, stepShift step⟩
  | 1 => ⟨.D, .A, .B, .C, stepShift step⟩
  | 2 => ⟨.C, .D, .A, .B, stepShift step⟩
  | _ => ⟨.B, .C, .D, .A, stepShift step⟩

/-- The registers before a step, under the names that its line has for them. -/
def named (step : ℕ) (r : Md5Regs) : Md5Regs :=
  match step % 4 with
  | 0 => r
  | 1 => ⟨r.b, r.c, r.d, r.a⟩
  | 2 => ⟨r.c, r.d, r.a, r.b⟩
  | _ => ⟨r.d, r.a, r.b, r.c⟩

/-- A line of the unrolled texts does a step. -/
theorem op_named (word : ℕ → BitVec 32) (round : Fin 4) (i : Fin 16) (r : Md5Regs) :
    op (roundMacro round) (lineAt (16 * round + i)) (word (wordIndex (16 * round + i)))
        (stepConstant (16 * round + i)) (named (16 * round + i) r) =
      named (16 * round + i + 1) (md5Step word (16 * round + i) r) := by
  rw [← md5Step_eq]
  have hcases : i.val % 4 = 0 ∨ i.val % 4 = 1 ∨ i.val % 4 = 2 ∨ i.val % 4 = 3 := by omega
  have hthis : (16 * round.val + i.val) % 4 = i.val % 4 := by omega
  have hnext : (16 * round.val + i.val + 1) % 4 = (i.val % 4 + 1) % 4 := by omega
  rcases hcases with h | h | h | h <;>
    simp only [lineAt, named, hthis, hnext, h, op, Md5Regs.get, Md5Regs.set, BitVec.add_assoc]

/-- The lines of a round in the fastest text. -/
theorem unrolled_lines :
    unrolledFirst = (List.range 16).map (fun i => (lineAt i, stepConstant i)) ∧
      unrolledSecond = (List.range 16).map
        (fun i => (lineAt (16 + i), wordIndex (16 + i), stepConstant (16 + i))) ∧
      unrolledThird = (List.range 16).map
        (fun i => (lineAt (32 + i), wordIndex (32 + i), stepConstant (32 + i))) ∧
      unrolledFourth = (List.range 16).map
        (fun i => (lineAt (48 + i), wordIndex (48 + i), stepConstant (48 + i))) := by
  decide

/-- A line of the first round takes the next word and does a step. -/
theorem opFirst_eq (host : HostOrder) {memory : List UInt8} {p : ℕ} (hp : p + 64 ≤ memory.length)
    {i : ℕ} (hi : i < 16) (r : Md5Regs) :
    opFirst host memory p (lineAt i) (stepConstant i) (named i r)
        ((List.range i).map (blockWord (memory.drop p))) =
      some (named (i + 1) (md5Step (blockWord (memory.drop p)) i r),
        (List.range (i + 1)).map (blockWord (memory.drop p))) := by
  have hload := loadWord_blockWord host hp hi
  obtain ⟨x, hx, hswap⟩ := Option.map_eq_some_iff.mp hload
  have hstep := op_named (blockWord (memory.drop p)) 0 ⟨i, hi⟩ r
  have hindex : wordIndex i = i := by
    rw [wordIndex, Nat.div_eq_of_lt hi]
    exact Nat.mod_eq_of_lt hi
  simp only [Fin.val_zero, Nat.mul_zero, Nat.zero_add, hindex] at hstep
  simp only [opFirst, List.length_map, List.length_range, hx, Option.bind_eq_bind, Option.bind_some,
    hswap, Option.pure_def, List.range_succ, List.map_append, List.map_cons, List.map_nil]
  exact congrArg some (Prod.ext hstep rfl)

/-- A line of another round does a step. -/
theorem opLater_eq (word : ℕ → BitVec 32) (round : Fin 4) {i : ℕ} (hi : i < 16) (r : Md5Regs) :
    opLater (roundMacro round) ((List.range 16).map word) (lineAt (16 * round + i))
        (wordIndex (16 * round + i)) (stepConstant (16 * round + i)) (named (16 * round + i) r) =
      some (named (16 * round + i + 1) (md5Step word (16 * round + i) r)) := by
  have hlt := (tables_at round ⟨i, hi⟩).2.1
  have hstep := op_named word round ⟨i, hi⟩ r
  simp only [opLater, getElem?_words word hlt, Option.bind_eq_bind, Option.bind_some, hstep,
    Option.pure_def]

/-- After every fourth step the registers are in their places. -/
theorem named_whole (step : ℕ) (hstep : step % 4 = 0) (r : Md5Regs) : named step r = r := by
  simp only [named, hstep]

/-- The registers of the unrolled texts before a step. -/
def namedAt (word : ℕ → BitVec 32) (r : Md5Regs) (step : ℕ) : Md5Regs :=
  named step (md5Steps word r step)

/-- The first round of the fastest text. -/
theorem unrolledFirst_eq (host : HostOrder) {memory : List UInt8} {p : ℕ}
    (hp : p + 64 ≤ memory.length) (r : Md5Regs) :
    unrolledFirst.foldlM (fun s e => opFirst host memory p e.1 e.2 s.1 s.2) (r, []) =
      some (namedAt (blockWord (memory.drop p)) r 16,
        (List.range 16).map (blockWord (memory.drop p))) := by
  rw [unrolled_lines.1, foldlM_map_range]
  refine forTurns_eq (fun i => (namedAt (blockWord (memory.drop p)) r i,
    (List.range i).map (blockWord (memory.drop p)))) ?_
  intro i hi
  exact opFirst_eq host hp hi (md5Steps (blockWord (memory.drop p)) r i)

/-- Another round of the fastest text, with its function and its first step. -/
theorem laterRound_eq (word : ℕ → BitVec 32) (r : Md5Regs) (round : Fin 4) {first : ℕ}
    (hfirst : 16 * round.val = first) :
    forTurns 16 (fun i r => opLater (roundMacro round) ((List.range 16).map word)
        (lineAt (first + i)) (wordIndex (first + i)) (stepConstant (first + i)) r)
        (namedAt word r first) =
      some (namedAt word r (first + 16)) := by
  subst hfirst
  refine forTurns_eq (fun i => namedAt word r (16 * round + i)) ?_
  intro i hi
  exact opLater_eq word round hi (md5Steps word r (16 * round + i))

/-- The unrolled text is the 64 steps. -/
theorem unrolled_eq (host : HostOrder) {memory : List UInt8} {p : ℕ}
    (hp : p + 64 ≤ memory.length) (r : Md5Regs) :
    unrolled host memory p r = some (md5Steps (blockWord (memory.drop p)) r 64) := by
  obtain ⟨-, hsecond, hthird, hfourth⟩ := unrolled_lines
  have h₀ := unrolledFirst_eq host hp r
  generalize blockWord (memory.drop p) = word at h₀ ⊢
  have h₁ : unrolledSecond.foldlM
      (fun regs e => opLater fg ((List.range 16).map word) e.1 e.2.1 e.2.2 regs)
      (namedAt word r 16) = some (namedAt word r 32) := by
    rw [hsecond, foldlM_map_range]
    exact laterRound_eq word r 1 rfl
  have h₂ : unrolledThird.foldlM
      (fun regs e => opLater fh ((List.range 16).map word) e.1 e.2.1 e.2.2 regs)
      (namedAt word r 32) = some (namedAt word r 48) := by
    rw [hthird, foldlM_map_range]
    exact laterRound_eq word r 2 rfl
  have h₃ : unrolledFourth.foldlM
      (fun regs e => opLater fi ((List.range 16).map word) e.1 e.2.1 e.2.2 regs)
      (namedAt word r 48) = some (namedAt word r 64) := by
    rw [hfourth, foldlM_map_range]
    exact laterRound_eq word r 3 rfl
  have hend : namedAt word r 64 = md5Steps word r 64 := named_whole 64 rfl _
  rw [← hend]
  generalize namedAt word r = regs at h₀ h₁ h₂ h₃ ⊢
  rw [unrolled, h₀, Option.bind_eq_bind, Option.bind_some]
  dsimp only
  rw [h₁, Option.bind_eq_bind, Option.bind_some, h₂, Option.bind_some, h₃]

/-- The lines of the loops at speed 1, in every turn. -/
theorem fourOps_lines (turn : Fin 4) :
    fourOps 7 12 17 22 = (List.range 4).map (fun j => lineAt (4 * turn + j)) ∧
      fourOps 5 9 14 20 = (List.range 4).map (fun j => lineAt (16 + (4 * turn + j))) ∧
      fourOps 4 11 16 23 = (List.range 4).map (fun j => lineAt (32 + (4 * turn + j))) ∧
      fourOps 6 10 15 21 = (List.range 4).map (fun j => lineAt (48 + (4 * turn + j))) := by
  decide +revert

/-- What the pointers at speed 1 point to: the table of indices lacks its first line. -/
theorem pArray_one (round : Fin 4) (i : Fin 16) (hround : 0 < round) :
    (pArray 1)[16 * (round.val - 1) + i.val]? = some (wordIndex (16 * round + i)) := by
  decide +revert

/-- The first loop at speed 1. -/
theorem rolledFirst_eq (host : HostOrder) {memory : List UInt8} {p : ℕ}
    (hp : p + 64 ≤ memory.length) (r : Md5Regs) :
    forTurns 4 (fun _ s => (fourOps 7 12 17 22).foldlM (opCursorFirst host memory p) s)
        ⟨r, [], 0, 0⟩ =
      some ⟨namedAt (blockWord (memory.drop p)) r 16,
        (List.range 16).map (blockWord (memory.drop p)), 16, 0⟩ := by
  have hline : ∀ i < 16, opCursorFirst host memory p
      ⟨namedAt (blockWord (memory.drop p)) r i, (List.range i).map (blockWord (memory.drop p)),
       i, 0⟩
      (lineAt i) = some ⟨namedAt (blockWord (memory.drop p)) r (i + 1),
        (List.range (i + 1)).map (blockWord (memory.drop p)), i + 1, 0⟩ := by
    intro i hi
    have ht := (tables_at 0 ⟨i, hi⟩).2.2.1
    have hstep := opFirst_eq host hp hi (md5Steps (blockWord (memory.drop p)) r i)
    simp only [Fin.val_zero, Nat.mul_zero, Nat.zero_add] at ht
    simp only [opCursorFirst, namedAt, ht, hstep, Option.bind_eq_bind, Option.bind_some,
      Option.pure_def]
    rfl
  generalize blockWord (memory.drop p) = word at hline ⊢
  refine forTurns_eq (fun turn => (⟨namedAt word r (4 * turn), (List.range (4 * turn)).map word,
    4 * turn, 0⟩ : OpCursor)) ?_
  intro turn hturn
  have hlines : fourOps 7 12 17 22 = (List.range 4).map fun j => lineAt (4 * turn + j) :=
    (fourOps_lines ⟨turn, hturn⟩).1
  rw [hlines, foldlM_map_range]
  refine forTurns_eq (fun j => (⟨namedAt word r (4 * turn + j),
    (List.range (4 * turn + j)).map word, 4 * turn + j, 0⟩ : OpCursor)) ?_
  intro j hj
  exact hline (4 * turn + j) (by omega)

/-- Another loop at speed 1, with its first step and its lines. -/
theorem rolledLater_eq (word : ℕ → BitVec 32) (r : Md5Regs) (round : Fin 4) (hround : 0 < round)
    (first : ℕ) (hfirst : 16 * round.val = first) {lines : List OpLine}
    (hlines : ∀ turn < 4, lines = (List.range 4).map fun j => lineAt (first + (4 * turn + j))) :
    forTurns 4 (fun _ s => lines.foldlM (opCursorLater (roundMacro round)) s)
        ⟨namedAt word r first, (List.range 16).map word, first, first - 16⟩ =
      some ⟨namedAt word r (first + 16), (List.range 16).map word, first + 16, first⟩ := by
  subst hfirst
  have hline : ∀ i < 16, opCursorLater (roundMacro round)
      ⟨namedAt word r (16 * round + i), (List.range 16).map word, 16 * round + i,
        16 * round - 16 + i⟩ (lineAt (16 * round + i)) =
      some ⟨namedAt word r (16 * round + (i + 1)), (List.range 16).map word, 16 * round + (i + 1),
        16 * round - 16 + (i + 1)⟩ := by
    intro i hi
    have ht := (tables_at round ⟨i, hi⟩).2.2.1
    have hk := pArray_one round ⟨i, hi⟩ hround
    have hstep := opLater_eq word round hi (md5Steps word r (16 * round + i))
    rw [Nat.mul_sub, Nat.mul_one] at hk
    simp only [opCursorLater, namedAt, hk, ht, hstep, Option.bind_eq_bind, Option.bind_some,
      Option.pure_def]
    rfl
  have hloop : forTurns 4 (fun _ s => lines.foldlM (opCursorLater (roundMacro round)) s)
      ⟨namedAt word r (16 * round), (List.range 16).map word, 16 * round, 16 * round - 16⟩ =
      some ⟨namedAt word r (16 * round + 16), (List.range 16).map word, 16 * round + 16,
        16 * round - 16 + 16⟩ := by
    refine forTurns_eq (fun turn => (⟨namedAt word r (16 * round + 4 * turn),
      (List.range 16).map word, 16 * round + 4 * turn,
      16 * round - 16 + 4 * turn⟩ : OpCursor)) ?_
    intro turn hturn
    rw [hlines turn hturn, foldlM_map_range]
    refine forTurns_eq (fun j => (⟨namedAt word r (16 * round + (4 * turn + j)),
      (List.range 16).map word, 16 * round + (4 * turn + j),
      16 * round - 16 + (4 * turn + j)⟩ : OpCursor)) ?_
    intro j hj
    exact hline (4 * turn + j) (by omega)
  have hle : 16 ≤ 16 * round.val := by
    have := Fin.lt_def.mp hround
    simp only [Fin.val_zero] at this
    omega
  rw [hloop, Nat.sub_add_cancel hle]

/-- The text with four operations a turn is the 64 steps. -/
theorem rolled_eq (host : HostOrder) {memory : List UInt8} {p : ℕ}
    (hp : p + 64 ≤ memory.length) (r : Md5Regs) :
    rolled host memory p r = some (md5Steps (blockWord (memory.drop p)) r 64) := by
  have h₀ := rolledFirst_eq host hp r
  generalize blockWord (memory.drop p) = word at h₀ ⊢
  have h₁ : forTurns 4 (fun _ s => (fourOps 5 9 14 20).foldlM (opCursorLater fg) s)
      ⟨namedAt word r 16, (List.range 16).map word, 16, 0⟩ =
      some ⟨namedAt word r 32, (List.range 16).map word, 32, 16⟩ :=
    rolledLater_eq word r 1 (by decide) 16 rfl fun turn hturn => (fourOps_lines ⟨turn, hturn⟩).2.1
  have h₂ : forTurns 4 (fun _ s => (fourOps 4 11 16 23).foldlM (opCursorLater fh) s)
      ⟨namedAt word r 32, (List.range 16).map word, 32, 16⟩ =
      some ⟨namedAt word r 48, (List.range 16).map word, 48, 32⟩ :=
    rolledLater_eq word r 2 (by decide) 32 rfl fun turn hturn => (fourOps_lines ⟨turn, hturn⟩).2.2.1
  have h₃ : forTurns 4 (fun _ s => (fourOps 6 10 15 21).foldlM (opCursorLater fi) s)
      ⟨namedAt word r 48, (List.range 16).map word, 48, 32⟩ =
      some ⟨namedAt word r 64, (List.range 16).map word, 64, 48⟩ :=
    rolledLater_eq word r 3 (by decide) 48 rfl fun turn hturn => (fourOps_lines ⟨turn, hturn⟩).2.2.2
  have hend : namedAt word r 64 = md5Steps word r 64 := named_whole 64 rfl _
  rw [← hend]
  generalize namedAt word r = regs at h₀ h₁ h₂ h₃ ⊢
  rw [rolled, h₀, Option.bind_eq_bind, Option.bind_some, h₁, Option.bind_some, h₂,
    Option.bind_some, h₃, Option.bind_some, Option.pure_def]

/-! ## A block, whatever the text -/

/-- **Each text does the 64 steps.**  The rounds at any speed and on either machine come to the
steps of the block. -/
theorem blockRounds_eq (speed : Fin 4) (host : HostOrder) {memory : List UInt8} {p : ℕ}
    (hp : p + 64 ≤ memory.length) (r : Md5Regs) :
    blockRounds speed host memory p r = some (md5Steps (blockWord (memory.drop p)) r 64) := by
  have hwords := correctWords_eq host hp
  fin_cases speed
  · exact unrolled_eq host hp r
  · exact rolled_eq host hp r
  · show (correctWords host memory p).bind (fun cwp => fourLoops cwp r) = _
    rw [hwords, Option.bind_some, fourLoops_eq]
  · show (correctWords host memory p).bind (fun cwp => oneLoop cwp r) = _
    rw [hwords, Option.bind_some, oneLoop_eq]

end Ctools.Analysis
