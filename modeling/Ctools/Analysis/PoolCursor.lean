import Ctools.Program.Pool

/-!
# The places, the directory and the cursor of the pool

An element has a number: element `k` of block `b` is place `b * block_size + k`.
The pool names its blocks in a directory that doubles when it is full
(`HasDirectory`), and its cursor goes through the places in order: from one call
of `pool_malloc` to the next, `block * block_size + used` grows by one
(`poolAdvance_spec`), and the address it computes is that of the place
(`Ready.address`).  Where the blocks are whole, whatever their size in bytes, is said by
`Cursor`; `Ready` adds that no size wraps.
-/

set_option autoImplicit false

namespace Ctools.Analysis

open Ctools.Library Ctools.Program Heap

/-! ## Places -/

/-- Element `e % bs` of block `e / bs`. -/
def place (es bs e : ℕ) : Addr := ⟨some (e / bs), e % bs * es⟩

/-- Different places of at least `n` bytes have none in common. -/
theorem place_apart {es bs e f n m : ℕ} (hn : n ≤ es) (hm : m ≤ es) (hne : e ≠ f) :
    (place es bs e).Apart n (place es bs f) m := by
  by_cases hblock : e / bs = f / bs
  · have hoff : e % bs ≠ f % bs := by
      intro heq
      exact hne (by rw [← Nat.div_add_mod e bs, hblock, heq, Nat.div_add_mod])
    rcases Nat.lt_or_gt_of_ne hoff with hlt | hlt
    · have hle := Nat.mul_le_mul_right es (Nat.succ_le_of_lt hlt)
      rw [Nat.succ_mul] at hle
      exact .inr (.inl (show e % bs * es + n ≤ f % bs * es by omega))
    · have hle := Nat.mul_le_mul_right es (Nat.succ_le_of_lt hlt)
      rw [Nat.succ_mul] at hle
      exact .inr (.inr (show f % bs * es + m ≤ e % bs * es by omega))
  · exact .inl fun heq => hblock (Option.some.inj heq)

/-- Different elements have different places. -/
theorem place_injective {es bs : ℕ} (hes : 0 < es) : Function.Injective (place es bs) := by
  intro e f heq
  have hblock : e / bs = f / bs := Option.some.inj (congrArg Addr.block heq)
  have hoff : e % bs * es = f % bs * es := congrArg Addr.off heq
  rw [← Nat.div_add_mod e bs, hblock, Nat.eq_of_mul_eq_mul_right hes hoff, Nat.div_add_mod]

/-- No place is `NULL`. -/
theorem place_ne_null {es bs e : ℕ} : place es bs e ≠ .null := by
  simp [place, Addr.null]

/-- Element `k` of block `b`. -/
theorem place_eq {es bs b k : ℕ} (hk : k < bs) : place es bs (b * bs + k) = ⟨some b, k * es⟩ := by
  have hdiv : (b * bs + k) / bs = b := by
    rw [Nat.mul_comm, Nat.mul_add_div (by omega), Nat.div_eq_of_lt hk, Nat.add_zero]
  have hmod : (b * bs + k) % bs = k := by
    rw [Nat.mul_comm, Nat.mul_add_mod, Nat.mod_eq_of_lt hk]
  rw [place, hdiv, hmod]

/-! ## The directory -/

/-- The directory of `n` blocks and `size` entries. -/
def directory (n size : ℕ) : List (Option Addr) :=
  (List.range n).map (fun b => some ⟨some b, 0⟩) ++ List.replicate (size - n) (some .null)

/-- The pool's directory names the first `n` blocks in order; its size is a power
of two, and at most `2 ^ 31`. -/
structure HasDirectory (n : ℕ) (p : Pool) : Prop where
  pow : ∃ k ≤ 31, p.blocksUsed.toNat = 2 ^ k
  le : n ≤ p.blocksUsed.toNat
  blocks : p.blocks = directory n p.blocksUsed.toNat

/-- The directory has at most `2 ^ 31` entries. -/
theorem HasDirectory.le_pow {n : ℕ} {p : Pool} (hp : HasDirectory n p) :
    p.blocksUsed.toNat ≤ 2 ^ 31 := by
  obtain ⟨k, hk, hpow⟩ := hp.pow
  rw [hpow]
  exact Nat.pow_le_pow_right (by norm_num) hk

/-- Only a directory of `2 ^ 31` entries has no positive `int32_t` size. -/
theorem toInt_blocksUsed {n : ℕ} {p : Pool} (hp : HasDirectory n p) :
    p.blocksUsed.toBitVec.toInt =
      if p.blocksUsed.toNat < 2 ^ 31 then (p.blocksUsed.toNat : ℤ) else -2 ^ 31 := by
  have hle := hp.le_pow
  rw [BitVec.toInt_eq_toNat_cond]
  simp only [UInt32.toNat_toBitVec]
  split <;> split <;> omega

/-- The loop of `NULL`s behind what is there. -/
theorem nullEntries_append (n : ℕ) (xs : List (Option Addr)) :
    nullEntries (xs ++ List.replicate n none) xs.length n =
      some (xs ++ List.replicate n (some .null)) := by
  induction n generalizing xs with
  | zero => simp [nullEntries]
  | succ n ih =>
    have hlt : xs.length < (xs ++ List.replicate (n + 1) none).length := by simp
    have hset : (xs ++ List.replicate (n + 1) none).set xs.length (some .null) =
        (xs ++ [some .null]) ++ List.replicate n none := by
      simp [List.replicate_succ]
    have hlen : xs.length + 1 = (xs ++ [some Addr.null]).length := by simp
    rw [nullEntries, if_pos hlt, hset, hlen, ih]
    simp [List.replicate_succ]

/-- A directory of fewer than `2 ^ 31` entries doubles.
SOURCE: pool.c:57-64 -/
theorem poolDouble_spec {n : ℕ} {p : Pool} (hp : HasDirectory n p)
    (hsize : p.blocksUsed.toNat < 2 ^ 31) :
    ∃ blocksUsed blocks, poolDouble p true =
        some { p with blocksUsed := blocksUsed, blocks := blocks } ∧
      HasDirectory n { p with blocksUsed := blocksUsed, blocks := blocks } ∧
      p.blocksUsed.toNat < blocksUsed.toNat := by
  obtain ⟨k, hk, hpow⟩ := hp.pow
  have hle := hp.le
  have hk' : k < 31 := by
    by_contra hge
    have hk31 : k = 31 := by omega
    rw [hk31] at hpow
    omega
  have hdouble : (p.blocksUsed <<< 1).toNat = 2 * p.blocksUsed.toNat := by
    rw [UInt32.toNat_shiftLeft, Nat.shiftLeft_eq]
    simp
    omega
  have hback : (p.blocksUsed <<< 1 >>> 1).toNat = p.blocksUsed.toNat := by
    rw [UInt32.toNat_shiftRight, Nat.shiftRight_eq_div_pow, hdouble]
    simp
  have hlen : p.blocks.length = p.blocksUsed.toNat := by
    rw [hp.blocks, directory]
    simp
    omega
  have hgrow : 2 * p.blocksUsed.toNat - p.blocksUsed.toNat = p.blocksUsed.toNat := by omega
  refine ⟨p.blocksUsed <<< 1, p.blocks ++ List.replicate p.blocksUsed.toNat (some .null), ?_,
    ⟨?_, ?_, ?_⟩, ?_⟩
  · have hfill := nullEntries_append p.blocksUsed.toNat p.blocks
    rw [hlen] at hfill
    rw [poolDouble, if_pos rfl, hback, hdouble, hlen, hgrow, List.take_of_length_le (by omega),
      hfill, Option.map_some]
  · exact ⟨k + 1, by omega, by rw [hdouble, hpow, pow_succ, Nat.mul_comm]⟩
  · show n ≤ (p.blocksUsed <<< 1).toNat
    omega
  · show p.blocks ++ List.replicate p.blocksUsed.toNat (some .null) =
      directory n (p.blocksUsed <<< 1).toNat
    have hrest : 2 * p.blocksUsed.toNat - n =
        p.blocksUsed.toNat - n + p.blocksUsed.toNat := by omega
    rw [hdouble, hp.blocks, directory, directory, hrest, List.replicate_add, List.append_assoc]
  · have hpos : 0 < 2 ^ k := Nat.pow_pos (by norm_num)
    omega

/-- The entries of the directory. -/
theorem HasDirectory.getElem? {n : ℕ} {p : Pool} (hp : HasDirectory n p) (i : ℕ) :
    p.blocks[i]? = if i < n then some (some ⟨some i, 0⟩)
      else if i < p.blocksUsed.toNat then some (some .null) else none := by
  have hle := hp.le
  rw [hp.blocks, directory, List.getElem?_append, List.length_map, List.length_range]
  by_cases hi : i < n
  · rw [if_pos hi, if_pos hi, List.getElem?_map, List.getElem?_range hi]
    rfl
  · rw [if_neg hi, if_neg hi, List.getElem?_replicate]
    split_ifs <;> first | rfl | omega

/-- The entry of a block that is there. -/
theorem HasDirectory.entry_of_lt {n b : ℕ} {p : Pool} (hp : HasDirectory n p)
    (hb : p.block = b) (hlt : b < n) : p.entry = some ⟨some b, 0⟩ := by
  simp [Pool.entry, hb, hp.getElem?, hlt]

/-- The entry of a block that is not there yet. -/
theorem HasDirectory.entry_of_ge {n b : ℕ} {p : Pool} (hp : HasDirectory n p) (hb : p.block = b)
    (hge : n ≤ b) (hlt : b < p.blocksUsed.toNat) : p.entry = some .null := by
  simp [Pool.entry, hb, hp.getElem?, hlt, Nat.not_lt.mpr hge]

/-- The next block is entered. -/
theorem HasDirectory.set_next {n : ℕ} {p : Pool} (hp : HasDirectory n p)
    (hlt : n < p.blocksUsed.toNat) :
    HasDirectory (n + 1) { p with blocks := p.blocks.set n (some ⟨some n, 0⟩) } := by
  refine ⟨hp.pow, hlt, ?_⟩
  have hsize : p.blocksUsed.toNat - n = p.blocksUsed.toNat - (n + 1) + 1 := by omega
  show p.blocks.set n (some ⟨some n, 0⟩) = directory (n + 1) p.blocksUsed.toNat
  rw [hp.blocks, directory, directory, hsize, List.replicate_succ, List.range_succ]
  simp

/-- The loop frees the blocks named before the first `NULL`.
SOURCE: pool.c:37-42 -/
theorem deinitBlocks_named (blocks : List (Option Addr)) (i n : ℕ) {k : ℕ}
    (hnamed : ∀ j < n, blocks[i + j]? = some (some ⟨some (i + j), 0⟩))
    (hstop : 0 < k → blocks[i + n]? = some (some .null)) :
    deinitBlocks blocks i (n + k) = some ((List.range' i n).map fun b => ⟨some b, 0⟩) := by
  induction n generalizing i with
  | zero =>
    cases k with
    | zero => rfl
    | succ k =>
      have hnull := hstop (by omega)
      rw [Nat.add_zero] at hnull
      rw [Nat.zero_add, deinitBlocks, hnull]
      rfl
  | succ n ih =>
    have hfirst := hnamed 0 (by omega)
    rw [Nat.add_zero] at hfirst
    have hrest := ih (i + 1)
      (fun j hj => by
        have := hnamed (j + 1) (by omega)
        rwa [Nat.add_comm j 1, ← Nat.add_assoc] at this)
      (fun hk => by
        have := hstop hk
        rwa [Nat.add_comm n 1, ← Nat.add_assoc] at this)
    rw [Nat.succ_add, deinitBlocks, hfirst, List.range'_succ, List.map_cons]
    simp [hrest, Addr.null]

/-- `pool_deinit` frees the blocks the directory names.
SOURCE: pool.c:34-45 -/
theorem HasDirectory.deinit_eq {n : ℕ} {p : Pool} (hp : HasDirectory n p) :
    poolDeinit p = some ((List.range n).map fun b => ⟨some b, 0⟩) := by
  have hle := hp.le
  have hloop := deinitBlocks_named p.blocks 0 n (k := p.blocksUsed.toNat - n)
    (fun j hj => by rw [Nat.zero_add, hp.getElem?, if_pos hj])
    (fun hk => by rw [Nat.zero_add, hp.getElem?, if_neg (by omega), if_pos (by omega)])
  rw [poolDeinit, List.range_eq_range', ← hloop]
  congr 1
  omega

/-! ## The cursor -/

/-- What the pool is initialised with: elements that hold a pointer, and blocks of
at least one element whose size in bytes is a `uint32_t`. -/
structure PoolShape (w : ℕ) (es bs : UInt32) : Prop where
  pointer : 0 < w
  width : w ≤ es.toNat
  elements : 0 < bs.toNat
  fits : es.toNat * bs.toNat < 2 ^ 32

/-- The cursor is on a place of a block that is there, or before the first one, and
the directory names all blocks. -/
structure Ready (es bs : UInt32) (p : Pool) (heap : Heap) : Prop where
  elementSize : p.elementSize = es
  blockSize : p.blockSize = bs
  used_lt : p.used.toNat < bs.toNat
  block_ge : -1 ≤ p.block
  start : p.block = -1 → p.used.toNat + 1 = bs.toNat
  block_lt : p.block < heap.sizes.length
  sizes : heap.sizes = List.replicate heap.sizes.length (es.toNat * bs.toNat)
  directory : HasDirectory heap.sizes.length p

/-- `Ready` without what is said of the sizes: the cursor among `n` blocks, of any size
in bytes. -/
structure Cursor (bs : UInt32) (n : ℕ) (p : Pool) : Prop where
  blockSize : p.blockSize = bs
  used_lt : p.used.toNat < bs.toNat
  block_ge : -1 ≤ p.block
  start : p.block = -1 → p.used.toNat + 1 = bs.toNat
  block_lt : p.block < n
  directory : HasDirectory n p

/-- A pool that is ready has its cursor among its blocks. -/
theorem Ready.cursor {es bs : UInt32} {p : Pool} {heap : Heap} (hp : Ready es bs p heap) :
    Cursor bs heap.sizes.length p :=
  ⟨hp.blockSize, hp.used_lt, hp.block_ge, hp.start, hp.block_lt, hp.directory⟩

/-- The cursor does not depend on the freed elements. -/
theorem Cursor.refreed {bs : UInt32} {n : ℕ} {p : Pool} (hp : Cursor bs n p) (freed : Addr) :
    Cursor bs n { p with freed := freed } :=
  ⟨hp.blockSize, hp.used_lt, hp.block_ge, hp.start, hp.block_lt,
    ⟨hp.directory.pow, hp.directory.le, hp.directory.blocks⟩⟩

/-- `pool_free_all` puts the cursor before the first place, whatever `used` and `block`
were.
SOURCE: pool.c:82-87 -/
theorem cursor_freeAll {bs : UInt32} {n : ℕ} {p : Pool} (hbs : 0 < bs.toNat)
    (hblock : p.blockSize = bs) (hdir : HasDirectory n p) :
    Cursor bs n (poolFreeAll p) ∧ (poolFreeAll p).used.toNat + 1 = bs.toNat := by
  have hused : (poolFreeAll p).used.toNat + 1 = bs.toNat := by
    show (p.blockSize - 1).toNat + 1 = bs.toNat
    have hle : 1 ≤ bs := by
      rw [UInt32.le_iff_toNat_le]
      simp
      omega
    rw [hblock, UInt32.toNat_sub_of_le _ _ hle]
    simp
    omega
  refine ⟨?_, hused⟩
  exact {
    blockSize := hblock
    used_lt := by omega
    block_ge := le_rfl
    start := fun _ => hused
    block_lt := show (-1 : ℤ) < _ by omega
    directory := ⟨hdir.pow, hdir.le, hdir.blocks⟩ }

/-- Loads from `heap` are loads from `heap'`. -/
def LoadsKept (w : ℕ) (heap heap' : Heap) : Prop :=
  ∀ a q, heap.loadPtr w a = some q → heap'.loadPtr w a = some q

/-- The product of a place in its block and the element size does not wrap. -/
theorem PoolShape.mul_toNat {w : ℕ} {es bs : UInt32} (hshape : PoolShape w es bs) {k : UInt32}
    (hk : k.toNat ≤ bs.toNat) : (k * es).toNat = k.toNat * es.toNat := by
  have hle := Nat.mul_le_mul_right es.toNat hk
  have hfits := hshape.fits
  rw [Nat.mul_comm] at hfits
  rw [UInt32.toNat_mul, Nat.mod_eq_of_lt (by omega)]

/-- There is an entry for the cursor's block, after the doubling if one is due.
SOURCE: pool.c:57-65 -/
theorem poolReserve_spec {n : ℕ} {p : Pool} (hp : HasDirectory n p) (hge : 0 ≤ p.block)
    (hlt : p.block < 2 ^ 31) (hle : p.block ≤ p.blocksUsed.toNat) :
    ∃ blocksUsed blocks,
      poolReserve p true = some { p with blocksUsed := blocksUsed, blocks := blocks } ∧
      HasDirectory n { p with blocksUsed := blocksUsed, blocks := blocks } ∧
      p.block < blocksUsed.toNat := by
  have hint := toInt_blocksUsed hp
  by_cases hfull : p.block = p.blocksUsed.toBitVec.toInt
  · have hsize : p.block = p.blocksUsed.toNat ∧ p.blocksUsed.toNat < 2 ^ 31 := by
      rw [hint] at hfull
      split at hfull <;> omega
    obtain ⟨blocksUsed, blocks, hdouble, hdir, hmore⟩ := poolDouble_spec hp hsize.2
    exact ⟨blocksUsed, blocks, by rw [poolReserve, if_pos hfull, hdouble], hdir, by omega⟩
  · refine ⟨p.blocksUsed, p.blocks, if_neg hfull, hp, ?_⟩
    rw [hint] at hfull
    split at hfull <;> omega

/-- The block is there. -/
theorem poolBack_of_there {p : Pool} {heap : Heap} {entry : Addr} (hread : p.entry = some entry)
    (hentry : entry ≠ .null) : poolBack p heap true = some (p, heap) := by
  simp [poolBack, hread, hentry]

/-- The block is allocated. -/
theorem poolBack_of_null {p : Pool} {heap : Heap} (hread : p.entry = some .null) :
    poolBack p heap true =
      some ({ p with blocks := p.blocks.set p.block.toNat (some ⟨some heap.sizes.length, 0⟩) },
        (heap.alloc (p.elementSize * p.blockSize).toNat).2) := by
  rw [poolBack, hread]
  rfl

/-- The cursor moves to the first place of the next block, which is a new one behind
the last.
SOURCE: pool.c:55-68 -/
theorem poolNextBlock_spec {bs : UInt32} {p : Pool} {heap : Heap} (hbs : 0 < bs.toNat)
    (hp : Cursor bs heap.sizes.length p) (hnext : p.block + 1 < 2 ^ 31) :
    ∃ p' heap', poolNextBlock p heap true true = some (p', heap') ∧
      Cursor bs heap'.sizes.length p' ∧ p'.used = 0 ∧ p'.block = p.block + 1 ∧
      p'.freed = p.freed ∧ p'.elementSize = p.elementSize ∧
      (heap' = heap ∨ p.block + 1 = heap.sizes.length ∧
        heap' = (heap.alloc (p.elementSize * p.blockSize).toNat).2) := by
  have hge := hp.block_ge
  have hlt := hp.block_lt
  have hle := hp.directory.le
  have hdir : HasDirectory heap.sizes.length { p with used := 0, block := p.block + 1 } :=
    ⟨hp.directory.pow, hp.directory.le, hp.directory.blocks⟩
  obtain ⟨blocksUsed, blocks, hready, hdir', hentry⟩ :=
    poolReserve_spec hdir (show 0 ≤ p.block + 1 by omega) hnext
      (show p.block + 1 ≤ (p.blocksUsed.toNat : ℤ) by omega)
  obtain ⟨b, hb⟩ : ∃ b : ℕ, p.block + 1 = b := ⟨(p.block + 1).toNat, by omega⟩
  have hentry : b < blocksUsed.toNat := by
    simp only [hb] at hentry
    exact_mod_cast hentry
  rw [poolNextBlock, if_pos hnext, hready]
  by_cases hthere : b < heap.sizes.length
  · -- a block that `pool_free_all` rewound the cursor over
    have hread := hdir'.entry_of_lt hb hthere
    refine ⟨_, heap, poolBack_of_there hread nofun, ?_, rfl, rfl, rfl, rfl, .inl rfl⟩
    exact {
      blockSize := hp.blockSize
      used_lt := hbs
      block_ge := show -1 ≤ p.block + 1 by omega
      start := fun hneg => by simp only at hneg; omega
      block_lt := show p.block + 1 < _ by omega
      directory := hdir' }
  · -- a new block, which is the first that the directory does not name
    have hbn : b = heap.sizes.length := by omega
    subst hbn
    have hread := hdir'.entry_of_ge hb le_rfl hentry
    have hindex : (p.block + 1).toNat = heap.sizes.length := by omega
    have hlen : (heap.alloc (p.elementSize * p.blockSize).toNat).2.sizes.length =
        heap.sizes.length + 1 := by
      simp [Heap.alloc]
    refine ⟨_, _, poolBack_of_null hread, ?_, rfl, rfl, rfl, rfl, .inr ⟨hb, rfl⟩⟩
    exact {
      blockSize := hp.blockSize
      used_lt := hbs
      block_ge := show -1 ≤ p.block + 1 by omega
      start := fun hneg => by simp only at hneg; omega
      block_lt := by
        rw [hlen]
        show p.block + 1 < _
        omega
      directory := by
        rw [hlen, hindex]
        exact hdir'.set_next hentry }

/-- The cursor moves to the next place, which lies in a block that is there; a block is
added when it was on the last place of the last one.
SOURCE: pool.c:55-69 -/
theorem poolAdvance_cursor {bs : UInt32} {p : Pool} {heap : Heap} (hbs : 0 < bs.toNat)
    (hp : Cursor bs heap.sizes.length p)
    (hnext : p.used + 1 = p.blockSize → p.block + 1 < 2 ^ 31) :
    ∃ p' heap', poolAdvance p heap true true = some (p', heap') ∧
      Cursor bs heap'.sizes.length p' ∧ 0 ≤ p'.block ∧
      p'.block * bs.toNat + p'.used.toNat = p.block * bs.toNat + p.used.toNat + 1 ∧
      p'.freed = p.freed ∧ p'.elementSize = p.elementSize ∧
      (heap' = heap ∨ p.block * bs.toNat + p.used.toNat + 1 = heap.sizes.length * bs.toNat ∧
        heap' = (heap.alloc (p.elementSize * p.blockSize).toNat).2) := by
  have hused := hp.used_lt
  have hbs' := bs.toNat_lt
  have hadd : (p.used + 1).toNat = p.used.toNat + 1 := by
    rw [UInt32.toNat_add]
    simp
    omega
  have hge := hp.block_ge
  by_cases hlast : p.used + 1 = p.blockSize
  · have hend : p.used.toNat + 1 = bs.toNat := by rw [← hadd, hlast, hp.blockSize]
    obtain ⟨p', heap', hmoved, hcursor, hused', hblock, hfreed, hes, hgrown⟩ :=
      poolNextBlock_spec hbs hp (hnext hlast)
    refine ⟨p', heap', by rw [poolAdvance, if_pos hlast, hmoved], hcursor, by omega, ?_, hfreed,
      hes, hgrown.imp_right fun ⟨hlastBlock, hnew⟩ => ⟨?_, hnew⟩⟩
    · rw [hused', hblock, ← hend]
      push_cast
      simp
      ring
    · rw [← hlastBlock, ← hend]
      push_cast
      ring
  · have hmore : p.used.toNat + 1 < bs.toNat := by
      have hne : p.used.toNat + 1 ≠ bs.toNat := by
        intro heq
        exact hlast (UInt32.toNat_inj.mp (by rw [hadd, heq, hp.blockSize]))
      omega
    -- the cursor is in a block, since it is on the last place before the first one
    have hin : 0 ≤ p.block := by
      have hcursor := hp.start
      by_contra hneg
      have hend := hcursor (by omega)
      omega
    refine ⟨_, heap, if_neg hlast, ?_, hin, ?_, rfl, rfl, .inl rfl⟩
    · exact {
        blockSize := hp.blockSize
        used_lt := by simpa [hadd] using hmore
        block_ge := hp.block_ge
        start := fun hneg => by simp only at hneg; omega
        block_lt := hp.block_lt
        directory := ⟨hp.directory.pow, hp.directory.le, hp.directory.blocks⟩ }
    · simp only [hadd]
      push_cast
      ring

/-- Where the size of a block does not wrap, all blocks have it.
SOURCE: pool.c:55-69 -/
theorem poolAdvance_spec {w : ℕ} {es bs : UInt32} {p : Pool} {heap : Heap}
    (hshape : PoolShape w es bs) (hp : Ready es bs p heap)
    (hnext : p.used + 1 = p.blockSize → p.block + 1 < 2 ^ 31) :
    ∃ p' heap', poolAdvance p heap true true = some (p', heap') ∧ Ready es bs p' heap' ∧
      0 ≤ p'.block ∧ p'.block * bs.toNat + p'.used.toNat = p.block * bs.toNat + p.used.toNat + 1 ∧
      p'.freed = p.freed ∧ LoadsKept w heap heap' ∧
      (heap'.sizes = heap.sizes ∨
        p.block * bs.toNat + p.used.toNat + 1 = heap.sizes.length * bs.toNat ∧
          heap'.sizes.length = heap.sizes.length + 1) := by
  obtain ⟨p', heap', hmoved, hcursor, hin, hplace, hfreed, hes, hgrown⟩ :=
    poolAdvance_cursor hshape.elements hp.cursor hnext
  have hready : heap'.sizes = List.replicate heap'.sizes.length (es.toNat * bs.toNat) →
      Ready es bs p' heap' := fun hsizes =>
    ⟨hes.trans hp.elementSize, hcursor.blockSize, hcursor.used_lt, hcursor.block_ge, hcursor.start,
      hcursor.block_lt, hsizes, hcursor.directory⟩
  rcases hgrown with rfl | ⟨hfull, rfl⟩
  · exact ⟨p', heap', hmoved, hready hp.sizes, hin, hplace, hfreed, fun _ _ h => h, .inl rfl⟩
  · have hbytes : (p.elementSize * p.blockSize).toNat = es.toNat * bs.toNat := by
      rw [UInt32.mul_comm, hp.elementSize, hp.blockSize, hshape.mul_toNat le_rfl, Nat.mul_comm]
    have hlen : (heap.alloc (p.elementSize * p.blockSize).toNat).2.sizes.length =
        heap.sizes.length + 1 := by
      simp [Heap.alloc]
    refine ⟨p', _, hmoved, hready ?_, hin, hplace, hfreed,
      fun _ _ h => loadPtr_alloc hshape.pointer _ h, .inr ⟨hfull, hlen⟩⟩
    rw [hlen, List.replicate_succ', ← hp.sizes, ← hbytes]
    rfl

/-- The address of the place the cursor is on.
SOURCE: pool.c:71 -/
theorem Ready.address {w : ℕ} {es bs : UInt32} {p : Pool} {heap : Heap}
    (hshape : PoolShape w es bs) (hp : Ready es bs p heap) {e : ℕ} (hin : 0 ≤ p.block)
    (he : p.block * bs.toNat + p.used.toNat = e) :
    ∃ entry, p.entry = some entry ∧
      entry.add (p.used * p.elementSize).toNat = place es.toNat bs.toNat e := by
  obtain ⟨b, hb⟩ : ∃ b : ℕ, p.block = b := ⟨p.block.toNat, by omega⟩
  have hlt := hp.block_lt
  have hplace : e = b * bs.toNat + p.used.toNat := by
    rw [hb] at he
    exact_mod_cast he.symm
  refine ⟨⟨some b, 0⟩, hp.directory.entry_of_lt hb (by omega), ?_⟩
  rw [hplace, place_eq hp.used_lt, hp.elementSize, hshape.mul_toNat hp.used_lt.le, Addr.add,
    Nat.zero_add]

end Ctools.Analysis
