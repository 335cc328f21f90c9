import Ctools.Library.Machine
import Ctools.Library.Heap
import Ctools.Program.Errno

/-!
# The pool allocator of `pool.c`

`Pool` is `pool_t`.  The elements live in a `Heap`, and so does the list of the
freed ones: `next_free` is a pointer in the first `w` bytes of a freed element,
where `w` is `sizeof(struct pool_freed)`.  The directory `blocks` is a list,
whose entries are `none` until they are written.

What `malloc` and `realloc` answer is an input.  Where the source leaves its
own memory, reads what was not written, follows a `NULL` or overflows the
`int32_t` `block`, the function answers `none`; `uint32_t` arithmetic wraps.
-/

set_option autoImplicit false

namespace Ctools.Program

open Ctools.Library

/-- `POOL_BLOCKS_INITIAL`.
SOURCE: pool.c:7 -/
def POOL_BLOCKS_INITIAL : UInt32 := 1

/-- `pool_t`.
SOURCE: pool.h:10-18 -/
structure Pool where
  elementSize : UInt32
  blockSize : UInt32
  used : UInt32
  block : ℤ
  freed : Addr
  blocksUsed : UInt32
  blocks : List (Option Addr)
deriving DecidableEq

/-- The loop that sets `n` entries of the directory to `NULL`, from entry `i` on.
SOURCE: pool.c:28-29, pool.c:62-63 -/
def nullEntries (blocks : List (Option Addr)) (i : ℕ) : ℕ → Option (List (Option Addr))
  | 0 => some blocks
  | n + 1 =>
      if i < blocks.length then nullEntries (blocks.set i (some .null)) (i + 1) n else none

/-- `pool_free_all`.
SOURCE: pool.c:82-87 -/
def poolFreeAll (p : Pool) : Pool :=
  { p with used := p.blockSize - 1, block := -1, freed := .null }

/-- `pool_init`; `allocated` says whether `malloc` returned the directory.
SOURCE: pool.c:13-32 -/
def poolInit (w : ℕ) (elementSize blockSize : UInt32) (allocated : Bool) : Option (ℤ × Pool) :=
  let p := poolFreeAll
    { elementSize := UInt32.ofNat (max elementSize.toNat w)
      blockSize := blockSize
      used := 0
      block := 0
      freed := .null
      blocksUsed := POOL_BLOCKS_INITIAL
      blocks := [] }
  if allocated then
    (nullEntries (List.replicate p.blocksUsed.toNat none) 0 p.blocksUsed.toNat).map fun blocks =>
      (0, { p with blocks := blocks })
  else some (-ENOMEM, p)

/-- `p->blocks[p->block]`. -/
def Pool.entry (p : Pool) : Option Addr :=
  if 0 ≤ p.block then (p.blocks[p.block.toNat]?).join else none

/-- The directory doubles; `reallocated` says whether `realloc` returned it.
SOURCE: pool.c:57-64 -/
def poolDouble (p : Pool) (reallocated : Bool) : Option Pool :=
  let blocksUsed := p.blocksUsed <<< 1
  let blocks := p.blocks.take blocksUsed.toNat ++
    List.replicate (blocksUsed.toNat - p.blocks.length) none
  let i := (blocksUsed >>> 1).toNat
  if reallocated then
    (nullEntries blocks i (blocksUsed.toNat - i)).map fun blocks =>
      { p with blocksUsed := blocksUsed, blocks := blocks }
  else none

/-- The directory has an entry for block `block`, unless `realloc` fails.
SOURCE: pool.c:57-65 -/
def poolReserve (p : Pool) (reallocated : Bool) : Option Pool :=
  if p.block = p.blocksUsed.toBitVec.toInt then poolDouble p reallocated else some p

/-- Block `block` is there, unless `malloc` fails: `backed` says whether it
returned one.
SOURCE: pool.c:67-68 -/
def poolBack (p : Pool) (heap : Heap) (backed : Bool) : Option (Pool × Heap) := do
  let entry ← p.entry
  if entry ≠ .null then pure (p, heap)
  else if backed then
    let (fresh, heap) := heap.alloc (p.elementSize * p.blockSize).toNat
    pure ({ p with blocks := p.blocks.set p.block.toNat (some fresh) }, heap)
  else pure ({ p with blocks := p.blocks.set p.block.toNat (some .null) }, heap)

/-- The cursor moves to the first element of the next block.
SOURCE: pool.c:56-68 -/
def poolNextBlock (p : Pool) (heap : Heap) (reallocated backed : Bool) : Option (Pool × Heap) :=
  if p.block + 1 < 2 ^ 31 then do
    let p ← poolReserve { p with used := 0, block := p.block + 1 } reallocated
    poolBack p heap backed
  else none

/-- The cursor moves to the next element.
SOURCE: pool.c:55-69 -/
def poolAdvance (p : Pool) (heap : Heap) (reallocated backed : Bool) : Option (Pool × Heap) :=
  if p.used + 1 = p.blockSize then poolNextBlock p heap reallocated backed
  else some ({ p with used := p.used + 1 }, heap)

/-- `pool_malloc`.
SOURCE: pool.c:47-72 -/
def poolMalloc (w : ℕ) (p : Pool) (heap : Heap) (reallocated backed : Bool) :
    Option (Addr × Pool × Heap) :=
  if p.freed ≠ .null then do
    let next ← heap.loadPtr w p.freed
    pure (p.freed, { p with freed := next }, heap)
  else do
    let (p, heap) ← poolAdvance p heap reallocated backed
    let entry ← p.entry
    pure (entry.add (p.used * p.elementSize).toNat, p, heap)

/-- `pool_free`.
SOURCE: pool.c:74-80 -/
def poolFree (w : ℕ) (p : Pool) (heap : Heap) (ptr : Addr) : Option (Pool × Heap) := do
  let heap ← heap.storePtr w ptr p.freed
  pure ({ p with freed := ptr }, heap)

/-- The loop that frees the blocks the directory names from entry `i` on, as far as
the first `NULL`; `n` entries are left.
SOURCE: pool.c:37-42 -/
def deinitBlocks (blocks : List (Option Addr)) (i : ℕ) : ℕ → Option (List Addr)
  | 0 => some []
  | n + 1 => do
      let entry ← (blocks[i]?).join
      if entry = .null then pure []
      else
        let rest ← deinitBlocks blocks (i + 1) n
        pure (entry :: rest)

/-- `pool_deinit`: the blocks it frees, in order.
SOURCE: pool.c:34-45 -/
def poolDeinit (p : Pool) : Option (List Addr) := deinitBlocks p.blocks 0 p.blocksUsed.toNat

/-- A pool, its memory, and the elements its users hold. -/
structure PoolWorld where
  pool : Pool
  heap : Heap
  live : List Addr

/-- A call of the pool, or a write by the user of an element. -/
inductive PoolAct where
  | malloc (reallocated backed : Bool)
  | free (ptr : Addr)
  | freeAll
  | use (ptr : Addr) (off : ℕ) (c : Cell)

/-- One call, and what `pool_malloc` returned.
SOURCE: pool.c:47-87 -/
def poolStep (w : ℕ) (s : PoolWorld) : PoolAct → Option (Option Addr × PoolWorld)
  | .malloc reallocated backed => do
      let (ptr, pool, heap) ← poolMalloc w s.pool s.heap reallocated backed
      pure (some ptr, ⟨pool, heap, if ptr = .null then s.live else ptr :: s.live⟩)
  | .free ptr => do
      let (pool, heap) ← poolFree w s.pool s.heap ptr
      pure (none, ⟨pool, heap, s.live.erase ptr⟩)
  | .freeAll => some (none, ⟨poolFreeAll s.pool, s.heap, []⟩)
  | .use ptr off c => do
      let heap ← s.heap.write (ptr.add off) c
      pure (none, { s with heap := heap })

/-- The pool and its users. -/
def poolMachine (w : ℕ) : Machine PoolWorld PoolAct (Option Addr) := ⟨poolStep w⟩

end Ctools.Program
