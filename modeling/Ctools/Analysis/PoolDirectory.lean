import Ctools.Analysis.PoolOverflow

/-!
# The pool's directory is complete

Whatever the size of an element, and whether or not the size of a block wraps, the
cursor stays among the blocks that the directory names (`Cursor`), the directory has as
many entries as it says, all of them written, and the blocks are its first entries.  So
`pool_deinit` frees each block once (`directoryComplete_of_run`).  A call leaves what it may
access only where it reads or writes an element (`reachesElement`).  Where the size of a
block wraps some call does, and what it overwrites is not in its block; so the directory is
complete after each call exactly where it does not wrap.
-/

set_option autoImplicit false

namespace Ctools.Analysis

open Ctools.Library Ctools.Program Heap

/-- `malloc` and `realloc` succeed, and there are fewer than `2 ^ 31` blocks. -/
def allocationsSucceed (s : PoolWorld) : PoolAct → Prop
  | .malloc reallocated backed =>
      reallocated = true ∧ backed = true ∧ s.heap.sizes.length < 2 ^ 31
  | _ => True

instance (s : PoolWorld) : ∀ act, Decidable (allocationsSucceed s act)
  | .malloc _ _ => inferInstanceAs (Decidable (_ = true ∧ _ = true ∧ _ < _))
  | .free _ | .freeAll | .use _ _ _ => inferInstanceAs (Decidable True)

/-- What the call reads or writes of an element lies in a block, and what it reads as
a pointer was stored as one. -/
def reachesElement (w : ℕ) (s : PoolWorld) : PoolAct → Prop
  | .malloc _ _ => s.pool.freed ≠ .null → (s.heap.loadPtr w s.pool.freed).isSome
  | .free ptr => (s.heap.storePtr w ptr s.pool.freed).isSome
  | .freeAll => True
  | .use ptr off c => (s.heap.write (ptr.add off) c).isSome

/-- The cursor is in the directory, whose entries are all written: the blocks in the order
of their allocation, and then `NULL`.  `pool_deinit` frees each block once.
SOURCE: pool.h:10-18, pool.c:34-45 -/
structure DirectoryComplete (blockSize : UInt32) (s : PoolWorld) : Prop where
  cursor : -1 ≤ s.pool.block ∧ s.pool.block < s.pool.blocksUsed.toNat ∧
    s.pool.used.toNat < blockSize.toNat
  written : s.pool.blocks.length = s.pool.blocksUsed.toNat
  named : ∃ nulls, s.pool.blocks =
    ((List.range s.heap.sizes.length).map fun b => some ⟨some b, 0⟩) ++
      List.replicate nulls (some .null)
  freed : poolDeinit s.pool = some ((List.range s.heap.sizes.length).map fun b => ⟨some b, 0⟩)

variable {w : ℕ} {es bs : UInt32} {s s' : PoolWorld} {act : PoolAct} {o : Option Addr}

/-- What `poolGuard` allows are calls whose allocations succeed. -/
theorem allocationsSucceed_of_poolGuard (hguard : poolGuard s act) : allocationsSucceed s act := by
  cases act with
  | malloc reallocated backed => exact hguard
  | free | freeAll | use => trivial

/-- `pool_malloc` finds the entry of the block it needs.
SOURCE: pool.c:47-72 -/
theorem poolMalloc_cursor {p : Pool} {heap : Heap} (hbs : 0 < bs.toNat)
    (hp : Cursor bs heap.sizes.length p) (hblocks : heap.sizes.length < 2 ^ 31)
    (helement : p.freed ≠ .null → (heap.loadPtr w p.freed).isSome) :
    ∃ ptr p' heap', poolMalloc w p heap true true = some (ptr, p', heap') ∧
      Cursor bs heap'.sizes.length p' := by
  by_cases hfreed : p.freed = .null
  · have hlt := hp.block_lt
    obtain ⟨p', heap', hadvance, hcursor, hin, -⟩ :=
      poolAdvance_cursor hbs hp fun _ => show p.block + 1 < 2 ^ 31 by omega
    obtain ⟨b, hb⟩ : ∃ b : ℕ, p'.block = b := ⟨p'.block.toNat, by omega⟩
    have hthere := hcursor.block_lt
    have hentry := hcursor.directory.entry_of_lt hb (by omega)
    have hmalloc : poolMalloc w p heap true true =
        some (Addr.add ⟨some b, 0⟩ (p'.used * p'.elementSize).toNat, p', heap') := by
      rw [poolMalloc, if_neg (not_not.mpr hfreed), hadvance]
      simp only [Option.bind_eq_bind, Option.bind_some, hentry, Option.pure_def]
    exact ⟨_, p', heap', hmalloc, hcursor⟩
  · obtain ⟨next, hload⟩ := Option.isSome_iff_exists.mp (helement hfreed)
    have hmalloc : poolMalloc w p heap true true =
        some (p.freed, { p with freed := next }, heap) := by
      rw [poolMalloc, if_pos hfreed, hload]
      rfl
    exact ⟨_, _, heap, hmalloc, hp.refreed next⟩

/-- Every call whose element is there succeeds, and leaves the cursor in the directory.
SOURCE: pool.c:47-87 -/
theorem cursor_step (hbs : 0 < bs.toNat) (hs : Cursor bs s.heap.sizes.length s.pool)
    (hguard : allocationsSucceed s act) (helement : reachesElement w s act) :
    ∃ o s', poolStep w s act = some (o, s') ∧ Cursor bs s'.heap.sizes.length s'.pool := by
  cases act with
  | malloc reallocated backed =>
    obtain ⟨rfl, rfl, hblocks⟩ := hguard
    obtain ⟨ptr, p, heap, hmalloc, hcursor⟩ := poolMalloc_cursor hbs hs hblocks helement
    refine ⟨some ptr, ⟨p, heap, if ptr = .null then s.live else ptr :: s.live⟩, ?_, hcursor⟩
    simp [poolStep, hmalloc]
  | free ptr =>
    obtain ⟨heap, hstore⟩ := Option.isSome_iff_exists.mp helement
    refine ⟨none, ⟨{ s.pool with freed := ptr }, heap, s.live.erase ptr⟩, ?_, ?_⟩
    · simp [poolStep, poolFree, hstore]
    · rw [sizes_of_storePtr hstore]
      exact hs.refreed ptr
  | freeAll => exact ⟨none, _, rfl, (cursor_freeAll hbs hs.blockSize hs.directory).1⟩
  | use ptr off c =>
    obtain ⟨heap, hwrite⟩ := Option.isSome_iff_exists.mp helement
    refine ⟨none, { s with heap := heap }, ?_, ?_⟩
    · simp [poolStep, hwrite]
    · rw [sizes_of_write hwrite]
      exact hs

/-- A call whose element is not there does not succeed. -/
theorem step_reachesElement (hstep : poolStep w s act = some (o, s')) : reachesElement w s act := by
  cases act with
  | malloc reallocated backed =>
    intro hfreed
    simp only [poolStep, poolMalloc, if_pos hfreed, Option.bind_eq_bind, Option.bind_eq_some_iff]
      at hstep
    obtain ⟨-, ⟨next, hload, -⟩, -⟩ := hstep
    exact Option.isSome_iff_exists.mpr ⟨next, hload⟩
  | free ptr =>
    simp only [poolStep, poolFree, Option.bind_eq_bind, Option.bind_eq_some_iff] at hstep
    obtain ⟨-, ⟨heap, hstore, -⟩, -⟩ := hstep
    exact Option.isSome_iff_exists.mpr ⟨heap, hstore⟩
  | freeAll => trivial
  | use ptr off c =>
    simp only [poolStep, Option.bind_eq_bind, Option.bind_eq_some_iff] at hstep
    obtain ⟨heap, hwrite, -⟩ := hstep
    exact Option.isSome_iff_exists.mpr ⟨heap, hwrite⟩

/-- The cursor stays in the directory.
SOURCE: pool.c:47-87 -/
theorem cursor_run {s₀ : PoolWorld} (hbs : 0 < bs.toNat)
    (hs₀ : Cursor bs s₀.heap.sizes.length s₀.pool) {h : List (PoolAct × Option Addr)}
    (hrun : (poolMachine w).Run allocationsSucceed s₀ h s) :
    Cursor bs s.heap.sizes.length s.pool := by
  refine hrun.invariant (fun _ s => Cursor bs s.heap.sizes.length s.pool) hs₀ ?_
  intro h s act o s' hs hguard hstep
  obtain ⟨o', t, hstep', ht⟩ := cursor_step hbs hs hguard (step_reachesElement hstep)
  have heq : some (o, s') = some (o', t) := hstep.symm.trans hstep'
  cases heq
  exact ht

/-- `pool_init` leaves an empty directory.
SOURCE: pool.c:13-32 -/
theorem cursor_init {elementSize : UInt32} (hbs : 0 < bs.toNat) {p : Pool}
    (hinit : poolInit w elementSize bs true = some (0, p)) : Cursor bs 0 p := by
  obtain rfl : p = _ := (Prod.mk.inj (Option.some.inj hinit)).2.symm
  exact (cursor_freeAll (p := ⟨_, bs, 0, 0, .null, POOL_BLOCKS_INITIAL, [some .null]⟩) hbs rfl
    ⟨⟨0, by omega, rfl⟩, by omega, rfl⟩).1

/-- Where the cursor is among the blocks, the directory is complete. -/
theorem directoryComplete_of_cursor (hs : Cursor bs s.heap.sizes.length s.pool) :
    DirectoryComplete bs s := by
  have hlt := hs.block_lt
  have hle := hs.directory.le
  refine ⟨⟨hs.block_ge, by omega, hs.used_lt⟩, ?_, ⟨_, hs.directory.blocks⟩,
    hs.directory.deinit_eq⟩
  rw [hs.directory.blocks, directory, List.length_append, List.length_map, List.length_range,
    List.length_replicate, Nat.add_sub_cancel' hle]

/-- The directory is complete in every state that calls with succeeding allocations reach
from `pool_init`, whatever the size of an element and whatever is freed and written to.
SOURCE: pool.c:13-87 -/
theorem directoryComplete_of_run {elementSize : UInt32} (hbs : 0 < bs.toNat) {p : Pool}
    (hinit : poolInit w elementSize bs true = some (0, p)) {h : List (PoolAct × Option Addr)}
    (hrun : (poolMachine w).Run allocationsSucceed ⟨p, Heap.empty, []⟩ h s) :
    DirectoryComplete bs s := by
  have hstart : Cursor bs Heap.empty.sizes.length p := cursor_init hbs hinit
  exact directoryComplete_of_cursor (cursor_run hbs hstart hrun)

end Ctools.Analysis

open Ctools.Library Ctools.Program Ctools.Analysis in
/-- **When the pool's directory is complete after each call**, in every run of a pool from
`pool_init` in which allocations succeed, fewer than `2 ^ 31` blocks are needed, and only
live elements are freed and written to: if and only if the size of a block fits in 32 bits.
Otherwise some such call writes or follows what is no link of a freed element in a block.
SOURCE: pool.c:13-87 -/
theorem Ctools.Analysis.pool_directory_complete_iff {w : ℕ} {elementSize blockSize : UInt32}
    (hw : 0 < w) (hw32 : w < 2 ^ 32) (hblockSize : 0 < blockSize.toNat) {p : Pool}
    (hinit : poolInit w elementSize blockSize true = some (0, p)) :
    (∀ h s, (poolMachine w).Run poolGuard ⟨p, Heap.empty, []⟩ h s →
      DirectoryComplete blockSize s ∧ ∀ act, poolGuard s act →
        ∃ o s', poolStep w s act = some (o, s') ∧ DirectoryComplete blockSize s') ↔
      max elementSize.toNat w * blockSize.toNat < 2 ^ 32 := by
  constructor
  · intro hall
    refine fits_of_calls_succeed hw hw32 hinit fun h s hrun act hguard => ?_
    obtain ⟨o, s', hstep, -⟩ := (hall h s hrun).2 act hguard
    exact ⟨o, s', hstep⟩
  · intro hfits h s hrun
    obtain ⟨p', hinit', -, hshape, hstart⟩ := init_represents hw hblockSize hfits
    cases hinit.symm.trans hinit'
    have hcomplete : ∀ {h s}, (poolMachine w).Run poolGuard ⟨p, Heap.empty, []⟩ h s →
        DirectoryComplete blockSize s := fun hrun =>
      directoryComplete_of_run hblockSize hinit
        (hrun.weaken fun _ _ => allocationsSucceed_of_poolGuard)
    refine ⟨hcomplete hrun, fun act hguard => ?_⟩
    obtain ⟨a, ha⟩ := represents_run hshape hstart hrun
    obtain ⟨o, s', -, hstep, -⟩ := step_represents hshape ha hguard
    exact ⟨o, s', hstep, hcomplete (hrun.next hguard hstep)⟩

open Ctools.Library Ctools.Program Ctools.Analysis in
/-- The theorem at a pool of two elements a block: the directory has doubled, and the first
block is used again. -/
theorem Ctools.Analysis.pool_directory_complete_doubled :
    ∃ p h s, poolInit 8 4 2 true = some (0, p) ∧
      (poolMachine 8).Run poolGuard ⟨p, Heap.empty, []⟩ h s ∧ s.pool.block = 0 ∧
      s.pool.blocksUsed = 2 ∧ DirectoryComplete 2 s := by
  have hrun := Machine.run_of_execUnder (m := poolMachine 8) poolGuard
    ⟨⟨8, 2, 1, -1, .null, 1, [some .null]⟩, Heap.empty, []⟩
    [.malloc true true, .malloc true true, .malloc true true, .freeAll, .malloc true true] rfl
  have hinit : poolInit 8 4 2 true = some (0, ⟨8, 2, 1, -1, .null, 1, [some .null]⟩) := by decide
  have hall := (pool_directory_complete_iff (by decide) (by decide) (by decide) hinit).2 (by decide)
  exact ⟨_, _, _, hinit, hrun, rfl, rfl, (hall _ _ hrun).1⟩

open Ctools.Library Ctools.Program Ctools.Analysis in
/-- Two elements of 2^31 bytes in a block of no bytes: `pool_free` of the first one, which is
live, writes its link outside of the block.
SOURCE: pool.c:68, pool.c:78-79 -/
theorem Ctools.Analysis.pool_directory_overwrites :
    ∃ p h s, poolInit 8 2147483648 2 true = some (0, p) ∧
      (poolMachine 8).Run poolGuard ⟨p, Heap.empty, []⟩ h s ∧ s.live = [⟨some 0, 0⟩] ∧
      s.heap.sizes = [0] ∧ poolStep 8 s (.free ⟨some 0, 0⟩) = none := by
  have hrun := Machine.run_of_execUnder (m := poolMachine 8) poolGuard
    ⟨⟨2147483648, 2, 1, -1, .null, 1, [some .null]⟩, Heap.empty, []⟩ [.malloc true true] rfl
  exact ⟨_, _, _, by decide, hrun, rfl, rfl, rfl⟩
