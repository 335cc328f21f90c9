import Ctools.Analysis.PoolOverflow

/-!
# The pool when a block cannot be allocated

`pool_malloc` moves its cursor before it asks for the next block.  When `malloc`
answers `NULL` the call returns `NULL`, and the cursor stays on a block that is not
there (`Stalled`): with the cursor put back on the last place of the last block the
pool is still at its arena.  Freed elements are handed out and taken back as
before, and `pool_free_all` puts the cursor right.  What goes wrong is the next
call that moves the cursor: it hands out an address computed from `NULL`, or
allocates a block behind the hole, which `pool_deinit` does not reach.
-/

set_option autoImplicit false

namespace Ctools.Analysis

open Ctools.Library Ctools.Program Heap

/-! ## What is asked of a call -/

/-- Entry `i` of the directory names a block.
SOURCE: pool.c:67 -/
def hasBlock (p : Pool) (i : ℤ) : Bool :=
  decide (0 ≤ i) && (p.blocks[i.toNat]?).join.any fun entry => entry ≠ .null

/-- The call needs a block, and `malloc` does not return one.
SOURCE: pool.c:49-68 -/
def backingFails (s : PoolWorld) : PoolAct → Prop
  | .malloc _ backed => s.pool.freed = .null ∧ s.pool.used + 1 = s.pool.blockSize ∧
      hasBlock s.pool (s.pool.block + 1) = false ∧ backed = false
  | _ => False

/-- `pool_deinit` frees every block that was allocated, each once. -/
def FreesAll (s : PoolWorld) : Prop :=
  poolDeinit s.pool = some ((List.range s.heap.sizes.length).map fun b => ⟨some b, 0⟩)

/-- The call succeeds, returns `NULL` when its block cannot be allocated, hands out
nothing else but elements in blocks, and leaves nothing behind for `pool_deinit`. -/
def StepSound (w : ℕ) (s : PoolWorld) (act : PoolAct) : Prop :=
  ∃ o s', poolStep w s act = some (o, s') ∧ (backingFails s act → o = some .null) ∧
    (∀ ptr, o = some ptr → ptr ≠ .null → InBlock s' ptr) ∧ FreesAll s'

/-- The calls of a run: `realloc` succeeds, `malloc` may not, and only live elements
are freed and written to, each within its bytes. -/
def poolCall (s : PoolWorld) : PoolAct → Prop
  | .malloc reallocated _ => reallocated = true
  | .free ptr => ptr ∈ s.live
  | .freeAll => True
  | .use ptr off _ => ptr ∈ s.live ∧ off < s.pool.elementSize.toNat

instance (s : PoolWorld) : ∀ act, Decidable (poolCall s act)
  | .malloc _ _ => inferInstanceAs (Decidable (_ = true))
  | .free ptr => inferInstanceAs (Decidable (ptr ∈ s.live))
  | .freeAll => inferInstanceAs (Decidable True)
  | .use ptr _ _ => inferInstanceAs (Decidable (ptr ∈ s.live ∧ _ < _))

/-- A call that moves the cursor, if it does, from a block that is there or from
before the first one, and not beyond the `int32_t` range.  With one element a block
it may also move from a missing block to another missing one. -/
def movesFromBlock (s : PoolWorld) : PoolAct → Prop
  | .malloc _ backed => s.pool.freed = .null →
      (s.pool.used + 1 = s.pool.blockSize → s.pool.block + 1 < 2 ^ 31) ∧
      (s.pool.block = -1 ∨ hasBlock s.pool s.pool.block = true ∨
        (s.pool.blockSize = 1 ∧ backed = false))
  | _ => True

instance (s : PoolWorld) : ∀ act, Decidable (movesFromBlock s act)
  | .malloc _ _ => inferInstanceAs (Decidable (_ = _ → (_ = _ → _ < _) ∧ (_ = _ ∨ _ = _ ∨ _ ∧ _)))
  | .free _ | .freeAll | .use _ _ _ => inferInstanceAs (Decidable True)

/-- The calls after which the pool is still sound. -/
def poolUsable (s : PoolWorld) (act : PoolAct) : Prop := poolCall s act ∧ movesFromBlock s act

instance (s : PoolWorld) (act : PoolAct) : Decidable (poolUsable s act) :=
  inferInstanceAs (Decidable (_ ∧ _))

variable {w : ℕ} {es bs : UInt32} {s s' : PoolWorld} {a : Arena} {act : PoolAct}

/-- Calls for which all allocations succeed are calls of a run. -/
theorem poolCall_of_poolGuard (hguard : poolGuard s act) : poolCall s act := by
  cases act with
  | malloc _ _ => exact hguard.1
  | free _ | freeAll | use _ _ _ => exact hguard

/-! ## The directory -/

/-- The first `n` entries name a block, and no others. -/
theorem HasDirectory.hasBlock_iff {n : ℕ} {p : Pool} (hp : HasDirectory n p) (i : ℤ) :
    hasBlock p i = true ↔ 0 ≤ i ∧ i < n := by
  rw [hasBlock, Bool.and_eq_true, decide_eq_true_iff, hp.getElem?]
  by_cases hi : 0 ≤ i
  · by_cases hlt : i.toNat < n
    · rw [if_pos hlt]
      simp [hi, Addr.null]
      omega
    · rw [if_neg hlt]
      have hge : ¬ i < n := by omega
      split_ifs <;> simp [hi, hge]
  · simp [hi]

/-! ## A call that finds the block it needs -/

/-- Where the cursor needs no block, `malloc` is not asked.
SOURCE: pool.c:55-69 -/
theorem poolAdvance_backed {p : Pool} {heap : Heap} (hp : Ready es bs p heap)
    (hnext : p.used + 1 = p.blockSize → p.block + 1 < 2 ^ 31)
    (hthere : p.used + 1 = p.blockSize → p.block + 1 < heap.sizes.length) (backed : Bool) :
    poolAdvance p heap true backed = poolAdvance p heap true true := by
  by_cases hlast : p.used + 1 = p.blockSize
  · have hlt := hnext hlast
    have hin := hthere hlast
    have hge := hp.block_ge
    have hle := hp.directory.le
    have hdir : HasDirectory heap.sizes.length { p with used := 0, block := p.block + 1 } :=
      ⟨hp.directory.pow, hp.directory.le, hp.directory.blocks⟩
    obtain ⟨blocksUsed, blocks, hready, hdir', -⟩ :=
      poolReserve_spec hdir (show 0 ≤ p.block + 1 by omega) hlt
        (show p.block + 1 ≤ (p.blocksUsed.toNat : ℤ) by omega)
    obtain ⟨b, hb⟩ : ∃ b : ℕ, p.block + 1 = b := ⟨(p.block + 1).toNat, by omega⟩
    have hread := hdir'.entry_of_lt hb (by omega)
    rw [poolAdvance, if_pos hlast, poolAdvance, if_pos hlast, poolNextBlock, if_pos hlt,
      poolNextBlock, if_pos hlt, hready]
    simp [poolBack, hread, Addr.null]
  · rw [poolAdvance, poolAdvance, if_neg hlast, if_neg hlast]

/-- Where the cursor needs a block and `malloc` does not return one, the cursor is on a
missing block.
SOURCE: pool.c:55-69 -/
theorem poolAdvance_fails {p : Pool} {heap : Heap} (hp : HasDirectory heap.sizes.length p)
    (hlast : p.used + 1 = p.blockSize) (hnext : p.block + 1 < 2 ^ 31)
    (hge : (heap.sizes.length : ℤ) ≤ p.block + 1) (hle : p.block + 1 ≤ p.blocksUsed.toNat) :
    ∃ blocksUsed blocks,
      poolAdvance p heap true false = some ({ p with
        used := 0, block := p.block + 1, blocksUsed := blocksUsed, blocks := blocks }, heap) ∧
      HasDirectory heap.sizes.length { p with
        used := 0, block := p.block + 1, blocksUsed := blocksUsed, blocks := blocks } ∧
      p.block + 1 < blocksUsed.toNat ∧
      Pool.entry { p with
        used := 0, block := p.block + 1, blocksUsed := blocksUsed, blocks := blocks } =
          some .null := by
  have hdir : HasDirectory heap.sizes.length { p with used := 0, block := p.block + 1 } :=
    ⟨hp.pow, hp.le, hp.blocks⟩
  obtain ⟨blocksUsed, blocks, hready, hdir', hentry⟩ :=
    poolReserve_spec hdir (show 0 ≤ p.block + 1 by omega) hnext hle
  obtain ⟨b, hb⟩ : ∃ b : ℕ, p.block + 1 = b := ⟨(p.block + 1).toNat, by omega⟩
  have hbn : heap.sizes.length ≤ b := by omega
  have hlt : b < blocksUsed.toNat := by
    simp only [hb] at hentry
    exact_mod_cast hentry
  have hread := hdir'.entry_of_ge hb hbn hlt
  -- the entry is `NULL` already
  have hkept : blocks.set (p.block + 1).toNat (some .null) = blocks := by
    have hget := hdir'.getElem? b
    rw [if_neg (by omega), if_pos hlt] at hget
    obtain ⟨hin, hget⟩ := List.getElem?_eq_some_iff.mp hget
    rw [hb, Int.toNat_natCast, ← hget]
    exact List.set_getElem_self hin
  refine ⟨blocksUsed, blocks, ?_, hdir', hentry, hread⟩
  rw [poolAdvance, if_pos hlast, poolNextBlock, if_pos hnext, hready]
  simp [poolBack, hread, hkept]

/-- Where the call needs no block, `malloc` is not asked. -/
theorem malloc_backed (hs : Represents w es bs s a)
    (hnext : s.pool.freed = .null → s.pool.used + 1 = s.pool.blockSize → s.pool.block + 1 < 2 ^ 31)
    (hthere : ¬ backingFails s (.malloc true false)) :
    poolStep w s (.malloc true false) = poolStep w s (.malloc true true) := by
  by_cases hfreed : s.pool.freed = .null
  · have hin (hlast : s.pool.used + 1 = s.pool.blockSize) :
        s.pool.block + 1 < s.heap.sizes.length := by
      have hnamed : hasBlock s.pool (s.pool.block + 1) = true := by
        by_contra hmissing
        exact hthere ⟨hfreed, hlast, Bool.eq_false_of_not_eq_true hmissing, rfl⟩
      exact ((hs.ready.directory.hasBlock_iff _).mp hnamed).2
    have hsame : poolAdvance s.pool s.heap true false = poolAdvance s.pool s.heap true true :=
      poolAdvance_backed hs.ready (hnext hfreed) hin false
    simp only [poolStep, poolMalloc, hsame]
  · simp only [poolStep, poolMalloc, if_pos (show s.pool.freed ≠ .null from hfreed)]

/-- A call for which all allocations succeed hands out a live place. -/
theorem guard_represents (hshape : PoolShape w es bs) (hs : Represents w es bs s a)
    (hguard : poolGuard s act) :
    ∃ o s' a', poolStep w s act = some (o, s') ∧ Represents w es bs s' a' ∧
      ∀ ptr, o = some ptr → ∃ e ∈ a'.live, ptr = place es.toNat bs.toNat e := by
  obtain ⟨o, s', a', hstep, hs', -, hout⟩ := step_represents hshape hs hguard
  refine ⟨o, s', a', hstep, hs', fun ptr hptr => ?_⟩
  obtain ⟨e, rfl, hlive⟩ := hout ptr hptr
  refine ⟨e, ?_, rfl⟩
  rw [hlive]
  exact List.mem_cons_self

/-- A call that finds the block it needs is a call of the arena.
SOURCE: pool.c:47-87 -/
theorem call_represents (hshape : PoolShape w es bs) (hs : Represents w es bs s a)
    (hcall : poolCall s act) (hmoves : movesFromBlock s act) (hthere : ¬ backingFails s act) :
    ∃ o s' a', poolStep w s act = some (o, s') ∧ Represents w es bs s' a' ∧
      ∀ ptr, o = some ptr → ∃ e ∈ a'.live, ptr = place es.toNat bs.toNat e := by
  cases act with
  | malloc reallocated backed =>
    have hreal : reallocated = true := hcall
    subst hreal
    have hnext : s.pool.freed = .null → s.pool.used + 1 = s.pool.blockSize →
        s.pool.block + 1 < 2 ^ 31 := fun hfreed => (hmoves hfreed).1
    obtain ⟨e, a', s', hstep, hs', hlive, -⟩ := malloc_represents hshape hs hnext
    have hmem : e ∈ a'.live := by
      rw [hlive]
      exact List.mem_cons_self
    refine ⟨_, s', a', ?_, hs', fun ptr hptr => ⟨e, hmem, (Option.some.inj hptr).symm⟩⟩
    cases backed with
    | true => exact hstep
    | false => rw [malloc_backed hs hnext hthere, hstep]
  | free ptr => exact guard_represents hshape hs (show poolGuard s (.free ptr) from hcall)
  | freeAll => exact guard_represents hshape hs (show poolGuard s .freeAll from hcall)
  | use ptr off c => exact guard_represents hshape hs (show poolGuard s (.use ptr off c) from hcall)

/-- A live element lies in a block. -/
theorem Represents.inBlock (hshape : PoolShape w es bs) (hs : Represents w es bs s a) {e : ℕ}
    (he : e ∈ a.live) : InBlock s (place es.toNat bs.toNat e) := by
  have hblock := hs.blockAt hshape (a.live_lt he) (show 0 + es.toNat ≤ es.toNat by omega)
  refine ⟨e / bs.toNat, ?_⟩
  rw [hs.ready.elementSize]
  exact hblock

/-! ## A cursor on a missing block -/

/-- The pool with its cursor elsewhere. -/
def withCursor (s : PoolWorld) (used : UInt32) (block : ℤ) : PoolWorld :=
  { s with pool := { s.pool with used := used, block := block } }

/-- The cursor is on a missing block; with it back on the last place of the last
block the pool is at the arena. -/
structure Stalled (w : ℕ) (es bs : UInt32) (s : PoolWorld) (a : Arena) : Prop where
  behind : Represents w es bs (withCursor s (bs - 1) (s.heap.sizes.length - 1)) a
  used_eq : s.pool.used = 0
  missing : s.heap.sizes.length ≤ s.pool.block
  reserved : s.pool.block < s.pool.blocksUsed.toNat

/-- The directory does not depend on the cursor. -/
theorem Stalled.directory (hs : Stalled w es bs s a) : HasDirectory s.heap.sizes.length s.pool :=
  ⟨hs.behind.ready.directory.pow, hs.behind.ready.directory.le, hs.behind.ready.directory.blocks⟩

/-- The next call of `malloc` that moves the cursor leaves it on a missing block and
returns `NULL`, when that block cannot be allocated.
SOURCE: pool.c:55-71 -/
theorem malloc_fails (hs : Represents w es bs (withCursor s (bs - 1) (s.heap.sizes.length - 1)) a)
    (hfreed : s.pool.freed = .null) (hlast : s.pool.used + 1 = s.pool.blockSize)
    (hnext : s.pool.block + 1 < 2 ^ 31) (hge : (s.heap.sizes.length : ℤ) ≤ s.pool.block + 1)
    (hle : s.pool.block + 1 ≤ s.pool.blocksUsed.toNat) :
    ∃ s', poolStep w s (.malloc true false) = some (some .null, s') ∧ Stalled w es bs s' a := by
  have hdir : HasDirectory s.heap.sizes.length s.pool :=
    ⟨hs.ready.directory.pow, hs.ready.directory.le, hs.ready.directory.blocks⟩
  obtain ⟨blocksUsed, blocks, hadvance, hdir', hentry, hread⟩ :=
    poolAdvance_fails hdir hlast hnext hge hle
  have hmalloc : poolMalloc w s.pool s.heap true false = some (.null,
      { s.pool with used := 0, block := s.pool.block + 1, blocksUsed := blocksUsed,
                    blocks := blocks }, s.heap) := by
    rw [poolMalloc, if_neg (by simp [hfreed]), hadvance]
    simp only [Option.bind_eq_bind, Option.bind_some, hread]
    simp [Addr.null, Addr.add]
  refine ⟨⟨{ s.pool with used := 0, block := s.pool.block + 1, blocksUsed := blocksUsed,
                         blocks := blocks }, s.heap, s.live⟩, ?_, ?_, rfl, ?_, ?_⟩
  · simp [poolStep, hmalloc]
  · refine ⟨?_, hs.cursor, hs.linked, hs.live⟩
    exact {
      elementSize := hs.ready.elementSize
      blockSize := hs.ready.blockSize
      used_lt := hs.ready.used_lt
      block_ge := hs.ready.block_ge
      start := hs.ready.start
      block_lt := hs.ready.block_lt
      sizes := hs.ready.sizes
      directory := ⟨hdir'.pow, hdir'.le, hdir'.blocks⟩ }
  · show (s.heap.sizes.length : ℤ) ≤ s.pool.block + 1
    exact hge
  · exact hentry

/-- A call that leaves the cursor where it is, wherever that is. -/
def cursorFree (s : PoolWorld) : PoolAct → Prop
  | .malloc _ _ => s.pool.freed ≠ .null
  | .free _ | .use _ _ _ => True
  | .freeAll => False

/-- A call that leaves the cursor where it is needs no block. -/
theorem not_backingFails_of_cursorFree (hfree : cursorFree s act) : ¬ backingFails s act := by
  cases act with
  | malloc _ _ => exact fun hfail => hfree hfail.1
  | free _ | freeAll | use _ _ _ => exact id

/-- So it may be made wherever the cursor is. -/
theorem movesFromBlock_of_cursorFree (hfree : cursorFree s act) : movesFromBlock s act := by
  cases act with
  | malloc _ _ => exact fun hfreed => absurd hfreed hfree
  | free _ | freeAll | use _ _ _ => trivial

/-- Such a call does the same with the cursor elsewhere.
SOURCE: pool.c:49-53, pool.c:74-80 -/
theorem cursorFree_step (hfree : cursorFree s act) {used : UInt32} {block : ℤ} {o : Option Addr}
    {t : PoolWorld} (hstep : poolStep w (withCursor s used block) act = some (o, t)) :
    ∃ s', poolStep w s act = some (o, s') ∧ t = withCursor s' used block ∧
      s'.pool.used = s.pool.used ∧ s'.pool.block = s.pool.block ∧
      s'.pool.blocksUsed = s.pool.blocksUsed ∧ s'.heap.sizes = s.heap.sizes := by
  cases act with
  | malloc reallocated backed =>
    have hfreed : (withCursor s used block).pool.freed ≠ .null := hfree
    simp only [poolStep, poolMalloc, if_pos hfreed, Option.bind_eq_bind, Option.pure_def,
      Option.bind_eq_some_iff, Option.some.injEq, Prod.mk.injEq, Prod.exists] at hstep
    obtain ⟨_, _, _, ⟨next, hload, rfl, rfl, rfl⟩, rfl, rfl⟩ := hstep
    have hload : s.heap.loadPtr w s.pool.freed = some next := hload
    refine ⟨⟨{ s.pool with freed := next }, s.heap, _⟩, ?_, rfl, rfl, rfl, rfl, rfl⟩
    simp only [poolStep, poolMalloc, if_pos (show s.pool.freed ≠ .null from hfree), hload]
    rfl
  | free ptr =>
    simp only [poolStep, poolFree, Option.bind_eq_bind, Option.pure_def, Option.bind_eq_some_iff,
      Option.some.injEq, Prod.mk.injEq, Prod.exists] at hstep
    obtain ⟨_, _, ⟨heap, hstore, rfl, rfl⟩, rfl, rfl⟩ := hstep
    have hstore : s.heap.storePtr w ptr s.pool.freed = some heap := hstore
    refine ⟨⟨{ s.pool with freed := ptr }, heap, s.live.erase ptr⟩, ?_, rfl, rfl, rfl, rfl,
      sizes_of_storePtr hstore⟩
    simp only [poolStep, poolFree, hstore]
    rfl
  | freeAll => exact hfree.elim
  | use ptr off c =>
    simp only [poolStep, Option.bind_eq_bind, Option.pure_def, Option.bind_eq_some_iff,
      Option.some.injEq, Prod.mk.injEq] at hstep
    obtain ⟨heap, hwrite, rfl, rfl⟩ := hstep
    have hwrite : s.heap.write (ptr.add off) c = some heap := hwrite
    refine ⟨{ s with heap := heap }, ?_, rfl, rfl, rfl, rfl, sizes_of_write hwrite⟩
    simp only [poolStep, hwrite]
    rfl

/-- The pool is at an arena, or stalled behind one. -/
def Usable (w : ℕ) (es bs : UInt32) (s : PoolWorld) : Prop :=
  ∃ a, Represents w es bs s a ∨ Stalled w es bs s a

/-- A pool in use has its directory. -/
theorem Usable.directory (hs : Usable w es bs s) : HasDirectory s.heap.sizes.length s.pool := by
  obtain ⟨a, hs | hs⟩ := hs
  · exact hs.ready.directory
  · exact hs.directory

/-- The size of its elements is fixed. -/
theorem Usable.elementSize (hs : Usable w es bs s) : s.pool.elementSize = es := by
  obtain ⟨a, hs | hs⟩ := hs
  · exact hs.ready.elementSize
  · exact hs.behind.ready.elementSize

/-- From an arena, a call leads to an arena or stalls.
SOURCE: pool.c:47-87 -/
theorem represents_step (hshape : PoolShape w es bs) (hs : Represents w es bs s a)
    (hguard : poolUsable s act) :
    ∃ o s', poolStep w s act = some (o, s') ∧ Usable w es bs s' ∧
      (backingFails s act → o = some .null) ∧
      ∀ ptr, o = some ptr → ptr ≠ .null → InBlock s' ptr := by
  obtain ⟨hcall, hmoves⟩ := hguard
  by_cases hfail : backingFails s act
  · cases act with
    | malloc reallocated backed =>
      obtain ⟨hfreed, hlast, hmissing, rfl⟩ := hfail
      have hreal : reallocated = true := hcall
      subst hreal
      have hge := hs.ready.block_ge
      have hlt := hs.ready.block_lt
      have hle := hs.ready.directory.le
      have hend : (s.heap.sizes.length : ℤ) ≤ s.pool.block + 1 := by
        by_contra hin
        have hnamed := (hs.ready.directory.hasBlock_iff (s.pool.block + 1)).mpr (by omega)
        rw [hmissing] at hnamed
        cases hnamed
      have hused : s.pool.used = bs - 1 := by
        rw [← hs.ready.blockSize, ← hlast, UInt32.add_sub_cancel]
      have hsame : withCursor s (bs - 1) (s.heap.sizes.length - 1) = s := by
        rw [withCursor, ← hused, show (s.heap.sizes.length : ℤ) - 1 = s.pool.block by omega]
      obtain ⟨s', hstep, hs'⟩ := malloc_fails (by rw [hsame]; exact hs) hfreed hlast
        ((hmoves hfreed).1 hlast) hend (by omega)
      exact ⟨_, s', hstep, ⟨a, .inr hs'⟩, fun _ => rfl,
        fun ptr hptr hne => absurd (Option.some.inj hptr).symm hne⟩
    | free _ | freeAll | use _ _ _ => exact hfail.elim
  · obtain ⟨o, s', a', hstep, hs', hout⟩ := call_represents hshape hs hcall hmoves hfail
    refine ⟨o, s', hstep, ⟨a', .inl hs'⟩, fun hyes => absurd hyes hfail, fun ptr hptr _ => ?_⟩
    obtain ⟨e, he, rfl⟩ := hout ptr hptr
    exact hs'.inBlock hshape he

/-- A stalled pool serves the calls that leave its cursor, starts over with
`pool_free_all`, and stays stalled while blocks of one element cannot be allocated.
SOURCE: pool.c:47-87 -/
theorem stalled_step (hshape : PoolShape w es bs) (hs : Stalled w es bs s a)
    (hguard : poolUsable s act) :
    ∃ o s', poolStep w s act = some (o, s') ∧ Usable w es bs s' ∧
      (backingFails s act → o = some .null) ∧
      ∀ ptr, o = some ptr → ptr ≠ .null → InBlock s' ptr := by
  obtain ⟨hcall, hmoves⟩ := hguard
  by_cases hfree : cursorFree s act
  · have hfree' : cursorFree (withCursor s (bs - 1) (s.heap.sizes.length - 1)) act := by
      cases act <;> exact hfree
    have hcall' : poolCall (withCursor s (bs - 1) (s.heap.sizes.length - 1)) act := by
      cases act <;> exact hcall
    obtain ⟨o, t, a', hstep, ht, hout⟩ := call_represents hshape hs.behind hcall'
      (movesFromBlock_of_cursorFree hfree') (not_backingFails_of_cursorFree hfree')
    obtain ⟨s', hstep', rfl, hused, hblock, hreserved, hsizes⟩ := cursorFree_step hfree hstep
    have hbehind : Represents w es bs (withCursor s' (bs - 1) (s'.heap.sizes.length - 1)) a' := by
      rw [hsizes]
      exact ht
    refine ⟨o, s', hstep', ⟨a', .inr ⟨hbehind, ?_, ?_, ?_⟩⟩, fun hyes => absurd hyes
      (not_backingFails_of_cursorFree hfree), fun ptr hptr _ => ?_⟩
    · rw [hused, hs.used_eq]
    · rw [hsizes, hblock]
      exact hs.missing
    · rw [hblock, hreserved]
      exact hs.reserved
    · obtain ⟨e, he, rfl⟩ := hout ptr hptr
      exact ht.inBlock hshape he
  · cases act with
    | malloc reallocated backed =>
      have hreal : reallocated = true := hcall
      subst hreal
      have hfreed : s.pool.freed = .null := not_not.mp hfree
      have hmissing := hs.missing
      have hreserved := hs.reserved
      obtain ⟨hbound, hback | hback | ⟨hone, rfl⟩⟩ := hmoves hfreed
      · omega
      · have := (hs.directory.hasBlock_iff _).mp hback
        omega
      · have hlast : s.pool.used + 1 = s.pool.blockSize := by
          rw [hs.used_eq, hone]
          rfl
        obtain ⟨s', hstep, hs'⟩ := malloc_fails hs.behind hfreed hlast (hbound hlast) (by omega)
          (by omega)
        exact ⟨_, s', hstep, ⟨a, .inr hs'⟩, fun _ => rfl,
          fun ptr hptr hne => absurd (Option.some.inj hptr).symm hne⟩
    | freeAll =>
      obtain ⟨s', hstep, hs', -⟩ := freeAll_represents hshape hs.behind
      exact ⟨none, s', hstep, ⟨_, .inl hs'⟩, fun hyes => hyes.elim,
        fun _ hnone => absurd hnone (by simp)⟩
    | free _ | use _ _ _ => exact absurd trivial hfree

/-- Every usable call of a usable pool is sound, and leaves it usable.
SOURCE: pool.c:34-87 -/
theorem usable_step (hshape : PoolShape w es bs) (hs : Usable w es bs s)
    (hguard : poolUsable s act) :
    ∃ o s', poolStep w s act = some (o, s') ∧ Usable w es bs s' ∧
      (backingFails s act → o = some .null) ∧
      ∀ ptr, o = some ptr → ptr ≠ .null → InBlock s' ptr := by
  obtain ⟨a, hs | hs⟩ := hs
  · exact represents_step hshape hs hguard
  · exact stalled_step hshape hs hguard

/-! ## A call that is not usable -/

/-- A call that would move the cursor beyond the `int32_t` range overflows.
SOURCE: pool.c:57 -/
theorem malloc_overflows (hfreed : s.pool.freed = .null)
    (hlast : s.pool.used + 1 = s.pool.blockSize) (hbig : ¬ s.pool.block + 1 < 2 ^ 31)
    (backed : Bool) : poolStep w s (.malloc true backed) = none := by
  have hadvance : poolAdvance s.pool s.heap true backed = none := by
    rw [poolAdvance, if_pos hlast, poolNextBlock, if_neg hbig]
  simp [poolStep, poolMalloc, hfreed, hadvance]

/-- From a missing block of more than one element the cursor moves inside that block,
and the address is computed from `NULL`.
SOURCE: pool.c:55, pool.c:71 -/
theorem Stalled.escapes (hshape : PoolShape w es bs) (hs : Stalled w es bs s a)
    (hfreed : s.pool.freed = .null) (hmany : s.pool.blockSize ≠ 1) (backed : Bool) :
    ∃ s', poolStep w s (.malloc true backed) = some (some ⟨none, es.toNat⟩, s') := by
  have hmissing := hs.missing
  have hreserved := hs.reserved
  have hmore : s.pool.used + 1 ≠ s.pool.blockSize := by
    rw [hs.used_eq]
    exact fun heq => hmany heq.symm
  obtain ⟨b, hb⟩ : ∃ b : ℕ, s.pool.block = b := ⟨s.pool.block.toNat, by omega⟩
  have hdir : HasDirectory s.heap.sizes.length { s.pool with used := s.pool.used + 1 } :=
    ⟨hs.directory.pow, hs.directory.le, hs.directory.blocks⟩
  have hread := hdir.entry_of_ge hb (by omega) (show b < s.pool.blocksUsed.toNat by omega)
  have hoff : ((s.pool.used + 1) * s.pool.elementSize).toNat = es.toNat := by
    rw [hs.used_eq, show s.pool.elementSize = es from hs.behind.ready.elementSize]
    simp
  refine ⟨⟨{ s.pool with used := s.pool.used + 1 }, s.heap, ⟨none, es.toNat⟩ :: s.live⟩, ?_⟩
  have hwidth := hshape.width
  have hpointer := hshape.pointer
  have hptr : Addr.null.add ((s.pool.used + 1) * s.pool.elementSize).toNat = ⟨none, es.toNat⟩ := by
    rw [hoff, Addr.add, Addr.null, Nat.zero_add]
  have hmalloc : poolMalloc w s.pool s.heap true backed =
      some (⟨none, es.toNat⟩, { s.pool with used := s.pool.used + 1 }, s.heap) := by
    rw [poolMalloc, if_neg (by simp [hfreed]), poolAdvance, if_neg hmore]
    simp only [Option.bind_eq_bind, Option.bind_some, hread, hptr]
    rfl
  have hne : (⟨none, es.toNat⟩ : Addr) ≠ .null := by
    simp [Addr.null]
    omega
  simp [poolStep, hmalloc, hne]

/-- From a missing block of one element the cursor moves on, and a block that can be
allocated lies behind the hole.
SOURCE: pool.c:34-45, pool.c:55-68 -/
theorem Stalled.leaks (hs : Stalled w es bs s a) (hfreed : s.pool.freed = .null)
    (hone : s.pool.blockSize = 1) (hnext : s.pool.block + 1 < 2 ^ 31) {o : Option Addr}
    (hstep : poolStep w s (.malloc true true) = some (o, s')) : ¬ FreesAll s' := by
  have hmissing := hs.missing
  have hreserved := hs.reserved
  have hlast : s.pool.used + 1 = s.pool.blockSize := by
    rw [hs.used_eq, hone]
    rfl
  have hdir :
      HasDirectory s.heap.sizes.length { s.pool with used := 0, block := s.pool.block + 1 } :=
    ⟨hs.directory.pow, hs.directory.le, hs.directory.blocks⟩
  obtain ⟨blocksUsed, blocks, hready, hdir', hentry⟩ :=
    poolReserve_spec hdir (show 0 ≤ s.pool.block + 1 by omega) hnext
      (show s.pool.block + 1 ≤ (s.pool.blocksUsed.toNat : ℤ) by omega)
  obtain ⟨b, hb⟩ : ∃ b : ℕ, s.pool.block + 1 = b := ⟨(s.pool.block + 1).toNat, by omega⟩
  have hlt : b < blocksUsed.toNat := by
    simp only [hb] at hentry
    exact_mod_cast hentry
  have hread := hdir'.entry_of_ge hb (by omega) hlt
  have hindex : (s.pool.block + 1).toNat = b := by omega
  have hadvance : poolAdvance s.pool s.heap true true = some
      ({ s.pool with used := 0, block := s.pool.block + 1, blocksUsed := blocksUsed,
                     blocks := blocks.set b (some ⟨some s.heap.sizes.length, 0⟩) },
        (s.heap.alloc (s.pool.elementSize * s.pool.blockSize).toNat).2) := by
    rw [poolAdvance, if_pos hlast, poolNextBlock, if_pos hnext, hready]
    simp only [Option.bind_eq_bind, Option.bind_some, poolBack_of_null hread, hindex]
  -- the loop of `pool_deinit` stops at the hole
  have hdeinit :
      deinitBlocks (blocks.set b (some ⟨some s.heap.sizes.length, 0⟩)) 0 blocksUsed.toNat =
      some ((List.range s.heap.sizes.length).map fun b => ⟨some b, 0⟩) := by
    have hle : s.heap.sizes.length ≤ blocksUsed.toNat := hdir'.le
    have hhole := hdir'.getElem? s.heap.sizes.length
    rw [if_neg (by omega), if_pos (show s.heap.sizes.length < blocksUsed.toNat by omega)] at hhole
    have hget : ∀ j ≤ s.heap.sizes.length,
        (blocks.set b (some ⟨some s.heap.sizes.length, 0⟩))[j]? = blocks[j]? := by
      intro j hj
      exact List.getElem?_set_ne (by omega)
    have hloop := deinitBlocks_named (blocks.set b (some ⟨some s.heap.sizes.length, 0⟩)) 0
      s.heap.sizes.length
      (fun j hj => by rw [Nat.zero_add, hget j hj.le, hdir'.getElem?, if_pos hj])
      (fun _ : 0 < blocksUsed.toNat - s.heap.sizes.length => by
        rw [Nat.zero_add, hget _ le_rfl, hhole])
    rw [Nat.add_sub_cancel' hle, ← List.range_eq_range'] at hloop
    exact hloop
  simp only [poolStep, poolMalloc, if_neg (show ¬ s.pool.freed ≠ .null by simp [hfreed]), hadvance,
    Option.bind_eq_bind, Option.bind_some, Option.pure_def, Option.bind_eq_some_iff,
    Option.some.injEq, Prod.mk.injEq, Prod.exists] at hstep
  obtain ⟨_, _, _, ⟨_, _, rfl, rfl, rfl⟩, _, rfl⟩ := hstep
  intro hall
  have hlen := congrArg (Option.map List.length) (hdeinit.symm.trans hall)
  simp [Heap.alloc] at hlen

/-- **A call of a usable pool is sound exactly if it is usable.** -/
theorem stepSound_iff (hshape : PoolShape w es bs) (hs : Usable w es bs s)
    (hcall : poolCall s act) : StepSound w s act ↔ poolUsable s act := by
  constructor
  · rintro ⟨o, s', hstep, -, hin, hall⟩
    refine ⟨hcall, ?_⟩
    cases act with
    | malloc reallocated backed =>
      intro hfreed
      have hreal : reallocated = true := hcall
      subst hreal
      have hbound : s.pool.used + 1 = s.pool.blockSize → s.pool.block + 1 < 2 ^ 31 := by
        intro hlast
        by_contra hbig
        cases (malloc_overflows hfreed hlast hbig backed).symm.trans hstep
      refine ⟨hbound, ?_⟩
      obtain ⟨a, hs | hs⟩ := hs
      · have hge := hs.ready.block_ge
        have hlt := hs.ready.block_lt
        by_cases hstart : s.pool.block = -1
        · exact .inl hstart
        · exact .inr (.inl ((hs.ready.directory.hasBlock_iff _).mpr (by omega)))
      · refine .inr (.inr ?_)
        by_cases hone : s.pool.blockSize = 1
        · have hlast : s.pool.used + 1 = s.pool.blockSize := by
            rw [hs.used_eq, hone]
            rfl
          cases backed with
          | false => exact ⟨hone, rfl⟩
          | true => exact absurd hall (hs.leaks hfreed hone (hbound hlast) hstep)
        · obtain ⟨t, hescape⟩ := hs.escapes hshape hfreed hone backed
          cases hstep.symm.trans hescape
          have hes : 0 < es.toNat := hshape.pointer.trans_le hshape.width
          obtain ⟨b, hblock⟩ := hin _ rfl (by simp [Addr.null]; omega)
          cases (blockAt_eq_some.mp hblock).1
    | free _ | freeAll | use _ _ _ => trivial
  · intro hguard
    obtain ⟨o, s', hstep, hs', hnull, hin⟩ := usable_step hshape hs hguard
    exact ⟨o, s', hstep, hnull, hin, hs'.directory.deinit_eq⟩

/-! ## Runs -/

/-- Blocks are only added.
SOURCE: pool.c:47-87 -/
theorem sizes_grow {o : Option Addr} (hstep : poolStep w s act = some (o, s')) :
    s.heap.sizes <+: s'.heap.sizes := by
  have hback : ∀ {p p' : Pool} {heap heap' : Heap} {backed : Bool},
      poolBack p heap backed = some (p', heap') → heap.sizes <+: heap'.sizes := by
    intro p p' heap heap' backed hpool
    simp only [poolBack, Option.bind_eq_bind, Option.pure_def, Option.bind_eq_some_iff] at hpool
    obtain ⟨entry, -, hpool⟩ := hpool
    split_ifs at hpool
    · cases hpool
      exact List.prefix_rfl
    · cases hpool
      exact List.prefix_append _ _
    · cases hpool
      exact List.prefix_rfl
  cases act with
  | malloc reallocated backed =>
    simp only [poolStep, poolMalloc, poolAdvance, poolNextBlock, Option.bind_eq_bind,
      Option.pure_def, Option.bind_eq_some_iff, Option.some.injEq, Prod.mk.injEq,
      Prod.exists] at hstep
    obtain ⟨ptr, p, heap, hmalloc, -, rfl⟩ := hstep
    split_ifs at hmalloc
    · simp only [Option.bind_eq_some_iff, Option.some.injEq, Prod.mk.injEq] at hmalloc
      obtain ⟨-, -, -, -, rfl⟩ := hmalloc
      exact List.prefix_rfl
    · simp only [Option.bind_eq_some_iff, Option.some.injEq, Prod.mk.injEq, Prod.exists] at hmalloc
      obtain ⟨p₁, heap₁, ⟨p₂, -, hpool⟩, entry, -, -, -, rfl⟩ := hmalloc
      exact hback hpool
    · simp at hmalloc
    · simp only [Option.bind_some, Option.bind_eq_some_iff, Option.some.injEq,
        Prod.mk.injEq] at hmalloc
      obtain ⟨-, -, -, -, rfl⟩ := hmalloc
      exact List.prefix_rfl
  | free ptr =>
    simp only [poolStep, poolFree, Option.bind_eq_bind, Option.pure_def, Option.bind_eq_some_iff,
      Option.some.injEq, Prod.mk.injEq, Prod.exists] at hstep
    obtain ⟨_, _, ⟨heap, hstore, rfl, rfl⟩, rfl, rfl⟩ := hstep
    rw [sizes_of_storePtr hstore]
  | freeAll =>
    cases hstep
    exact List.prefix_rfl
  | use ptr off c =>
    simp only [poolStep, Option.bind_eq_bind, Option.pure_def, Option.bind_eq_some_iff,
      Option.some.injEq, Prod.mk.injEq] at hstep
    obtain ⟨heap, hwrite, rfl, rfl⟩ := hstep
    rw [sizes_of_write hwrite]

/-- In every run of usable calls the pool stays usable, and what it handed out lies in
blocks. -/
theorem usable_run {s₀ : PoolWorld} (hshape : PoolShape w es bs) (hs₀ : Usable w es bs s₀)
    {h : List (PoolAct × Option Addr)} (hrun : (poolMachine w).Run poolUsable s₀ h s) :
    Usable w es bs s ∧ ∀ e ∈ h, ∀ ptr, e.2 = some ptr → ptr ≠ .null → InBlock s ptr := by
  refine hrun.invariant (fun h s => Usable w es bs s ∧
    ∀ e ∈ h, ∀ ptr, e.2 = some ptr → ptr ≠ .null → InBlock s ptr) ⟨hs₀, by simp⟩ ?_
  rintro h s act o s' ⟨hs, hout⟩ hguard hstep
  obtain ⟨o', t, hstep', ht, -, hin⟩ := usable_step hshape hs hguard
  have heq : some (o, s') = some (o', t) := hstep.symm.trans hstep'
  cases heq
  refine ⟨ht, fun e he ptr hptr hne => ?_⟩
  rcases List.mem_append.mp he with hold | hnew
  · obtain ⟨b, hblock⟩ := hout e hold ptr hptr hne
    rw [hs.elementSize] at hblock
    refine ⟨b, ?_⟩
    rw [ht.elementSize]
    exact blockAt_of_prefix (sizes_grow hstep) hblock
  · rw [List.mem_singleton] at hnew
    subst hnew
    exact hin ptr hptr hne

end Ctools.Analysis

open Ctools.Library Ctools.Program Ctools.Analysis in
/-- **The pool after a failed allocation.**  Let the size of a block fit in 32 bits.  In
every run of usable calls from `pool_init`, in which any `malloc` of a block may fail,
what `pool_malloc` returns is `NULL` or an element in a block, and `pool_deinit` frees
all blocks; and the next call succeeds, returns `NULL` if its block cannot be
allocated, and leaves that so, if and only if it is usable too.  Where the size does not
fit, some run without a failure hands out an element that lies in no block.
SOURCE: pool.c:13-87 -/
theorem Ctools.Analysis.pool_sound_when_usable {w : ℕ} {elementSize blockSize : UInt32} (hw : 0 < w)
    (hw32 : w < 2 ^ 32) (hblockSize : 0 < blockSize.toNat) {p : Pool}
    (hinit : poolInit w elementSize blockSize true = some (0, p)) :
    (max elementSize.toNat w * blockSize.toNat < 2 ^ 32 →
      ∀ h s, (poolMachine w).Run poolUsable ⟨p, Heap.empty, []⟩ h s →
        (∀ e ∈ h, ∀ ptr, e.2 = some ptr → ptr ≠ .null → InBlock s ptr) ∧ FreesAll s ∧
          ∀ act, poolCall s act → (StepSound w s act ↔ poolUsable s act)) ∧
    (2 ^ 32 ≤ max elementSize.toNat w * blockSize.toNat →
      ∃ h s, (poolMachine w).Run poolCall ⟨p, Heap.empty, []⟩ h s ∧
        ∃ e ∈ h, ∃ ptr, e.2 = some ptr ∧ ptr ≠ .null ∧ ¬ InBlock s ptr) := by
  constructor
  · intro hfits h s hrun
    obtain ⟨p', hinit', -, hshape, hstart⟩ := init_represents hw hblockSize hfits
    cases hinit.symm.trans hinit'
    obtain ⟨hs, hout⟩ := usable_run hshape ⟨_, .inl hstart⟩ hrun
    exact ⟨hout, hs.directory.deinit_eq, fun act hcall => stepSound_iff hshape hs hcall⟩
  · intro hbig
    obtain ⟨hmax, rfl⟩ := eq_freshPool_of_init hw32 hinit
    obtain ⟨h, s, hrun, hescape⟩ := overflow_escapes
      (show 0 < (UInt32.ofNat (max elementSize.toNat w)).toNat by omega) (hmax.symm ▸ hbig)
    exact ⟨h, s, hrun.weaken fun _ _ => poolCall_of_poolGuard, hescape⟩

open Ctools.Library Ctools.Program Ctools.Analysis in
/-- The theorem at a run whose third call has no memory, whose fourth recycles an
element, and which starts over. -/
theorem Ctools.Analysis.pool_sound_when_usable_restart :
    ∃ p h s, poolInit 8 4 2 true = some (0, p) ∧
      (poolMachine 8).Run poolUsable ⟨p, Heap.empty, []⟩ h s ∧
      h.map Prod.snd =
          [some ⟨some 0, 0⟩, some ⟨some 0, 8⟩, some .null, none, some ⟨some 0, 8⟩, none,
        some ⟨some 0, 0⟩] ∧
      FreesAll s ∧ ∀ act, poolCall s act → (StepSound 8 s act ↔ poolUsable s act) := by
  have hrun := Machine.run_of_execUnder (m := poolMachine 8) poolUsable
    ⟨⟨8, 2, 1, -1, .null, 1, [some .null]⟩, Heap.empty, []⟩
    [.malloc true true, .malloc true true, .malloc true false, .free ⟨some 0, 8⟩,
     .malloc true false,
      .freeAll, .malloc true true] rfl
  have hinit : poolInit 8 4 2 true = some (0, ⟨8, 2, 1, -1, .null, 1, [some .null]⟩) := by decide
  have hsound :=
    (pool_sound_when_usable (by decide) (by decide) (by decide) hinit).1 (by decide) _ _ hrun
  exact ⟨_, _, _, hinit, hrun, by decide, hsound.2⟩

open Ctools.Library Ctools.Program Ctools.Analysis in
/-- A pool of two elements a block whose first block cannot be allocated: the second
call returns an address in no block, the third allocates a block, and `pool_deinit`
frees nothing. -/
theorem Ctools.Analysis.pool_unsound_after_failure :
    ∃ p h s, poolInit 8 4 2 true = some (0, p) ∧
      (poolMachine 8).Run poolCall ⟨p, Heap.empty, []⟩ h s ∧
      h.map Prod.snd = [some .null, some ⟨none, 8⟩, some ⟨some 0, 0⟩] ∧
      ¬ InBlock s ⟨none, 8⟩ ∧ s.heap.sizes = [16] ∧ poolDeinit s.pool = some [] := by
  have hrun := Machine.run_of_execUnder (m := poolMachine 8) poolCall
    ⟨⟨8, 2, 1, -1, .null, 1, [some .null]⟩, Heap.empty, []⟩
    [.malloc true false, .malloc true true, .malloc true true] rfl
  have hinit : poolInit 8 4 2 true = some (0, ⟨8, 2, 1, -1, .null, 1, [some .null]⟩) := by decide
  refine ⟨_, _, _, hinit, hrun, by decide, ?_, by decide, by decide⟩
  rintro ⟨b, hblock⟩
  cases (Heap.blockAt_eq_some.mp hblock).1
