import Ctools.Analysis.PoolArena

/-!
# A block whose size wraps

`p->element_size * p->block_size` is a product of `uint32_t`.  Where it wraps,
`malloc` returns a block that is too small, and `pool_malloc` hands out elements
beyond its end, or, where the product of a place and the element size wraps too,
elements on top of each other.  So some run without a failed allocation hands out
an element that does not fit (`overflow_escapes`), and some run comes to a call that
leaves the block or follows a link that its user has overwritten
(`overflow_stuck`): calls always succeed only where it does not wrap
(`fits_of_calls_succeed`).
-/

set_option autoImplicit false

namespace Ctools.Analysis

open Ctools.Library Ctools.Program Heap

/-- The element at `ptr` lies in a block that was allocated. -/
def InBlock (s : PoolWorld) (ptr : Addr) : Prop :=
  ∃ b, s.heap.blockAt ptr s.pool.elementSize.toNat = some b

/-- What `pool_init` leaves. -/
def freshPool (es bs : UInt32) : Pool :=
  { elementSize := es, blockSize := bs, used := bs - 1, block := -1, freed := .null,
    blocksUsed := 1,
    blocks := [some .null] }

/-- The pool with its cursor in its first block. -/
def firstBlock (es bs used : UInt32) : Pool :=
  { elementSize := es, blockSize := bs, used := used, block := 0, freed := .null, blocksUsed := 1,
    blocks := [some ⟨some 0, 0⟩] }

/-- The address `pool_malloc` computes for place `k` of the first block.
SOURCE: pool.c:71 -/
def computed (es : UInt32) (k : ℕ) : Addr := ⟨some 0, (UInt32.ofNat k * es).toNat⟩

/-- Places `0` to `k`, the last one first. -/
def handedOut (es : UInt32) (k : ℕ) : List Addr := (List.range (k + 1)).reverse.map (computed es)

variable {w : ℕ} {es bs : UInt32}

/-- The last place comes first. -/
theorem handedOut_succ (k : ℕ) : handedOut es (k + 1) = computed es (k + 1) :: handedOut es k := by
  rw [handedOut, List.range_succ, List.reverse_append, List.map_append]
  rfl

/-- Places 0 to `k` were handed out. -/
theorem mem_handedOut {j k : ℕ} (hj : j ≤ k) : computed es j ∈ handedOut es k := by
  refine List.mem_map_of_mem (List.mem_reverse.mpr (List.mem_range.mpr ?_))
  omega

/-- A place whose product with the element size does not wrap. -/
theorem computed_off (es : UInt32) {k : ℕ} (hk : k < 2 ^ 32) (hfits : k * es.toNat < 2 ^ 32) :
    (computed es k).off = k * es.toNat := by
  rw [computed, UInt32.toNat_mul, UInt32.toNat_ofNat_of_lt' hk, Nat.mod_eq_of_lt hfits]

/-- What `pool_init` leaves, with elements that have room for a pointer.
SOURCE: pool.c:13-32 -/
theorem eq_freshPool_of_init (hw32 : w < 2 ^ 32) {elementSize blockSize : UInt32} {p : Pool}
    (hinit : poolInit w elementSize blockSize true = some (0, p)) :
    (UInt32.ofNat (max elementSize.toNat w)).toNat = max elementSize.toNat w ∧
      p = freshPool (UInt32.ofNat (max elementSize.toNat w)) blockSize := by
  refine ⟨UInt32.toNat_ofNat_of_lt' (max_lt elementSize.toNat_lt hw32), ?_⟩
  cases hinit
  rfl

/-- The first calls of `pool_malloc` hand out the places of the first block, whatever
its size in bytes.
SOURCE: pool.c:47-72 -/
theorem firstBlock_run (w : ℕ) (es : UInt32) (hbs : 0 < bs.toNat) (k : ℕ) (hk : k < bs.toNat) :
    ∃ h s, (poolMachine w).Run poolGuard ⟨freshPool es bs, Heap.empty, []⟩ h s ∧
      s.pool = firstBlock es bs (UInt32.ofNat k) ∧ s.heap.sizes = [(es * bs).toNat] ∧
      s.live = handedOut es k ∧ ∃ e ∈ h, e.2 = some (computed es k) := by
  induction k with
  | zero =>
    have hlast : bs - 1 + 1 = bs := UInt32.sub_add_cancel bs 1
    have hadvance : poolAdvance (freshPool es bs) Heap.empty true true =
        some (firstBlock es bs 0, (Heap.empty.alloc (es * bs).toNat).2) := by
      rw [poolAdvance, freshPool, if_pos hlast, poolNextBlock, if_pos (by norm_num)]
      rfl
    have hstep : poolStep w ⟨freshPool es bs, Heap.empty, []⟩ (.malloc true true) =
        some (some (computed es 0),
          ⟨firstBlock es bs 0, (Heap.empty.alloc (es * bs).toNat).2, [computed es 0]⟩) := by
      have hnone : ¬ (freshPool es bs).freed ≠ .null := not_not.mpr rfl
      simp only [poolStep, poolMalloc, if_neg hnone, hadvance, Option.bind_eq_bind,
        Option.bind_some]
      simp [Pool.entry, firstBlock, computed, Addr.null, Addr.add]
    have hguard : poolGuard ⟨freshPool es bs, Heap.empty, []⟩ (.malloc true true) :=
      ⟨rfl, rfl, Nat.two_pow_pos 31⟩
    exact ⟨_, _, .next .start hguard hstep, rfl, rfl, rfl, _, List.mem_cons_self, rfl⟩
  | succ k ih =>
    obtain ⟨h, s, hrun, hpool, hsizes, hlive, -⟩ := ih (by omega)
    have hlt := bs.toNat_lt
    have hadd : UInt32.ofNat k + 1 = UInt32.ofNat (k + 1) := by
      rw [UInt32.ofNat_add]
      rfl
    have hmore : UInt32.ofNat (k + 1) ≠ bs := by
      intro heq
      have hnat := congrArg UInt32.toNat heq
      rw [UInt32.toNat_ofNat_of_lt' (show k + 1 < 2 ^ 32 by omega)] at hnat
      omega
    have hadvance : poolAdvance s.pool s.heap true true =
        some (firstBlock es bs (UInt32.ofNat (k + 1)), s.heap) := by
      rw [hpool, poolAdvance]
      show (if UInt32.ofNat k + 1 = bs then _ else _) = _
      rw [if_neg (hadd ▸ hmore), ← hadd]
      rfl
    have hstep : poolStep w s (.malloc true true) = some (some (computed es (k + 1)),
        ⟨firstBlock es bs (UInt32.ofNat (k + 1)), s.heap, computed es (k + 1) :: s.live⟩) := by
      have hnone : ¬ s.pool.freed ≠ .null := by
        rw [hpool]
        exact not_not.mpr rfl
      simp only [poolStep, poolMalloc, if_neg hnone, hadvance, Option.bind_eq_bind,
        Option.bind_some]
      simp [Pool.entry, firstBlock, computed, Addr.null, Addr.add]
    have hguard : poolGuard s (.malloc true true) := by
      refine ⟨rfl, rfl, ?_⟩
      rw [hsizes, List.length_singleton]
      norm_num
    refine ⟨_, _, .next hrun hguard hstep, rfl, hsizes, ?_, _,
      List.mem_append_right _ List.mem_cons_self, rfl⟩
    rw [handedOut_succ, hlive]

/-- In the first block only what lies below its size is there. -/
theorem blockAt_computed {heap : Heap} {size n k : ℕ} (hsizes : heap.sizes = [size]) :
    heap.blockAt (computed es k) n = if (computed es k).off + n ≤ size then some 0 else none := by
  simp [Heap.blockAt, computed, hsizes, Option.filter]

/-- The first place that does not fit in the first block. -/
theorem first_misfit (hes : 0 < es.toNat) (hbig : 2 ^ 32 ≤ es.toNat * bs.toNat) :
    ∃ k < bs.toNat, k * es.toNat ≤ (es * bs).toNat ∧ (es * bs).toNat < k * es.toNat + es.toNat := by
  have hlt := (es * bs).toNat_lt
  refine ⟨(es * bs).toNat / es.toNat, ?_, Nat.div_mul_le_self _ _, Nat.lt_div_mul_add hes⟩
  rw [Nat.div_lt_iff_lt_mul hes, Nat.mul_comm]
  exact lt_of_lt_of_le hlt hbig

/-- **Where the size of a block wraps, an element that does not fit is handed out,**
though all allocations succeed.
SOURCE: pool.c:68 -/
theorem overflow_escapes (hes : 0 < es.toNat) (hbig : 2 ^ 32 ≤ es.toNat * bs.toNat) :
    ∃ h s, (poolMachine w).Run poolGuard ⟨freshPool es bs, Heap.empty, []⟩ h s ∧
      ∃ e ∈ h, ∃ ptr, e.2 = some ptr ∧ ptr ≠ .null ∧ ¬ InBlock s ptr := by
  have hlt := (es * bs).toNat_lt
  obtain ⟨k, hk, hle, hmisfit⟩ := first_misfit hes hbig
  obtain ⟨h, s, hrun, hpool, hsizes, -, e, he, hptr⟩ :=
    firstBlock_run w es (Nat.zero_lt_of_lt hk) _ hk
  refine ⟨h, s, hrun, e, he, _, hptr, by simp [computed, Addr.null], ?_⟩
  rintro ⟨b, hblock⟩
  have hoff := computed_off es (hk.trans bs.toNat_lt) (by omega)
  rw [hpool] at hblock
  have hblock : s.heap.blockAt (computed es k) es.toNat = some b := hblock
  rw [blockAt_computed hsizes, hoff, if_neg (by omega)] at hblock
  cases hblock

/-- A call within the rules that the pool cannot take. -/
def Stuck (w : ℕ) (s : PoolWorld) : Prop := ∃ act, poolGuard s act ∧ poolStep w s act = none

/-- Freeing a live element whose first bytes do not fit leaves the block.
SOURCE: pool.c:78-79 -/
theorem stuck_of_misfit {s : PoolWorld} {k size : ℕ} (hsizes : s.heap.sizes = [size])
    (hlive : computed es k ∈ s.live) (hmisfit : size < (computed es k).off + w) : Stuck w s := by
  refine ⟨.free (computed es k), hlive, ?_⟩
  have hstore : s.heap.storePtr w (computed es k) s.pool.freed = none := by
    rw [storePtr, blockAt_computed hsizes, if_neg (by omega)]
    rfl
  simp [poolStep, poolFree, hstore]

/-- **Where the size of a block wraps, some run gets stuck,** though all allocations
succeed and only live elements are freed and written to.
SOURCE: pool.c:47-80 -/
theorem overflow_stuck (hw : 0 < w) (hwidth : w ≤ es.toNat)
    (hbig : 2 ^ 32 ≤ es.toNat * bs.toNat) :
    ∃ h s, (poolMachine w).Run poolGuard ⟨freshPool es bs, Heap.empty, []⟩ h s ∧ Stuck w s := by
  have hlt := (es * bs).toNat_lt
  have hes := es.toNat_lt
  have hbs := bs.toNat_lt
  obtain ⟨k, hk, hle, hmisfit⟩ := first_misfit (by omega) hbig
  have hoff := computed_off es (hk.trans hbs) (by omega)
  by_cases hfirst : (es * bs).toNat < k * es.toNat + w
  · obtain ⟨h, s, hrun, -, hsizes, hlive, -⟩ :=
      firstBlock_run w es (Nat.zero_lt_of_lt hk) k hk
    have hmem : computed es k ∈ s.live := by
      rw [hlive]
      exact mem_handedOut le_rfl
    exact ⟨h, s, hrun, stuck_of_misfit hsizes hmem (by omega)⟩
  -- the next place does not fit either, or its product wraps
  have hmul : (k + 1) * es.toNat = k * es.toNat + es.toNat := Nat.succ_mul _ _
  have hnext : k + 1 < bs.toNat := by
    by_contra hend
    have hall : bs.toNat = k + 1 := by omega
    have hsize : (es * bs).toNat = (k * es.toNat + es.toNat) % 2 ^ 32 := by
      rw [UInt32.toNat_mul, hall, Nat.mul_comm, hmul]
    rw [hall, Nat.mul_comm, hmul] at hbig
    omega
  obtain ⟨h, s, hrun, hpool, hsizes, hlive, -⟩ :=
    firstBlock_run w es (Nat.zero_lt_of_lt hk) (k + 1) hnext
  have hmem : computed es (k + 1) ∈ s.live := by
    rw [hlive]
    exact mem_handedOut le_rfl
  by_cases hwraps : (k + 1) * es.toNat < 2 ^ 32
  · have hoff' := computed_off es (hnext.trans hbs) hwraps
    exact ⟨h, s, hrun, stuck_of_misfit hsizes hmem (by omega)⟩
  · -- it lies on top of place 0, whose user writes over its link
    have hoff' : (computed es (k + 1)).off = (k + 1) * es.toNat - 2 ^ 32 := by
      show (UInt32.ofNat (k + 1) * es).toNat = _
      rw [UInt32.toNat_mul, UInt32.toNat_ofNat_of_lt' (hnext.trans hbs)]
      omega
    have hinside : (computed es (k + 1)).off + w ≤ (es * bs).toNat := by omega
    have hstart : (computed es 0).add (computed es (k + 1)).off = computed es (k + 1) := by
      simp [computed, Addr.add]
    have hlink : s.heap.blockAt (computed es (k + 1)) w = some 0 := by
      rw [blockAt_computed hsizes, if_pos hinside]
    obtain ⟨heap₁, hstore⟩ := exists_storePtr hlink s.pool.freed
    have hsizes₁ : heap₁.sizes = [(es * bs).toNat] := (sizes_of_storePtr hstore).trans hsizes
    have hbyte : heap₁.blockAt (computed es (k + 1)) 1 = some 0 := by
      rw [blockAt_computed hsizes₁, if_pos (by omega)]
    obtain ⟨heap₂, hwrite⟩ := exists_write hbyte (.byte 0)
    have hfree : poolStep w s (.free (computed es (k + 1))) = some (none,
        ⟨{ s.pool with freed := computed es (k + 1) }, heap₁, handedOut es k⟩) := by
      simp [poolStep, poolFree, hstore, hlive, handedOut_succ]
    have huse : poolStep w ⟨{ s.pool with freed := computed es (k + 1) }, heap₁, handedOut es k⟩
        (.use (computed es 0) (computed es (k + 1)).off (.byte 0)) = some (none,
          ⟨{ s.pool with freed := computed es (k + 1) }, heap₂, handedOut es k⟩) := by
      simp [poolStep, hstart, hwrite]
    have hsize : s.pool.elementSize.toNat = es.toNat := by
      rw [hpool]
      rfl
    have hwithin : (computed es (k + 1)).off < s.pool.elementSize.toNat := by omega
    have hmayFree : poolGuard s (.free (computed es (k + 1))) := hmem
    have hmayUse : poolGuard ⟨{ s.pool with freed := computed es (k + 1) }, heap₁, handedOut es k⟩
        (.use (computed es 0) (computed es (k + 1)).off (.byte 0)) :=
      ⟨mem_handedOut (Nat.zero_le k), hwithin⟩
    refine ⟨_, _, .next (.next hrun hmayFree hfree) hmayUse huse, .malloc true true,
      ⟨rfl, rfl, ?_⟩, ?_⟩
    · show heap₂.sizes.length < 2 ^ 31
      rw [sizes_of_write hwrite, hsizes₁, List.length_singleton]
      norm_num
    · have hfreed : computed es (k + 1) ≠ .null := by simp [computed, Addr.null]
      simp [poolStep, poolMalloc, hfreed, loadPtr_of_write_byte hwrite]

/-- Where every call succeeds, the size of a block does not wrap. -/
theorem fits_of_calls_succeed (hw : 0 < w) (hw32 : w < 2 ^ 32) {elementSize blockSize : UInt32}
    {p : Pool} (hinit : poolInit w elementSize blockSize true = some (0, p))
    (hall : ∀ h s, (poolMachine w).Run poolGuard ⟨p, Heap.empty, []⟩ h s →
      ∀ act, poolGuard s act → ∃ o s', poolStep w s act = some (o, s')) :
    max elementSize.toNat w * blockSize.toNat < 2 ^ 32 := by
  by_contra hbig
  obtain ⟨hmax, rfl⟩ := eq_freshPool_of_init hw32 hinit
  have hwidth : w ≤ (UInt32.ofNat (max elementSize.toNat w)).toNat := by omega
  have hbig' : 2 ^ 32 ≤ (UInt32.ofNat (max elementSize.toNat w)).toNat * blockSize.toNat := by
    rw [hmax]
    exact not_lt.mp hbig
  obtain ⟨h, s, hrun, act, hguard, hstuck⟩ := overflow_stuck hw hwidth hbig'
  obtain ⟨o, s', hstep⟩ := hall h s hrun act hguard
  cases hstuck.symm.trans hstep

end Ctools.Analysis
