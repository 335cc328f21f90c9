import Ctools.Analysis.PoolOverflow
import Ctools.Library.History

/-!
# The pool's footprint follows the peak demand

The demand after a history is the number of elements that its users hold.  A new
place is handed out only when no place is free, so at that moment the demand is the
number of places handed out since the last `pool_free_all`; and a block is added only
when all places of all blocks are live (`Thrifty`).  So the number of blocks is the
peak of the demand divided by the block size, rounded up.
-/

set_option autoImplicit false

namespace Ctools.Analysis

open Ctools.Library Ctools.Program Heap

/-- The number of live elements after one more event. -/
def demandAfter (n : ℕ) : PoolAct × Option Addr → ℕ
  | (.malloc _ _, ptr) => if ptr = some .null then n else n + 1
  | (.free _, _) => n - 1
  | (.freeAll, _) => 0
  | (.use _ _ _, _) => n

/-- The number of live elements after a history. -/
def demand (h : List (PoolAct × Option Addr)) : ℕ := h.foldl demandAfter 0

/-- The demand behind the last call. -/
theorem demand_snoc (h : List (PoolAct × Option Addr)) (e : PoolAct × Option Addr) :
    demand (h ++ [e]) = demandAfter (demand h) e := by
  rw [demand, List.foldl_append]
  rfl

variable {w : ℕ} {es bs : UInt32} {s s' : PoolWorld} {a a' : Arena} {act : PoolAct}

/-- The demand is the number of live elements. -/
theorem length_live_step {o : Option Addr} (hguard : poolGuard s act)
    (hstep : poolStep w s act = some (o, s')) :
    s'.live.length = demandAfter s.live.length (act, o) := by
  cases act with
  | malloc reallocated backed =>
    simp only [poolStep, Option.bind_eq_bind, Option.pure_def, Option.bind_eq_some_iff,
      Option.some.injEq, Prod.mk.injEq, Prod.exists] at hstep
    obtain ⟨ptr, p, heap, -, rfl, rfl⟩ := hstep
    by_cases hnull : ptr = .null
    · simp [demandAfter, hnull]
    · simp [demandAfter, hnull]
  | free ptr =>
    simp only [poolStep, Option.bind_eq_bind, Option.pure_def, Option.bind_eq_some_iff,
      Option.some.injEq, Prod.mk.injEq, Prod.exists] at hstep
    obtain ⟨p, heap, -, -, rfl⟩ := hstep
    exact List.length_erase_of_mem hguard
  | freeAll =>
    cases hstep
    rfl
  | use ptr off c =>
    simp only [poolStep, Option.bind_eq_bind, Option.pure_def, Option.bind_eq_some_iff,
      Option.some.injEq, Prod.mk.injEq] at hstep
    obtain ⟨heap, -, -, rfl⟩ := hstep
    rfl

/-- The pool is at an arena and its blocks are those the peak demand needs. -/
structure Footprint (w : ℕ) (es bs : UInt32) (h : List (PoolAct × Option Addr)) (s : PoolWorld)
    (a : Arena) : Prop where
  represents : Represents w es bs s a
  demand_eq : s.live.length = demand h
  next_le : a.next ≤ peak demand h
  peak_le : peak demand h ≤ s.heap.sizes.length * bs.toNat
  lt_peak : s.heap.sizes.length * bs.toNat < peak demand h + bs.toNat

/-- **One call keeps the footprint.** -/
theorem footprint_step (hshape : PoolShape w es bs) {h : List (PoolAct × Option Addr)}
    (hf : Footprint w es bs h s a) (hguard : poolGuard s act) :
    ∃ o s' a', poolStep w s act = some (o, s') ∧ Footprint w es bs (h ++ [(act, o)]) s' a' ∧
      (s'.heap.sizes.length ≠ s.heap.sizes.length →
        s.live.length = s.heap.sizes.length * bs.toNat) := by
  obtain ⟨o, s', a', hstep, hs', ⟨hnext, hblocks⟩, -⟩ :=
    step_represents hshape hf.represents hguard
  have hdemand : s'.live.length = demand (h ++ [(act, o)]) := by
    rw [demand_snoc, ← hf.demand_eq, length_live_step hguard hstep]
  have hlive : ∀ {t : PoolWorld} {b : Arena}, Represents w es bs t b →
      t.live.length = b.live.length :=
    fun ht => by rw [ht.live, List.length_map]
  have hplaces := a.length_live_add_free
  have hplaces' := a'.length_live_add_free
  have hold := hlive hf.represents
  have hnew := hlive hs'
  have hbefore := hf.next_le
  have hle := hf.peak_le
  have hlt := hf.lt_peak
  have hroom := hs'.next_le
  have hpeak := peak_snoc demand h (act, o)
  rw [← hdemand] at hpeak
  -- a place is new only when all places handed out are live
  have hnextPeak : a'.next ≤ peak demand (h ++ [(act, o)]) := by
    rcases hnext with hsame | hnone
    · omega
    · rw [hnone, List.length_nil] at hplaces'
      omega
  refine ⟨o, s', a', hstep, ?_, fun hgrown => ?_⟩
  · rcases hblocks with hsame | ⟨-, hfull, hone, hmore⟩
    · rw [hsame] at hroom
      refine ⟨hs', hdemand, hnextPeak, ?_, ?_⟩
      · rw [hsame]
        omega
      · rw [hsame]
        omega
    · rw [hmore, Nat.succ_mul] at hroom
      refine ⟨hs', hdemand, hnextPeak, ?_, ?_⟩
      · rw [hmore, Nat.succ_mul]
        omega
      · rw [hmore, Nat.succ_mul]
        omega
  · rcases hblocks with hsame | ⟨hnone, hfull, -, -⟩
    · exact absurd (congrArg List.length hsame) hgrown
    · rw [hnone, List.length_nil] at hplaces
      omega

/-- What `pool_init` leaves has no blocks and no demand. -/
theorem footprint_init (hbs : 0 < bs.toNat) {p : Pool}
    (hs : Represents w es bs ⟨p, Heap.empty, []⟩ Arena.start) :
    Footprint w es bs [] ⟨p, Heap.empty, []⟩ Arena.start where
  represents := hs
  demand_eq := rfl
  next_le := Nat.zero_le _
  peak_le := by
    rw [peak_nil]
    exact Nat.zero_le _
  lt_peak := by
    rw [peak_nil]
    simpa [Heap.empty] using Nat.add_pos_right _ hbs

/-- What holds of the footprint in every state of a run. -/
theorem footprint_run (hshape : PoolShape w es bs) {s₀ : PoolWorld} {a₀ : Arena}
    (hf₀ : Footprint w es bs [] s₀ a₀) {h : List (PoolAct × Option Addr)}
    (hrun : (poolMachine w).Run poolGuard s₀ h s) : ∃ a, Footprint w es bs h s a := by
  refine hrun.invariant (fun h s => ∃ a, Footprint w es bs h s a) ⟨a₀, hf₀⟩ ?_
  rintro h s act o s' ⟨a, hf⟩ hguard hstep
  obtain ⟨o', t, a', hstep', hf', -⟩ := footprint_step hshape hf hguard
  have heq : some (o, s') = some (o', t) := hstep.symm.trans hstep'
  cases heq
  exact ⟨a', hf'⟩

/-- The number of blocks is the peak divided by the block size, rounded up. -/
theorem Footprint.blocks_eq (hbs : 0 < bs.toNat) {h : List (PoolAct × Option Addr)}
    (hf : Footprint w es bs h s a) :
    s.heap.sizes.length = (peak demand h + bs.toNat - 1) / bs.toNat := by
  have hle := hf.peak_le
  have hlt := hf.lt_peak
  refine (Nat.div_eq_of_lt_le ?_ ?_).symm
  · omega
  · rw [Nat.succ_mul]
    omega

end Ctools.Analysis

open Ctools.Library Ctools.Program Ctools.Analysis in
/-- **The footprint follows the peak demand.**  In every run of a pool from `pool_init`
in which allocations succeed and only live elements are freed and written to, there are
as many blocks as the largest number of live elements reached so far needs, every
further call succeeds, and one that adds a block finds all elements of all blocks live;
this holds if and only if the size of a block fits in 32 bits.
SOURCE: pool.c:47-87 -/
theorem Ctools.Analysis.pool_footprint {w : ℕ} {elementSize blockSize : UInt32} (hw : 0 < w)
    (hw32 : w < 2 ^ 32) (hblockSize : 0 < blockSize.toNat) {p : Pool}
    (hinit : poolInit w elementSize blockSize true = some (0, p)) :
    (∀ h s, (poolMachine w).Run poolGuard ⟨p, Heap.empty, []⟩ h s →
      s.heap.sizes.length = (peak demand h + blockSize.toNat - 1) / blockSize.toNat ∧
        ∀ act, poolGuard s act → ∃ o s', poolStep w s act = some (o, s') ∧
          (s'.heap.sizes.length ≠ s.heap.sizes.length →
            s.live.length = s.heap.sizes.length * blockSize.toNat)) ↔
      max elementSize.toNat w * blockSize.toNat < 2 ^ 32 := by
  constructor
  · intro hall
    refine fits_of_calls_succeed hw hw32 hinit fun h s hrun act hguard => ?_
    obtain ⟨o, s', hstep, -⟩ := (hall h s hrun).2 act hguard
    exact ⟨o, s', hstep⟩
  · intro hfits h s hrun
    obtain ⟨p', hinit', -, hshape, hstart⟩ := init_represents hw hblockSize hfits
    cases hinit.symm.trans hinit'
    obtain ⟨a, hf⟩ := footprint_run hshape (footprint_init hblockSize hstart) hrun
    refine ⟨hf.blocks_eq hblockSize, fun act hguard => ?_⟩
    obtain ⟨o, s', -, hstep, -, hthrifty⟩ := footprint_step hshape hf hguard
    exact ⟨o, s', hstep, hthrifty⟩

open Ctools.Library Ctools.Program Ctools.Analysis in
/-- The rule at a pool of two elements a block. -/
theorem Ctools.Analysis.pool_footprint_two :
    ∃ p h s, poolInit 8 4 2 true = some (0, p) ∧
      (poolMachine 8).Run poolGuard ⟨p, Heap.empty, []⟩ h s ∧ peak demand h = 3 ∧ demand h = 1 ∧
      s.heap.sizes.length = 2 := by
  have hrun := Machine.run_of_execUnder (m := poolMachine 8) poolGuard
    ⟨⟨8, 2, 1, -1, .null, 1, [some .null]⟩, Heap.empty, []⟩
    [.malloc true true, .malloc true true, .malloc true true, .free ⟨some 0, 8⟩, .malloc true true,
      .freeAll, .malloc true true] rfl
  have hinit : poolInit 8 4 2 true = some (0, ⟨8, 2, 1, -1, .null, 1, [some .null]⟩) := by decide
  have hfoot := (pool_footprint (by decide) (by decide) (by decide) hinit).2 (by decide) _ _ hrun
  exact ⟨_, _, _, hinit, hrun, by decide, by decide, hfoot.1⟩

open Ctools.Library Ctools.Program Ctools.Analysis in
/-- Three elements of 2^31 bytes in a block of 2^31 bytes: the first and the third are
the same, both are freed, and the free list is a cycle that is handed out for ever. -/
theorem Ctools.Analysis.pool_footprint_wraps :
    ∃ p h s, poolInit 8 2147483648 3 true = some (0, p) ∧
      (poolMachine 8).Run poolGuard ⟨p, Heap.empty, []⟩ h s ∧ peak demand h = 4 ∧
      s.heap.sizes.length = 1 := by
  have hrun := Machine.run_of_execUnder (m := poolMachine 8) poolGuard
    ⟨⟨2147483648, 3, 2, -1, .null, 1, [some .null]⟩, Heap.empty, []⟩
    [.malloc true true, .malloc true true, .malloc true true, .free ⟨some 0, 0⟩, .free ⟨some 0, 0⟩,
      .malloc true true, .malloc true true, .malloc true true] rfl
  exact ⟨_, _, _, by decide, hrun, by decide, by decide⟩
