import Ctools.Analysis.PoolOverflow

/-!
# Elements in their blocks

What `pool_malloc` hands out is element `k` of block `b` (`elementAt`).  Where the size of
a block fits in 32 bits it lies inside its block, apart from the others; where it does
not, some run hands out one that does not fit (`overflow_escapes`).  `pool_init` makes an
element as large as a `struct pool_freed`, but does not round its size up to the alignment
of one; so the second element of a block is aligned only if the size of an element is a
multiple of it.
-/

set_option autoImplicit false

namespace Ctools.Analysis

open Ctools.Library Ctools.Program Heap

/-- The calls of a run in which allocations succeed, and only live elements are freed and
written to, each within its bytes. -/
def backedCall (s : PoolWorld) : PoolAct → Prop
  | .malloc reallocated backed => reallocated = true ∧ backed = true
  | act => poolGuard s act

instance (s : PoolWorld) : ∀ act, Decidable (backedCall s act)
  | .malloc _ _ => inferInstanceAs (Decidable (_ = true ∧ _ = true))
  | .free ptr => inferInstanceAs (Decidable (poolGuard s (.free ptr)))
  | .freeAll => inferInstanceAs (Decidable True)
  | .use ptr off c => inferInstanceAs (Decidable (poolGuard s (.use ptr off c)))

/-- Element `k` of block `b`.
SOURCE: pool.c:71 -/
def elementAt (p : Pool) (b : ℕ) (k : UInt32) : Addr :=
  Addr.add ⟨some b, 0⟩ (k * p.elementSize).toNat

/-- The address of a place in a block, where block `b` starts at `base b`. -/
def machineAddress (base : ℕ → ℕ) (ptr : Addr) : ℕ := (ptr.block.map base).getD 0 + ptr.off

/-- Every element that is handed out is one of a block, lies inside it, and is aligned for a
`struct pool_freed`; and different elements of a block have no bytes in common. -/
structure ElementsFit (w align : ℕ) (base : ℕ → ℕ) (p : Pool) : Prop where
  handedOut : ∀ h s, (poolMachine w).Run backedCall ⟨p, Heap.empty, []⟩ h s → ∀ e ∈ h, ∀ ptr,
    e.2 = some ptr → (∃ b, ∃ k < p.blockSize, ptr = elementAt p b k) ∧ InBlock s ptr ∧
      align ∣ machineAddress base ptr
  apart : ∀ b, ∀ j < p.blockSize, ∀ k < p.blockSize, j ≠ k →
    (elementAt p b j).Apart p.elementSize.toNat (elementAt p b k) p.elementSize.toNat

variable {w : ℕ} {es bs : UInt32} {s s' : PoolWorld} {a : Arena} {act : PoolAct}
  {o : Option Addr} {align : ℕ} {base : ℕ → ℕ} {p : Pool}

/-- Calls with fewer than `2 ^ 31` blocks are among them. -/
theorem backedCall_of_poolGuard (hguard : poolGuard s act) : backedCall s act := by
  cases act with
  | malloc _ _ => exact ⟨hguard.1, hguard.2.1⟩
  | free _ | freeAll | use _ _ _ => exact hguard

/-- All others are calls of `pool_malloc`. -/
theorem backedCall_cases (hguard : backedCall s act) :
    act = .malloc true true ∨ poolGuard s act := by
  cases act with
  | malloc reallocated backed =>
    obtain ⟨rfl, rfl⟩ := hguard
    exact .inl rfl
  | free _ | freeAll | use _ _ _ => exact .inr hguard

/-- A call that would move the cursor beyond the `int32_t` range does not return. -/
theorem malloc_moves (hstep : poolStep w s (.malloc true true) = some (o, s'))
    (hfreed : s.pool.freed = .null) (hlast : s.pool.used + 1 = s.pool.blockSize) :
    s.pool.block + 1 < 2 ^ 31 := by
  by_contra hbeyond
  have hadvance : poolAdvance s.pool s.heap true true = none := by
    rw [poolAdvance, if_pos hlast, poolNextBlock, if_neg hbeyond]
  rw [poolStep, poolMalloc, if_neg (not_not.mpr hfreed), hadvance] at hstep
  exact absurd hstep (by simp)

/-- A call that returns is one of the arena.
SOURCE: pool.c:47-87 -/
theorem returned_represents (hshape : PoolShape w es bs) (hs : Represents w es bs s a)
    (hguard : backedCall s act) (hstep : poolStep w s act = some (o, s')) :
    ∃ a', Represents w es bs s' a' ∧ Thrifty bs s s' a a' ∧
      ∀ ptr, o = some ptr → ∃ e, ptr = place es.toNat bs.toNat e ∧ a'.live = e :: a.live := by
  rcases backedCall_cases hguard with rfl | hguard
  · obtain ⟨e, a', t, hstep', ht, hlive, hthrifty⟩ :=
      malloc_represents hshape hs fun hfreed hlast => malloc_moves hstep hfreed hlast
    have heq : some (o, s') = some (_, t) := hstep.symm.trans hstep'
    cases heq
    refine ⟨a', ht, hthrifty, ?_⟩
    rintro ptr ⟨rfl⟩
    exact ⟨e, rfl, hlive⟩
  · obtain ⟨o', t, a', hstep', ht, hthrifty, hout⟩ := step_represents hshape hs hguard
    have heq : some (o, s') = some (o', t) := hstep.symm.trans hstep'
    cases heq
    exact ⟨a', ht, hthrifty, hout⟩

/-- What was handed out is a place of a block that is there. -/
def HandedOut (es bs : UInt32) (h : List (PoolAct × Option Addr)) (s : PoolWorld) : Prop :=
  ∀ e ∈ h, ∀ ptr, e.2 = some ptr →
    ∃ f, ptr = place es.toNat bs.toNat f ∧ f / bs.toNat < s.heap.sizes.length

/-- Blocks are added at the end. -/
theorem Thrifty.length_le {a' : Arena} (hthrifty : Thrifty bs s s' a a') :
    s.heap.sizes.length ≤ s'.heap.sizes.length := by
  rcases hthrifty.2 with hsame | ⟨-, -, -, hmore⟩
  · rw [hsame]
  · omega

/-- In every run the pool is at an arena, and hands out places of its blocks. -/
theorem handedOut_run {s₀ : PoolWorld} {a₀ : Arena} (hshape : PoolShape w es bs)
    (hs₀ : Represents w es bs s₀ a₀) {h : List (PoolAct × Option Addr)}
    (hrun : (poolMachine w).Run backedCall s₀ h s) :
    (∃ a, Represents w es bs s a) ∧ HandedOut es bs h s := by
  refine hrun.invariant (fun h s => (∃ a, Represents w es bs s a) ∧ HandedOut es bs h s)
    ⟨⟨a₀, hs₀⟩, nofun⟩ ?_
  rintro h s act o s' ⟨⟨a, hs⟩, hout⟩ hguard hstep
  obtain ⟨a', hs', hthrifty, hnew⟩ := returned_represents hshape hs hguard hstep
  refine ⟨⟨a', hs'⟩, ?_⟩
  intro e he ptr hptr
  rcases List.mem_append.mp he with hold | hlast
  · obtain ⟨f, rfl, hf⟩ := hout e hold ptr hptr
    exact ⟨f, rfl, hf.trans_le hthrifty.length_le⟩
  · rw [List.mem_singleton] at hlast
    subst hlast
    obtain ⟨f, rfl, hlive⟩ := hnew ptr hptr
    have hf : f ∈ a'.live := by
      rw [hlive]
      exact List.mem_cons_self
    exact ⟨f, rfl, hs'.block_lt hshape (a'.live_lt hf)⟩

/-- The address of an element, where no product wraps. -/
theorem elementAt_eq (hshape : PoolShape w p.elementSize p.blockSize) (b : ℕ) {k : UInt32}
    (hk : k < p.blockSize) :
    elementAt p b k = place p.elementSize.toNat p.blockSize.toNat
      (b * p.blockSize.toNat + k.toNat) := by
  have hlt : k.toNat < p.blockSize.toNat := UInt32.lt_iff_toNat_lt.mp hk
  rw [place_eq hlt, elementAt, hshape.mul_toNat hlt.le, Addr.add, Nat.zero_add]

/-- A place is aligned if the first element of a block is the only one, or the size of an
element is a multiple of the alignment. -/
theorem place_aligned {es bs : ℕ} (hbase : ∀ b, align ∣ base b) (halign : bs = 1 ∨ align ∣ es)
    (e : ℕ) : align ∣ machineAddress base (place es bs e) := by
  refine dvd_add (hbase (e / bs)) ?_
  rcases halign with rfl | hes
  · show align ∣ e % 1 * es
    rw [Nat.mod_one, Nat.zero_mul]
    exact dvd_zero align
  · exact Dvd.dvd.mul_left hes (e % bs)

/-- Elements fit where the size of a block does not wrap and they are aligned. -/
theorem elementsFit_of_fits (hshape : PoolShape w p.elementSize p.blockSize)
    (hs₀ : Represents w p.elementSize p.blockSize ⟨p, Heap.empty, []⟩ Arena.start)
    (hbase : ∀ b, align ∣ base b)
    (halign : p.blockSize.toNat = 1 ∨ align ∣ p.elementSize.toNat) :
    ElementsFit w align base p := by
  constructor
  · intro h s hrun e he ptr hptr
    obtain ⟨⟨a, hs⟩, hout⟩ := handedOut_run hshape hs₀ hrun
    obtain ⟨f, rfl, hf⟩ := hout e he ptr hptr
    have hmod := Nat.mod_lt f hshape.elements
    have hnat : (UInt32.ofNat (f % p.blockSize.toNat)).toNat = f % p.blockSize.toNat :=
      UInt32.toNat_ofNat_of_lt' (hmod.trans p.blockSize.toNat_lt)
    have hk : UInt32.ofNat (f % p.blockSize.toNat) < p.blockSize := by
      rw [UInt32.lt_iff_toNat_lt, hnat]
      exact hmod
    refine ⟨⟨f / p.blockSize.toNat, _, hk, ?_⟩, ⟨f / p.blockSize.toNat, ?_⟩,
      place_aligned hbase halign f⟩
    · rw [elementAt_eq hshape _ hk, hnat, Nat.div_add_mod']
    · rw [hs.ready.elementSize]
      have hoff : 0 + p.elementSize.toNat ≤ p.elementSize.toNat := (Nat.zero_add _).le
      exact hs.ready.blockAt hshape hf hoff
  · intro b j hj k hk hne
    rw [elementAt_eq hshape b hj, elementAt_eq hshape b hk]
    refine place_apart le_rfl le_rfl ?_
    intro heq
    exact hne (UInt32.toNat_inj.mp (Nat.add_left_cancel heq))

/-- What `pool_init` leaves, where an element has `es` bytes. -/
theorem elementsFit_fits (hes : 0 < es.toNat) (hfit : ElementsFit w align base (freshPool es bs)) :
    es.toNat * bs.toNat < 2 ^ 32 := by
  by_contra hbig
  obtain ⟨h, s, hrun, e, he, ptr, hptr, -, hout⟩ := overflow_escapes (w := w) hes (not_lt.mp hbig)
  exact hout (hfit.handedOut h s (hrun.weaken fun _ _ => backedCall_of_poolGuard) e he ptr hptr).2.1

/-- The second element of a block is aligned only if elements have whole multiples of the
alignment. -/
theorem elementsFit_aligned (hbase : ∀ b, align ∣ base b) (hbs : 1 < bs.toNat)
    (hfit : ElementsFit w align base (freshPool es bs)) : align ∣ es.toNat := by
  obtain ⟨h, s, hrun, -, -, -, e, he, hptr⟩ := firstBlock_run w es (by omega) 1 hbs
  have haligned :=
    (hfit.handedOut h s (hrun.weaken fun _ _ => backedCall_of_poolGuard) e he _ hptr).2.2
  have hoff : (computed es 1).off = 1 * es.toNat :=
    computed_off es (by norm_num) (by rw [Nat.one_mul]; exact es.toNat_lt)
  rw [Nat.one_mul] at hoff
  have hsum : align ∣ base 0 + (computed es 1).off := haligned
  rw [hoff] at hsum
  exact (Nat.dvd_add_right (hbase 0)).mp hsum

end Ctools.Analysis

open Ctools.Library Ctools.Program Ctools.Analysis Heap in
/-- **When elements fit their blocks.**  Where blocks start at multiples of the alignment of
a `struct pool_freed`, all elements that any run hands out lie in their blocks, apart and
aligned, if and only if the size of a block fits in 32 bits, and the size of an element is a
multiple of the alignment or a block has one element.
SOURCE: pool.c:13-80 -/
theorem Ctools.Analysis.elements_fit_iff {w align : ℕ} {elementSize blockSize : UInt32} (hw : 0 < w)
    (hw32 : w < 2 ^ 32) (hblockSize : 0 < blockSize.toNat) {base : ℕ → ℕ}
    (hbase : ∀ b, align ∣ base b) {p : Pool}
    (hinit : poolInit w elementSize blockSize true = some (0, p)) :
    ElementsFit w align base p ↔ max elementSize.toNat w * blockSize.toNat < 2 ^ 32 ∧
      (blockSize.toNat = 1 ∨ align ∣ max elementSize.toNat w) := by
  obtain ⟨hmax, rfl⟩ := eq_freshPool_of_init hw32 hinit
  constructor
  · intro hfit
    have hfits := elementsFit_fits (by rw [hmax]; omega) hfit
    rw [hmax] at hfits
    refine ⟨hfits, ?_⟩
    by_cases hone : blockSize.toNat = 1
    · exact .inl hone
    · have haligned := elementsFit_aligned hbase (by omega) hfit
      rw [hmax] at haligned
      exact .inr haligned
  · rintro ⟨hfits, halign⟩
    obtain ⟨p', hinit', -, hshape, hstart⟩ := init_represents hw hblockSize hfits
    cases hinit.symm.trans hinit'
    refine elementsFit_of_fits hshape hstart hbase ?_
    rw [← hmax] at halign
    exact halign

open Ctools.Program Ctools.Analysis in
/-- Elements of two pointers, in blocks at multiples of a page. -/
theorem Ctools.Analysis.elements_fit_two_pointers :
    ∃ p, poolInit 8 16 4 true = some (0, p) ∧ ElementsFit 8 8 (fun b => 4096 * b) p :=
  ⟨_, rfl, (elements_fit_iff (by decide) (by decide) (by decide)
    (fun b => Dvd.dvd.mul_right (by decide) b) rfl).mpr ⟨by decide, .inr (by decide)⟩⟩

open Ctools.Library Ctools.Program Ctools.Analysis in
/-- The second element of nine bytes is not aligned for a pointer of eight; and of three
elements of 2^31 bytes the first and the third are the same. -/
theorem Ctools.Analysis.elements_misfit :
    (∃ p h s, poolInit 8 9 2 true = some (0, p) ∧
      (poolMachine 8).Run backedCall ⟨p, Heap.empty, []⟩ h s ∧
      (.malloc true true, some ⟨some 0, 9⟩) ∈ h ∧
      ¬ 8 ∣ machineAddress (fun b => 4096 * b) ⟨some 0, 9⟩) ∧
    ∃ p, poolInit 8 2147483648 3 true = some (0, p) ∧ elementAt p 0 0 = elementAt p 0 2 := by
  have hrun := Machine.run_of_execUnder (m := poolMachine 8) backedCall
    ⟨⟨9, 2, 1, -1, .null, 1, [some .null]⟩, Heap.empty, []⟩
    [.malloc true true, .malloc true true] rfl
  have hinit : poolInit 8 9 2 true = some (0, ⟨9, 2, 1, -1, .null, 1, [some .null]⟩) := by decide
  refine ⟨⟨_, _, _, hinit, hrun, ?_, by decide⟩, _, rfl, by decide⟩
  exact List.mem_cons_of_mem _ List.mem_cons_self
