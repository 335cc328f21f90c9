import Ctools.Analysis.PoolCursor
import Ctools.Library.Arena

/-!
# The pool never hands out the same memory twice

The pool's cursor is on the place before the next one of an `Arena`; the list
through the freed elements is its list of free places, and the elements its users
hold are its live places.  `Represents` is this relation, and every call of the
pool is a call of the arena (`malloc_represents`, `free_represents`,
`freeAll_represents`, `use_represents`).  What no arena can do, the pool does not
do: an element that is held twice, or held and freed.
-/

set_option autoImplicit false

namespace Ctools.Analysis

open Ctools.Library Ctools.Program Heap

/-- The pool is at the arena: its cursor is on the place before the next one, its
freed elements are linked in the order of the free places, and its users hold the
live places. -/
structure Represents (w : ℕ) (es bs : UInt32) (s : PoolWorld) (a : Arena) : Prop where
  ready : Ready es bs s.pool s.heap
  cursor : s.pool.block * bs.toNat + s.pool.used.toNat + 1 = a.next
  linked : Linked w s.heap s.pool.freed (a.free.map (place es.toNat bs.toNat))
  live : s.live = a.live.map (place es.toNat bs.toNat)

variable {w : ℕ} {es bs : UInt32} {s : PoolWorld} {a : Arena}

/-- A write to the heap and a new head of the freed elements keep the cursor ready. -/
theorem Ready.refreed {p : Pool} {heap heap' : Heap} (hp : Ready es bs p heap)
    (hsizes : heap'.sizes = heap.sizes) (freed : Addr) :
    Ready es bs { p with freed := freed } heap' where
  elementSize := hp.elementSize
  blockSize := hp.blockSize
  used_lt := hp.used_lt
  block_ge := hp.block_ge
  start := hp.start
  block_lt := by
    rw [hsizes]
    exact hp.block_lt
  sizes := by
    rw [hsizes]
    exact hp.sizes
  directory := by
    rw [hsizes]
    exact ⟨hp.directory.pow, hp.directory.le, hp.directory.blocks⟩

/-- What `pool_free_all` leaves is ready, whatever `used` and `block` were.
SOURCE: pool.c:82-87 -/
theorem ready_freeAll {p : Pool} (heap : Heap) (hshape : PoolShape w es bs)
    (helement : p.elementSize = es) (hblock : p.blockSize = bs)
    (hsizes : heap.sizes = List.replicate heap.sizes.length (es.toNat * bs.toNat))
    (hdir : HasDirectory heap.sizes.length p) :
    Ready es bs (poolFreeAll p) heap ∧ (poolFreeAll p).used.toNat + 1 = bs.toNat := by
  obtain ⟨hcursor, hused⟩ := cursor_freeAll hshape.elements hblock hdir
  exact ⟨⟨helement, hblock, hcursor.used_lt, hcursor.block_ge, hcursor.start, hcursor.block_lt,
    hsizes, hcursor.directory⟩, hused⟩

/-- A new place is handed out only when none is free, and a block is added only for a
place more when all places of all blocks are live. -/
def Thrifty (bs : UInt32) (s s' : PoolWorld) (a a' : Arena) : Prop :=
  (a'.next = a.next ∨ a'.free = []) ∧
    (s'.heap.sizes = s.heap.sizes ∨
      a.free = [] ∧ a.next = s.heap.sizes.length * bs.toNat ∧ a'.next = a.next + 1 ∧
        s'.heap.sizes.length = s.heap.sizes.length + 1)

/-- `pool_free_all` empties the arena.
SOURCE: pool.c:82-87 -/
theorem freeAll_represents (hshape : PoolShape w es bs) (hs : Represents w es bs s a) :
    ∃ s', poolStep w s .freeAll = some (none, s') ∧ Represents w es bs s' Arena.start ∧
      Thrifty bs s s' a Arena.start := by
  obtain ⟨hready, hused⟩ := ready_freeAll s.heap hshape hs.ready.elementSize
    hs.ready.blockSize hs.ready.sizes hs.ready.directory
  refine ⟨_, rfl, ⟨hready, ?_, .nil, rfl⟩, .inr rfl, .inl rfl⟩
  show (-1 : ℤ) * bs.toNat + (poolFreeAll s.pool).used.toNat + 1 = (0 : ℕ)
  omega

/-- The blocks hold all places that were handed out. -/
theorem Represents.next_le (hs : Represents w es bs s a) :
    a.next ≤ s.heap.sizes.length * bs.toNat := by
  have hblock := hs.ready.block_lt
  have hused := hs.ready.used_lt
  have hcursor := hs.cursor
  have hle : (s.pool.block + 1) * bs.toNat ≤ s.heap.sizes.length * bs.toNat :=
    mul_le_mul_of_nonneg_right (by omega) (by omega)
  rw [add_mul, one_mul] at hle
  zify
  omega

/-- A place that was handed out is in a block that was allocated. -/
theorem Represents.block_lt (hshape : PoolShape w es bs) (hs : Represents w es bs s a) {e : ℕ}
    (he : e < a.next) : e / bs.toNat < s.heap.sizes.length := by
  rw [Nat.div_lt_iff_lt_mul hshape.elements]
  exact he.trans_le hs.next_le

/-- The bytes of a place lie in its block. -/
theorem Ready.blockAt {p : Pool} {heap : Heap} (hshape : PoolShape w es bs)
    (hp : Ready es bs p heap) {e : ℕ} (he : e / bs.toNat < heap.sizes.length) {off n : ℕ}
    (hoff : off + n ≤ es.toNat) :
    heap.blockAt ((place es.toNat bs.toNat e).add off) n = some (e / bs.toNat) := by
  refine blockAt_eq_some.mpr ⟨rfl, es.toNat * bs.toNat, ?_, ?_⟩
  · rw [hp.sizes, List.getElem?_replicate, if_pos he]
  · have hmod := Nat.mod_lt e hshape.elements
    have hle := Nat.mul_le_mul_right es.toNat (Nat.succ_le_of_lt hmod)
    rw [Nat.succ_mul, Nat.mul_comm bs.toNat] at hle
    show e % bs.toNat * es.toNat + off + n ≤ es.toNat * bs.toNat
    omega

/-- So are all bytes of its element. -/
theorem Represents.blockAt (hshape : PoolShape w es bs) (hs : Represents w es bs s a) {e : ℕ}
    (he : e < a.next) {off n : ℕ} (hoff : off + n ≤ es.toNat) :
    s.heap.blockAt ((place es.toNat bs.toNat e).add off) n = some (e / bs.toNat) :=
  hs.ready.blockAt hshape (hs.block_lt hshape he) hoff

/-- `pool_malloc` hands out a place of the arena that is not live.
SOURCE: pool.c:47-72 -/
theorem malloc_represents (hshape : PoolShape w es bs) (hs : Represents w es bs s a)
    (hnext : s.pool.freed = .null → s.pool.used + 1 = s.pool.blockSize →
        s.pool.block + 1 < 2 ^ 31) :
    ∃ e a' s', poolStep w s (.malloc true true) = some (some (place es.toNat bs.toNat e), s') ∧
      Represents w es bs s' a' ∧ a'.live = e :: a.live ∧ Thrifty bs s s' a a' := by
  by_cases hfreed : s.pool.freed = .null
  · -- no freed element: the cursor moves
    have hnone : a.free = [] := by
      have hlinked := hs.linked
      rw [hfreed] at hlinked
      exact List.map_eq_nil_iff.mp hlinked.eq_nil
    obtain ⟨p, heap, hadvance, hready, hin, hcursor, hfreed', hkept, hgrown⟩ :=
      poolAdvance_spec hshape hs.ready (hnext hfreed)
    have hplace : p.block * bs.toNat + p.used.toNat = a.next := by rw [hcursor, hs.cursor]
    obtain ⟨entry, hentry, haddr⟩ := hready.address hshape hin hplace
    have hmalloc : poolMalloc w s.pool s.heap true true =
        some (place es.toNat bs.toNat a.next, p, heap) := by
      rw [poolMalloc, if_neg (by simp [hfreed]), hadvance]
      simp only [Option.bind_eq_bind, Option.bind_some, hentry, haddr, Option.pure_def]
    refine ⟨a.next, a.bump hnone, ⟨p, heap, place es.toNat bs.toNat a.next :: s.live⟩, ?_, ?_, rfl,
      .inr rfl, hgrown.imp_right fun ⟨hfull, hlen⟩ => ⟨hnone, ?_, rfl, hlen⟩⟩
    · simp [poolStep, hmalloc, place_ne_null]
    · refine ⟨hready, ?_, ?_, ?_⟩
      · show p.block * bs.toNat + p.used.toNat + 1 = (a.next + 1 : ℕ)
        omega
      · show Linked w heap p.freed []
        rw [hfreed', hfreed]
        exact .nil
      · show place es.toNat bs.toNat a.next :: s.live = _
        rw [hs.live]
        rfl
    · rw [hs.cursor] at hfull
      exact_mod_cast hfull
  · -- the element that was freed last
    obtain ⟨next, rest, hlist, hload, hrest⟩ := hs.linked.of_ne_null hfreed
    obtain ⟨e, free, hfree, he, rfl⟩ := List.map_eq_cons_iff.mp hlist
    have hmalloc : poolMalloc w s.pool s.heap true true =
        some (place es.toNat bs.toNat e, { s.pool with freed := next }, s.heap) := by
      rw [poolMalloc, if_pos hfreed, hload, he]
      rfl
    refine ⟨e, a.reuse e free hfree,
      ⟨{ s.pool with freed := next }, s.heap, place es.toNat bs.toNat e :: s.live⟩, ?_, ?_, rfl,
      .inl rfl, .inl rfl⟩
    · simp [poolStep, hmalloc, place_ne_null]
    · refine ⟨hs.ready.refreed rfl next, hs.cursor, hrest, ?_⟩
      · show place es.toNat bs.toNat e :: s.live = _
        rw [hs.live]
        rfl

/-- `pool_free` of a live element gives its place back.
SOURCE: pool.c:74-80 -/
theorem free_represents (hshape : PoolShape w es bs) (hs : Represents w es bs s a) {e : ℕ}
    (he : e ∈ a.live) :
    ∃ s', poolStep w s (.free (place es.toNat bs.toNat e)) = some (none, s') ∧
      Represents w es bs s' (a.give e he) ∧ Thrifty bs s s' a (a.give e he) := by
  have hwidth := hshape.width
  have hpointer := hshape.pointer
  have hblock := hs.blockAt hshape (a.live_lt he) (show 0 + w ≤ es.toNat by omega)
  obtain ⟨heap, hstore⟩ := exists_storePtr hblock s.pool.freed
  have hstore : s.heap.storePtr w (place es.toNat bs.toNat e) s.pool.freed = some heap := hstore
  refine ⟨⟨{ s.pool with freed := place es.toNat bs.toNat e }, heap,
    s.live.erase (place es.toNat bs.toNat e)⟩, by simp [poolStep, poolFree, hstore],
    ⟨hs.ready.refreed (sizes_of_storePtr hstore) _, hs.cursor, ?_, ?_⟩,
    .inl rfl, .inl (sizes_of_storePtr hstore)⟩
  · refine Linked.store hpointer hs.linked hstore ?_
    intro b hb
    obtain ⟨f, hf, rfl⟩ := List.mem_map.mp hb
    exact place_apart hwidth hwidth (a.live_free_disjoint he hf).symm
  · show s.live.erase _ = (a.live.erase e).map _
    rw [hs.live, List.map_erase (place_injective (by omega))]

/-- The user of a live element may write to it.
SOURCE: pool.c:47-80 -/
theorem use_represents (hshape : PoolShape w es bs) (hs : Represents w es bs s a) {e off : ℕ}
    (he : e ∈ a.live) (hoff : off < es.toNat) (c : Cell) :
    ∃ s', poolStep w s (.use (place es.toNat bs.toNat e) off c) = some (none, s') ∧
      Represents w es bs s' a ∧ Thrifty bs s s' a a := by
  have hblock := hs.blockAt hshape (a.live_lt he) (show off + 1 ≤ es.toNat by omega)
  obtain ⟨heap, hwrite⟩ := exists_write hblock c
  refine ⟨{ s with heap := heap }, by simp [poolStep, hwrite],
    ⟨hs.ready.refreed (sizes_of_write hwrite) s.pool.freed, hs.cursor, ?_, hs.live⟩,
    .inl rfl, .inl (sizes_of_write hwrite)⟩
  refine hs.linked.frame fun b hb q hload => ?_
  obtain ⟨f, hf, rfl⟩ := List.mem_map.mp hb
  have happart : (place es.toNat bs.toNat f).Apart w (place es.toNat bs.toNat e) es.toNat :=
    place_apart hshape.width le_rfl (a.live_free_disjoint he hf).symm
  exact loadPtr_write hshape.pointer (happart.part (by omega)) hwrite hload

/-- The calls the pool is made for: `malloc` and `realloc` succeed and there are
fewer than `2 ^ 31` blocks, and only live elements are freed and written to, each
within its bytes. -/
def poolGuard (s : PoolWorld) : PoolAct → Prop
  | .malloc reallocated backed =>
      reallocated = true ∧ backed = true ∧ s.heap.sizes.length < 2 ^ 31
  | .free ptr => ptr ∈ s.live
  | .freeAll => True
  | .use ptr off _ => ptr ∈ s.live ∧ off < s.pool.elementSize.toNat

instance (s : PoolWorld) : ∀ act, Decidable (poolGuard s act)
  | .malloc _ _ => inferInstanceAs (Decidable (_ = true ∧ _ = true ∧ _ < _))
  | .free ptr => inferInstanceAs (Decidable (ptr ∈ s.live))
  | .freeAll => inferInstanceAs (Decidable True)
  | .use ptr _ _ => inferInstanceAs (Decidable (ptr ∈ s.live ∧ _ < _))

/-- Every call the pool is made for succeeds, and is a call of the arena.
SOURCE: pool.c:47-87 -/
theorem step_represents (hshape : PoolShape w es bs) (hs : Represents w es bs s a) {act : PoolAct}
    (hguard : poolGuard s act) :
    ∃ o s' a', poolStep w s act = some (o, s') ∧ Represents w es bs s' a' ∧
      Thrifty bs s s' a a' ∧ ∀ ptr, o = some ptr →
        ∃ e, ptr = place es.toNat bs.toNat e ∧ a'.live = e :: a.live := by
  cases act with
  | malloc reallocated backed =>
    obtain ⟨rfl, rfl, hn⟩ := hguard
    have hblock := hs.ready.block_lt
    obtain ⟨e, a', s', hstep, hs', hlive, hthrifty⟩ :=
      malloc_represents hshape hs fun _ _ => by omega
    refine ⟨_, s', a', hstep, hs', hthrifty, ?_⟩
    rintro ptr ⟨rfl⟩
    exact ⟨e, rfl, hlive⟩
  | free ptr =>
    have hptr : ptr ∈ s.live := hguard
    rw [hs.live] at hptr
    obtain ⟨e, he, rfl⟩ := List.mem_map.mp hptr
    obtain ⟨s', hstep, hs', hthrifty⟩ := free_represents hshape hs he
    exact ⟨_, s', _, hstep, hs', hthrifty, nofun⟩
  | freeAll =>
    obtain ⟨s', hstep, hs', hthrifty⟩ := freeAll_represents hshape hs
    exact ⟨_, s', _, hstep, hs', hthrifty, nofun⟩
  | use ptr off c =>
    obtain ⟨hptr, hoff⟩ := hguard
    rw [hs.live] at hptr
    rw [hs.ready.elementSize] at hoff
    obtain ⟨e, he, rfl⟩ := List.mem_map.mp hptr
    obtain ⟨s', hstep, hs', hthrifty⟩ := use_represents hshape hs he hoff c
    exact ⟨_, s', a, hstep, hs', hthrifty, nofun⟩

/-- What `pool_init` leaves represents the arena that has handed out nothing.
SOURCE: pool.c:13-32 -/
theorem init_represents {elementSize : UInt32} (hw : 0 < w) (hbs : 0 < bs.toNat)
    (hfits : max elementSize.toNat w * bs.toNat < 2 ^ 32) :
    ∃ p, poolInit w elementSize bs true = some (0, p) ∧
      p.elementSize.toNat = max elementSize.toNat w ∧ PoolShape w p.elementSize bs ∧
      Represents w p.elementSize bs ⟨p, Heap.empty, []⟩ Arena.start := by
  have hmax : (UInt32.ofNat (max elementSize.toNat w)).toNat = max elementSize.toNat w := by
    have hle := Nat.le_mul_of_pos_right (max elementSize.toNat w) hbs
    exact UInt32.toNat_ofNat_of_lt' (show max elementSize.toNat w < 2 ^ 32 by omega)
  have hshape : PoolShape w (UInt32.ofNat (max elementSize.toNat w)) bs :=
    ⟨hw, by rw [hmax]; exact le_max_right _ _, hbs, by rw [hmax]; exact hfits⟩
  have hdir : HasDirectory 0
      { elementSize := UInt32.ofNat (max elementSize.toNat w), blockSize := bs, used := 0,
        block := 0,
        freed := .null, blocksUsed := POOL_BLOCKS_INITIAL, blocks := [some .null] } :=
    ⟨⟨0, by omega, rfl⟩, by omega, rfl⟩
  obtain ⟨hready, hused⟩ := ready_freeAll Heap.empty hshape rfl rfl rfl hdir
  refine ⟨_, rfl, hmax, hshape, hready, ?_, .nil, rfl⟩
  show (-1 : ℤ) * bs.toNat + (bs - 1).toNat + 1 = (0 : ℕ)
  have hused' : (bs - 1).toNat + 1 = bs.toNat := hused
  omega

/-- In every state reached the pool is at some arena. -/
theorem represents_run {s₀ : PoolWorld} {a₀ : Arena} (hshape : PoolShape w es bs)
    (hs₀ : Represents w es bs s₀ a₀) {h : List (PoolAct × Option Addr)} {s : PoolWorld}
    (hrun : (poolMachine w).Run poolGuard s₀ h s) : ∃ a, Represents w es bs s a := by
  refine hrun.invariant (fun _ s => ∃ a, Represents w es bs s a) ⟨a₀, hs₀⟩ ?_
  rintro h s act o s' ⟨a, hs⟩ hguard hstep
  obtain ⟨o', t, a', hstep', ht, -, -⟩ := step_represents hshape hs hguard
  have heq : some (o, s') = some (o', t) := hstep.symm.trans hstep'
  cases heq
  exact ⟨a', ht⟩

/-- Live elements have no bytes in common. -/
theorem Represents.live_apart (hs : Represents w es bs s a) :
    s.live.Pairwise fun p q => p.Apart es.toNat q es.toNat := by
  rw [hs.live, List.pairwise_map]
  exact a.live_nodup.imp fun hne => place_apart le_rfl le_rfl hne

/-- The free list is finite and ends in `NULL`, has no element twice, and shares no
bytes with a live element. -/
theorem Represents.free_list (hshape : PoolShape w es bs) (hs : Represents w es bs s a) :
    ∃ free, Linked w s.heap s.pool.freed free ∧ free.Nodup ∧
      ∀ p ∈ free, ∀ q ∈ s.live, p.Apart es.toNat q es.toNat := by
  have hwidth := hshape.width
  have hpointer := hshape.pointer
  refine ⟨_, hs.linked, a.free_nodup.map (place_injective (by omega)), ?_⟩
  intro p hp q hq
  rw [hs.live] at hq
  obtain ⟨e, he, rfl⟩ := List.mem_map.mp hp
  obtain ⟨f, hf, rfl⟩ := List.mem_map.mp hq
  exact place_apart le_rfl le_rfl (a.live_free_disjoint hf he).symm

/-- What a call hands out is an element of a block that is there, apart from all
elements that were live before. -/
theorem Represents.handed_out (hshape : PoolShape w es bs) (hs : Represents w es bs s a)
    {act : PoolAct} {ptr : Addr} {s' : PoolWorld} (hguard : poolGuard s act)
    (hstep : poolStep w s act = some (some ptr, s')) :
    (∃ b k, b < s'.heap.sizes.length ∧ k < bs.toNat ∧ ptr = ⟨some b, k * es.toNat⟩) ∧
      ∀ q ∈ s.live, ptr.Apart es.toNat q es.toNat := by
  obtain ⟨o, t, a', hstep', ht, -, hout⟩ := step_represents hshape hs hguard
  have heq : some (some ptr, s') = some (o, t) := hstep.symm.trans hstep'
  cases heq
  obtain ⟨e, rfl, hlive⟩ := hout ptr rfl
  have he : e ∈ a'.live := by rw [hlive]; exact List.mem_cons_self
  refine ⟨⟨_, _, ht.block_lt hshape (a'.live_lt he), Nat.mod_lt e hshape.elements, rfl⟩, ?_⟩
  intro q hq
  rw [hs.live] at hq
  obtain ⟨f, hf, rfl⟩ := List.mem_map.mp hq
  have hnodup := a'.live_nodup
  rw [hlive, List.nodup_cons] at hnodup
  exact place_apart le_rfl le_rfl fun heq => hnodup.1 (heq ▸ hf)

end Ctools.Analysis

open Ctools.Library Ctools.Program Ctools.Analysis Heap in
/-- **The pool never hands out the same memory twice.**  In every state that calls
under `poolGuard` reach from `pool_init`, the next such call succeeds; what
`pool_malloc` returns is the start of an element of a block, and it and the live
elements have no bytes in common; the live elements have no bytes in common; and
the list through the freed elements is finite, has none twice, and shares no bytes
with a live element.
SOURCE: pool.c:13-87 -/
theorem Ctools.Analysis.pool_elements_apart {w : ℕ} {elementSize blockSize : UInt32} (hw : 0 < w)
    (hblockSize : 0 < blockSize.toNat) (hfits : max elementSize.toNat w * blockSize.toNat < 2 ^ 32)
    {p : Pool} (hinit : poolInit w elementSize blockSize true = some (0, p))
    {h : List (PoolAct × Option Addr)} {s : PoolWorld}
    (hrun : (poolMachine w).Run poolGuard ⟨p, Heap.empty, []⟩ h s) :
    (∀ act, poolGuard s act → ∃ o s', poolStep w s act = some (o, s') ∧
      ∀ ptr, o = some ptr →
        (∃ b k, b < s'.heap.sizes.length ∧ k < blockSize.toNat ∧
          ptr = ⟨some b, k * p.elementSize.toNat⟩) ∧
        ∀ q ∈ s.live, ptr.Apart p.elementSize.toNat q p.elementSize.toNat) ∧
      s.live.Pairwise (fun q r => q.Apart p.elementSize.toNat r p.elementSize.toNat) ∧
      ∃ free, Linked w s.heap s.pool.freed free ∧ free.Nodup ∧
        ∀ q ∈ free, ∀ r ∈ s.live, q.Apart p.elementSize.toNat r p.elementSize.toNat := by
  obtain ⟨p', hinit', -, hshape, hstart⟩ := init_represents hw hblockSize hfits
  cases hinit.symm.trans hinit'
  obtain ⟨a, hs⟩ := represents_run hshape hstart hrun
  refine ⟨fun act hguard => ?_, hs.live_apart, hs.free_list hshape⟩
  obtain ⟨o, s', -, hstep, -, -, -⟩ := step_represents hshape hs hguard
  refine ⟨o, s', hstep, fun ptr ho => ?_⟩
  subst ho
  exact hs.handed_out hshape hguard hstep

open Ctools.Library Ctools.Program Ctools.Analysis Heap in
/-- The theorem at a pool of two elements a block: the third element needs a second
block and a larger directory, and the fourth one is the first one again. -/
theorem Ctools.Analysis.pool_elements_apart_reuse :
    ∃ p h s, poolInit 8 4 2 true = some (0, p) ∧
      (poolMachine 8).Run poolGuard ⟨p, Heap.empty, []⟩ h s ∧
      s.live = [⟨some 0, 0⟩, ⟨some 1, 0⟩, ⟨some 0, 8⟩] ∧
      s.live.Pairwise (fun q r => q.Apart p.elementSize.toNat r p.elementSize.toNat) := by
  have hrun := Machine.run_of_execUnder (m := poolMachine 8) poolGuard
    ⟨⟨8, 2, 1, -1, .null, 1, [some .null]⟩, Heap.empty, []⟩
    [.malloc true true, .malloc true true, .use ⟨some 0, 0⟩ 7 (.byte 255), .malloc true true,
      .free ⟨some 0, 0⟩, .malloc true true] rfl
  have hinit : poolInit 8 4 2 true = some (0, ⟨8, 2, 1, -1, .null, 1, [some .null]⟩) := by decide
  have hapart := pool_elements_apart (by decide) (by decide) (by decide) hinit hrun
  exact ⟨_, _, _, hinit, hrun, by decide, hapart.2.1⟩
