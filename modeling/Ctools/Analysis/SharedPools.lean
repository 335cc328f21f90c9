import Ctools.Analysis.PoolOutOfMemory
import Ctools.Interface.PooledSpec
import Ctools.Library.FreeList

/-!
# What a pool without a lock gives, call by call

A pool whose calls do not meet is at some number of handed out elements, of which some
are freed and threaded, and the others are live (`PoolAt`).  A `pool_malloc` gives an
element that is not live, or `NULL` where `malloc` refuses it a block (`PoolHolds.malloc`), a
`pool_free` takes one back (`PoolHolds.free`), and what the users write to live elements the
pool does not see (`PoolHolds.write`).  An element is named by its number (`numbered_place`).
-/

set_option autoImplicit false

namespace Ctools.Analysis

open Ctools.Library Ctools.Program Ctools.Interface

/-- The pool has handed out its first `n` elements; those in `free` are freed, and those in
`live` are in use. -/
structure PoolAt (es bs : UInt32) (m : SharedPool) (n : ℕ) (free live : List Addr) : Prop where
  ready : Ready es bs m.pool m.heap
  cursor : m.pool.block * bs.toNat + m.pool.used.toNat + 1 = n
  threaded : Threaded m.next .null m.pool.freed free
  distinct : (free ++ live).Nodup
  placed : ∀ a ∈ free ++ live, ∃ e < n, a = place es.toNat bs.toNat e

/-- The pool with its cursor elsewhere. -/
def cursorMoved (m : SharedPool) (used : UInt32) (block : ℤ) : SharedPool :=
  { m with pool := { m.pool with used := used, block := block } }

/-- The elements in `live` are in use, and the cursor is on the last element handed out, or on
a block that could not be allocated. -/
def PoolHolds (es bs : UInt32) (m : SharedPool) (live : List Addr) : Prop :=
  ∃ n free used block, PoolAt es bs (cursorMoved m used block) n free live ∧
    (used = m.pool.used ∧ block = m.pool.block ∨ m.pool.entry = some .null)

variable {w : ℕ} {es bs : UInt32} {m m' : SharedPool} {live : List Addr}

/-- What `pool_init` leaves has no element in use. -/
theorem poolHolds_start {elementSize : UInt32} {p : Pool} (hw : 0 < w) (hbs : 0 < bs.toNat)
    (hfits : max elementSize.toNat w * bs.toNat < 2 ^ 32)
    (hinit : poolInit w elementSize bs true = some (0, p)) (next : Addr → Option Addr) :
    PoolHolds p.elementSize bs ⟨p, Heap.empty, next⟩ [] := by
  obtain ⟨p', hinit', -, -, hrep⟩ := init_represents hw hbs hfits
  cases hinit.symm.trans hinit'
  have hnone {a : Addr} (hlinked : Heap.Linked w Heap.empty a []) : a = .null := by
    cases hlinked
    rfl
  exact ⟨0, [], p.used, p.block,
    ⟨hrep.ready, hrep.cursor, hnone hrep.linked, List.nodup_nil, by simp⟩,
    .inl ⟨rfl, rfl⟩⟩

/-- Elements in use are places of the pool. -/
theorem PoolHolds.placed (h : PoolHolds es bs m live) {a : Addr} (ha : a ∈ live) :
    ∃ e, a = place es.toNat bs.toNat e := by
  obtain ⟨n, free, used, block, h, -⟩ := h
  obtain ⟨e, -, he⟩ := h.placed a (List.mem_append_right _ ha)
  exact ⟨e, he⟩

/-- `pool_malloc` gives the next element, where its cursor goes on to a block that is there.
SOURCE: pool.c:55-71 -/
theorem PoolAt.advance (hshape : PoolShape w es bs) {n : ℕ} (h : PoolAt es bs m n [] live)
    {reallocated backed : Bool} (hnull : m.pool.freed = .null)
    (hasked : poolAdvance m.pool m.heap reallocated backed = poolAdvance m.pool m.heap true true)
    (hnext : m.pool.used + 1 = m.pool.blockSize → m.pool.block + 1 < 2 ^ 31) :
    ∃ x m', m.malloc .null reallocated backed = some (x, m') ∧ x ∉ live ∧ m'.next = m.next ∧
      PoolAt es bs m' (n + 1) [] (x :: live) := by
  obtain ⟨p', heap', hmoved, hready, hin, hplace, hfreed, -, -⟩ :=
    poolAdvance_spec hshape h.ready hnext
  have hplaceNext : p'.block * bs.toNat + p'.used.toNat = n := hplace.trans h.cursor
  obtain ⟨entry, hentry, haddr⟩ := hready.address hshape hin hplaceNext
  have hes : 0 < es.toNat := hshape.pointer.trans_le hshape.width
  have hnew : place es.toNat bs.toNat n ∉ live := by
    intro hmem
    obtain ⟨e, he, heq⟩ := h.placed _ hmem
    exact absurd (place_injective hes heq) (by omega)
  refine ⟨place es.toNat bs.toNat n, ⟨p', heap', m.next⟩, ?_, hnew, rfl, hready, ?_, ?_,
    List.nodup_cons.mpr ⟨hnew, h.distinct⟩, fun a ha => ?_⟩
  · rw [SharedPool.malloc, if_neg (not_not.mpr rfl), hasked, hmoved]
    simp only [Option.bind_eq_bind, Option.bind_some, hentry, haddr, Option.pure_def]
  · simp only
    omega
  · exact hfreed.trans hnull
  · rcases List.mem_cons.mp ha with rfl | ha
    · exact ⟨n, by omega, rfl⟩
    · obtain ⟨e, he, heq⟩ := h.placed a ha
      exact ⟨e, by omega, heq⟩

/-- It gives the element freed last, wherever its cursor is.
SOURCE: pool.c:49-53 -/
theorem PoolHolds.recycle (h : PoolHolds es bs m live) (hfreed : m.pool.freed ≠ .null)
    (reallocated backed : Bool) :
    ∃ m', m.malloc m.pool.freed reallocated backed = some (m.pool.freed, m') ∧
      m.pool.freed ∉ live ∧ m'.next = m.next ∧ PoolHolds es bs m' (m.pool.freed :: live) := by
  obtain ⟨n, free, used, block, hat, hcursor⟩ := h
  obtain ⟨b, rest, rfl, hb, hrest⟩ := hat.threaded.pop hfreed
  have hperm : (m.pool.freed :: rest ++ live).Perm (rest ++ m.pool.freed :: live) :=
    List.perm_middle.symm
  have hdistinct := hperm.nodup_iff.mp hat.distinct
  refine ⟨{ m with pool := { m.pool with freed := b } }, ?_, ?_, rfl, n, rest, used, block,
    ⟨hat.ready.refreed rfl b, hat.cursor, hrest, hdistinct, ?_⟩, hcursor⟩
  · have hnext : m.next m.pool.freed = some b := hb
    rw [SharedPool.malloc, if_pos hfreed, hnext]
    rfl
  · exact (List.nodup_cons.mp (List.nodup_append.mp hdistinct).2.1).1
  · exact fun a ha => hat.placed a (hperm.mem_iff.mpr ha)

/-- **`pool_malloc` gives an element that is not in use,** or `NULL` where it is refused a
block.
SOURCE: pool.c:47-72 -/
theorem PoolHolds.malloc (hshape : PoolShape w es bs) (h : PoolHolds es bs m live)
    {reallocated : Bool} (hgoes : GoesOn m m.pool.freed reallocated) (backed : Bool) :
    ∃ x m', m.malloc m.pool.freed reallocated backed = some (x, m') ∧ m'.next = m.next ∧
      ((x ≠ .null ∧ x ∉ live ∧ PoolHolds es bs m' (x :: live)) ∨
        (x = .null ∧ m'.pool.freed = m.pool.freed ∧ PoolHolds es bs m' live)) := by
  by_cases hnull : m.pool.freed = .null
  · obtain ⟨hthere, hlast⟩ := hgoes hnull
    obtain ⟨n, free, used, block, hat, hcursor⟩ := h
    obtain ⟨rfl, rfl⟩ := hcursor.resolve_right hthere
    have hat : PoolAt es bs m n free live := hat
    have hnil : free = [] := Threaded.eq_nil (hnull ▸ hat.threaded)
    subst hnil
    rw [hnull]
    by_cases hfails : m.pool.used + 1 = m.pool.blockSize ∧
        (m.heap.sizes.length : ℤ) ≤ m.pool.block + 1 ∧ backed = false
    · -- the cursor goes on to a block that it does not get
      obtain ⟨hused, hmissing, rfl⟩ := hfails
      obtain ⟨rfl, hnext⟩ := hlast hused
      have hblock := hat.ready.block_lt
      have hle := hat.ready.directory.le
      obtain ⟨blocksUsed, blocks, hadvance, hdir, -, hentry⟩ :=
        poolAdvance_fails hat.ready.directory hused hnext hmissing (by omega)
      refine ⟨.null, { m with pool := { m.pool with
          used := 0, block := m.pool.block + 1, blocksUsed := blocksUsed, blocks := blocks } },
        ?_, rfl, .inr ⟨rfl, hnull, n, [], m.pool.used, m.pool.block,
          ⟨?_, hat.cursor, hat.threaded, hat.distinct, hat.placed⟩, .inr hentry⟩⟩
      · rw [SharedPool.malloc, if_neg (not_not.mpr rfl), hadvance]
        simp only [Option.bind_eq_bind, Option.bind_some, hentry]
        simp [Addr.null, Addr.add]
      · exact { hat.ready with directory := ⟨hdir.pow, hdir.le, hdir.blocks⟩ }
    · have hasked : poolAdvance m.pool m.heap reallocated backed =
          poolAdvance m.pool m.heap true true := by
        by_cases hused : m.pool.used + 1 = m.pool.blockSize
        · obtain ⟨rfl, hnext⟩ := hlast hused
          cases backed with
          | true => rfl
          | false =>
            refine poolAdvance_backed hat.ready (fun _ => hnext) (fun _ => ?_) false
            by_contra hmissing
            exact hfails ⟨hused, not_lt.mp hmissing, rfl⟩
        · rw [poolAdvance, poolAdvance, if_neg hused, if_neg hused]
      obtain ⟨x, m', hmalloc, hx, hnext, hat'⟩ :=
        hat.advance hshape hnull hasked fun hused => (hlast hused).2
      have hplaced : x ≠ .null := by
        obtain ⟨e, -, rfl⟩ := hat'.placed x List.mem_cons_self
        exact place_ne_null
      exact ⟨x, m', hmalloc, hnext, .inl ⟨hplaced, hx, n + 1, [], _, _, hat', .inl ⟨rfl, rfl⟩⟩⟩
  · obtain ⟨m', hmalloc, hx, hnext, hholds⟩ := h.recycle hnull reallocated backed
    exact ⟨_, m', hmalloc, hnext, .inl ⟨hnull, hx, hholds⟩⟩

/-- **`pool_free` takes back** an element in use.
SOURCE: pool.c:74-80 -/
theorem PoolHolds.free (h : PoolHolds es bs m live) {x : Addr} (hx : x ∈ live) :
    PoolHolds es bs (m.free x m.pool.freed) (live.erase x) := by
  obtain ⟨n, free, used, block, hat, hcursor⟩ := h
  have hperm : (free ++ live).Perm (x :: free ++ live.erase x) :=
    ((List.perm_cons_erase hx).append_left free).trans List.perm_middle
  obtain ⟨e, -, he⟩ := hat.placed x (List.mem_append_right _ hx)
  have hfree : x ∉ free := fun hmem =>
    List.disjoint_of_nodup_append hat.distinct hmem hx
  refine ⟨n, x :: free, used, block, ⟨hat.ready.refreed rfl x, hat.cursor, ?_,
    hperm.nodup_iff.mp hat.distinct, fun a ha => hat.placed a (hperm.mem_iff.mpr ha)⟩, hcursor⟩
  exact hat.threaded.push (he ▸ place_ne_null) hfree

/-- What is written to elements in use, and outside the pool, the pool does not see. -/
theorem PoolHolds.write (h : PoolHolds es bs m live) {next : Addr → Option Addr}
    (hsame : ∀ e, place es.toNat bs.toNat e ∉ live →
      next (place es.toNat bs.toNat e) = m.next (place es.toNat bs.toNat e)) :
    PoolHolds es bs { m with next := next } live := by
  obtain ⟨n, free, used, block, hat, hcursor⟩ := h
  refine ⟨n, free, used, block, ⟨hat.ready, hat.cursor, hat.threaded.congr fun a ha => ?_,
    hat.distinct, hat.placed⟩, hcursor⟩
  obtain ⟨e, -, rfl⟩ := hat.placed a (List.mem_append_left _ ha)
  exact hsame e fun hlive => List.disjoint_of_nodup_append hat.distinct ha hlive

/-! ## Numbers of elements -/

/-- An element of a pool whose blocks are of at most 4096 bytes is found by its number. -/
theorem numbered_place {es bs : ℕ} (hes : 0 < es) (hbs : 0 < bs) (hsmall : es * bs ≤ 4096)
    (e : ℕ) : numbered (addrNumber (place es bs e)) = place es bs e := by
  have hoff : e % bs * es < 4096 := by
    have hlt : e % bs * es < bs * es := Nat.mul_lt_mul_of_pos_right (Nat.mod_lt e hbs) hes
    rw [Nat.mul_comm bs es] at hlt
    omega
  rw [place]
  generalize e / bs = b
  generalize e % bs * es = off at hoff
  have hblock : (4096 * (b + 1) + off) / 4096 - 1 = b := by omega
  have hrest : (4096 * (b + 1) + off) % 4096 = off := by omega
  rw [addrNumber, numbered, if_neg (by omega), hblock, hrest]

/-- No element is `msg_queue`. -/
theorem place_ne_msgQueue {es bs e : ℕ} : place es bs e ≠ msgQueue := by
  simp [place, msgQueue]

/-- Each element in use is there once. -/
theorem PoolHolds.nodup (h : PoolHolds es bs m live) : live.Nodup := by
  obtain ⟨n, free, used, block, h, -⟩ := h
  exact (List.nodup_append.mp h.distinct).2.1

/-- An element in use is found by its number. -/
theorem PoolHolds.numbered (hshape : PoolShape w es bs) (hsmall : es.toNat * bs.toNat ≤ 4096)
    (h : PoolHolds es bs m live) {a : Addr} (ha : a ∈ live) : numbered (addrNumber a) = a := by
  obtain ⟨e, rfl⟩ := h.placed ha
  exact numbered_place (hshape.pointer.trans_le hshape.width) hshape.elements hsmall e

/-- Elements in use have different numbers. -/
theorem PoolHolds.number_ne (hshape : PoolShape w es bs) (hsmall : es.toNat * bs.toNat ≤ 4096)
    (h : PoolHolds es bs m live) {a b : Addr} (ha : a ∈ live) (hb : b ∈ live) (hne : a ≠ b) :
    addrNumber a ≠ addrNumber b := by
  intro heq
  refine hne ?_
  rw [← h.numbered hshape hsmall ha, heq, h.numbered hshape hsmall hb]

/-! ## The two pools -/

/-- The elements of `act_msg_pool`. -/
theorem elemShape : PoolShape 8 SIZEOF_ACT_MSG ACTIVITY_MSG_POOL_ITEMS :=
  ⟨by decide, by decide, by decide, by decide⟩

/-- A block of messages takes no more than the 4096 numbers it has. -/
theorem elem_small : SIZEOF_ACT_MSG.toNat * ACTIVITY_MSG_POOL_ITEMS.toNat ≤ 4096 := by decide

/-- The elements of `exec_item_pool`. -/
theorem itemShape : PoolShape 8 SIZEOF_ACT_MSG_EXEC_ITEM ACTIVITY_MSG_EXEC_ITEM_POOL_ITEMS :=
  ⟨by decide, by decide, by decide, by decide⟩

/-- So does a block of exec items. -/
theorem item_small :
    SIZEOF_ACT_MSG_EXEC_ITEM.toNat * ACTIVITY_MSG_EXEC_ITEM_POOL_ITEMS.toNat ≤ 4096 := by decide

end Ctools.Analysis
