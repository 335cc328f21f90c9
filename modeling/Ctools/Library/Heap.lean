import Mathlib

/-!
# A heap of blocks, and lists linked through it

A heap has blocks of bytes, numbered in the order of their allocation.  A cell
holds a byte, or one piece of a pointer of `w` bytes, so that what is read back
as a pointer is what was stored, piece by piece, and nothing else.  An access
outside one block, and a read of anything but a whole pointer, is `none`.

`Linked` says that a list of nodes is threaded through the first bytes of the
nodes themselves.  `Linked.store` pushes a node, `Linked.frame` carries a list
over any change that none of its nodes sees.
-/

set_option autoImplicit false

namespace Ctools.Library

/-- A pointer: the block it points into and an offset; no block for `NULL` and
what is computed from it. -/
structure Addr where
  block : Option ℕ
  off : ℕ
deriving DecidableEq

/-- `NULL`. -/
def Addr.null : Addr := ⟨none, 0⟩

/-- `n` bytes further. -/
def Addr.add (a : Addr) (n : ℕ) : Addr := { a with off := a.off + n }

/-- The `n` bytes at `a` and the `m` bytes at `b` have none in common. -/
def Addr.Apart (a : Addr) (n : ℕ) (b : Addr) (m : ℕ) : Prop :=
  a.block ≠ b.block ∨ a.off + n ≤ b.off ∨ b.off + m ≤ a.off

/-- A part of the bytes at `b` is apart too. -/
theorem Addr.Apart.part {a b : Addr} {n m off k : ℕ} (h : a.Apart n b m) (hk : off + k ≤ m) :
    a.Apart n (b.add off) k := by
  rcases h with hblock | hle | hle
  · exact .inl hblock
  · exact .inr (.inl (show a.off + n ≤ b.off + off by omega))
  · exact .inr (.inr (show b.off + off + k ≤ a.off by omega))

/-- In one block, a byte of the one is not among the bytes of the other. -/
theorem Addr.Apart.outside {a b : Addr} {n m i : ℕ} (h : a.Apart n b m)
    (hblock : a.block = b.block) (hi : i < n) : ¬ (b.off ≤ a.off + i ∧ a.off + i < b.off + m) := by
  rcases h with hne | hle | hle
  · exact absurd hblock hne
  · omega
  · omega

/-- What a byte of memory holds. -/
inductive Cell where
  | undef
  | byte (b : UInt8)
  | piece (a : Addr) (i : ℕ)
deriving DecidableEq

/-- The sizes of the blocks, and their cells. -/
structure Heap where
  sizes : List ℕ
  cells : ℕ → ℕ → Cell

namespace Heap

/-- No block yet. -/
def empty : Heap := ⟨[], fun _ _ => .undef⟩

/-- A fresh block of `n` bytes. -/
def alloc (h : Heap) (n : ℕ) : Addr × Heap :=
  (⟨some h.sizes.length, 0⟩,
    { sizes := h.sizes ++ [n]
      cells := Function.update h.cells h.sizes.length fun _ => .undef })

/-- The block that holds the `n` bytes at `a`, if one does. -/
def blockAt (h : Heap) (a : Addr) (n : ℕ) : Option ℕ :=
  a.block.filter fun b => (h.sizes[b]?).any fun size => a.off + n ≤ size

/-- Write one cell. -/
def write (h : Heap) (a : Addr) (c : Cell) : Option Heap :=
  (h.blockAt a 1).map fun b =>
    { h with cells := Function.update h.cells b (Function.update (h.cells b) a.off c) }

/-- Store a pointer of `w` bytes. -/
def storePtr (w : ℕ) (h : Heap) (a p : Addr) : Option Heap :=
  (h.blockAt a w).map fun b =>
    { h with cells := Function.update h.cells b fun o =>
        if a.off ≤ o ∧ o < a.off + w then .piece p (o - a.off) else h.cells b o }

/-- Load a pointer of `w` bytes. -/
def loadPtr (w : ℕ) (h : Heap) (a : Addr) : Option Addr :=
  (h.blockAt a w).bind fun b =>
    match h.cells b a.off with
    | .piece p _ => if ∀ i < w, h.cells b (a.off + i) = .piece p i then some p else none
    | _ => none

/-- Bytes lie in a block if the block is there and ends behind them. -/
theorem blockAt_eq_some {h : Heap} {a : Addr} {n b : ℕ} :
    h.blockAt a n = some b ↔
      a.block = some b ∧ ∃ size, h.sizes[b]? = some size ∧ a.off + n ≤ size := by
  simp only [blockAt, Option.filter_eq_some_iff, Option.any_eq_true, decide_eq_true_eq]

/-- Where the blocks are does not depend on what they hold. -/
theorem blockAt_withCells (h : Heap) (cells : ℕ → ℕ → Cell) (a : Addr) (n : ℕ) :
    blockAt ⟨h.sizes, cells⟩ a n = h.blockAt a n := rfl

/-- A write inside a block succeeds. -/
theorem exists_write {h : Heap} {a : Addr} {b : ℕ} (hblock : h.blockAt a 1 = some b) (c : Cell) :
    ∃ h', h.write a c = some h' := by
  rw [write, hblock]
  exact ⟨_, rfl⟩

/-- A store of a pointer inside a block succeeds. -/
theorem exists_storePtr {w : ℕ} {h : Heap} {a : Addr} {b : ℕ} (hblock : h.blockAt a w = some b)
    (p : Addr) : ∃ h', h.storePtr w a p = some h' := by
  rw [storePtr, hblock]
  exact ⟨_, rfl⟩

/-- A longer heap has the block still. -/
theorem blockAt_of_prefix {h h' : Heap} (hsizes : h.sizes <+: h'.sizes) {a : Addr} {n b : ℕ}
    (hblock : h.blockAt a n = some b) : h'.blockAt a n = some b := by
  obtain ⟨hb, size, hsize, hle⟩ := blockAt_eq_some.mp hblock
  obtain ⟨more, hmore⟩ := hsizes
  refine blockAt_eq_some.mpr ⟨hb, size, ?_, hle⟩
  rw [← hmore, List.getElem?_append_left (List.getElem?_eq_some_iff.mp hsize).1, hsize]

/-- A load sees the sizes and the cells it reads. -/
theorem loadPtr_of_cells {w : ℕ} {h h' : Heap} (hsizes : h.sizes <+: h'.sizes) {a p : Addr}
    (hcells : ∀ b, a.block = some b → ∀ i < w, h'.cells b (a.off + i) = h.cells b (a.off + i))
    (hw : 0 < w) (hload : h.loadPtr w a = some p) : h'.loadPtr w a = some p := by
  obtain ⟨b, hblock, hmatch⟩ := Option.bind_eq_some_iff.mp hload
  have hb := (blockAt_eq_some.mp hblock).1
  have hfirst := hcells b hb 0 hw
  rw [Nat.add_zero] at hfirst
  rw [loadPtr, blockAt_of_prefix hsizes hblock, Option.bind_some, hfirst]
  split at hmatch
  · rename_i q _ hq
    split at hmatch
    · rename_i hall
      rw [← hmatch]
      refine if_pos fun i hi => ?_
      rw [hcells b hb i hi, hall i hi]
    · cases hmatch
  · cases hmatch

/-- A new block leaves what is stored. -/
theorem loadPtr_alloc {w : ℕ} {h : Heap} {a p : Addr} (hw : 0 < w) (n : ℕ)
    (hload : h.loadPtr w a = some p) : (h.alloc n).2.loadPtr w a = some p := by
  refine loadPtr_of_cells (List.prefix_append _ _) (fun b hb i _ => ?_) hw hload
  obtain ⟨c, hblock, -⟩ := Option.bind_eq_some_iff.mp hload
  obtain ⟨hc, size, hsize, -⟩ := blockAt_eq_some.mp hblock
  have hlt : b < h.sizes.length := by
    rw [hb, Option.some.injEq] at hc
    exact (List.getElem?_eq_some_iff.mp (hc ▸ hsize)).1
  simp [alloc, Function.update_of_ne (show b ≠ h.sizes.length by omega)]

/-- A byte written elsewhere leaves what is stored. -/
theorem loadPtr_write {w : ℕ} {h h' : Heap} {a b p : Addr} {c : Cell} (hw : 0 < w)
    (happart : a.Apart w b 1) (hwrite : h.write b c = some h')
    (hload : h.loadPtr w a = some p) : h'.loadPtr w a = some p := by
  obtain ⟨k, hk, rfl⟩ := Option.map_eq_some_iff.mp hwrite
  refine loadPtr_of_cells (h := h) ?_ (fun j hj i hi => ?_) hw hload
  · exact List.prefix_rfl
  by_cases hjk : j = k
  · have hblock := (blockAt_eq_some.mp hk).1
    have houtside := happart.outside (hj.trans (hjk ▸ hblock.symm)) hi
    simp [hjk, show a.off + i ≠ b.off by omega]
  · simp [hjk]

/-- A pointer stored elsewhere leaves what is stored. -/
theorem loadPtr_storePtr_apart {w : ℕ} {h h' : Heap} {a b p q : Addr} (hw : 0 < w)
    (happart : a.Apart w b w) (hstore : h.storePtr w b q = some h')
    (hload : h.loadPtr w a = some p) : h'.loadPtr w a = some p := by
  obtain ⟨k, hk, rfl⟩ := Option.map_eq_some_iff.mp hstore
  refine loadPtr_of_cells (h := h) ?_ (fun j hj i hi => ?_) hw hload
  · exact List.prefix_rfl
  by_cases hjk : j = k
  · have hblock := (blockAt_eq_some.mp hk).1
    have houtside := happart.outside (hj.trans (hjk ▸ hblock.symm)) hi
    simp [hjk, houtside]
  · simp [hjk]

/-- What was stored is loaded. -/
theorem loadPtr_storePtr {w : ℕ} {h h' : Heap} {a p : Addr} (hw : 0 < w)
    (hstore : h.storePtr w a p = some h') : h'.loadPtr w a = some p := by
  obtain ⟨k, hk, rfl⟩ := Option.map_eq_some_iff.mp hstore
  rw [loadPtr, blockAt_withCells, hk, Option.bind_some]
  have hcell : ∀ i < w, (if a.off ≤ a.off + i ∧ a.off + i < a.off + w then
      Cell.piece p (a.off + i - a.off) else h.cells k (a.off + i)) = .piece p i := by
    intro i hi
    rw [if_pos ⟨by omega, by omega⟩]
    congr 1
    omega
  have hfirst := hcell 0 hw
  simp only [Nat.add_zero] at hfirst
  simp only [Function.update_self, hfirst]
  exact if_pos hcell

/-- Where a byte was written there is no pointer any more. -/
theorem loadPtr_of_write_byte {w : ℕ} {h h' : Heap} {a : Addr} {b : UInt8}
    (hwrite : h.write a (.byte b) = some h') : h'.loadPtr w a = none := by
  obtain ⟨k, hk, rfl⟩ := Option.map_eq_some_iff.mp hwrite
  rw [loadPtr, blockAt_withCells]
  cases hblock : h.blockAt a w with
  | none => rfl
  | some j =>
    have hjk : some j = some k := (blockAt_eq_some.mp hblock).1.symm.trans (blockAt_eq_some.mp hk).1
    cases hjk
    simp

/-- Storing a pointer allocates nothing. -/
theorem sizes_of_storePtr {w : ℕ} {h h' : Heap} {a p : Addr} (hstore : h.storePtr w a p = some h') :
    h'.sizes = h.sizes := by
  obtain ⟨k, -, rfl⟩ := Option.map_eq_some_iff.mp hstore
  rfl

/-- Writing a byte allocates nothing. -/
theorem sizes_of_write {h h' : Heap} {a : Addr} {c : Cell} (hwrite : h.write a c = some h') :
    h'.sizes = h.sizes := by
  obtain ⟨k, -, rfl⟩ := Option.map_eq_some_iff.mp hwrite
  rfl

/-- The nodes `l` are linked from `p` on: each node's first bytes hold a pointer to
the next one, the last one's `NULL`. -/
inductive Linked (w : ℕ) (h : Heap) : Addr → List Addr → Prop
  | nil : Linked w h .null []
  | cons {a next : Addr} {l : List Addr} (load : h.loadPtr w a = some next)
      (rest : Linked w h next l) : Linked w h a (a :: l)

/-- Nothing is stored at `NULL`. -/
theorem loadPtr_null {w : ℕ} {h : Heap} : h.loadPtr w .null = none := rfl

/-- From `NULL` on there is no node. -/
theorem Linked.eq_nil {w : ℕ} {h : Heap} {l : List Addr} (hl : Linked w h .null l) : l = [] := by
  cases hl with
  | nil => rfl
  | cons load rest => cases loadPtr_null.symm.trans load

/-- From anything else on there is a first node, which holds the rest. -/
theorem Linked.of_ne_null {w : ℕ} {h : Heap} {p : Addr} {l : List Addr} (hl : Linked w h p l)
    (hp : p ≠ .null) :
    ∃ next rest, l = p :: rest ∧ h.loadPtr w p = some next ∧ Linked w h next rest := by
  cases hl with
  | nil => exact absurd rfl hp
  | cons load rest => exact ⟨_, _, rfl, load, rest⟩

/-- A change that no node sees keeps the list. -/
theorem Linked.frame {w : ℕ} {h h' : Heap} {p : Addr} {l : List Addr} (hl : Linked w h p l)
    (hsame : ∀ a ∈ l, ∀ q, h.loadPtr w a = some q → h'.loadPtr w a = some q) :
    Linked w h' p l := by
  induction hl with
  | nil => exact .nil
  | cons load rest ih =>
    exact .cons (hsame _ List.mem_cons_self _ load)
      (ih fun a ha => hsame a (List.mem_cons_of_mem _ ha))

/-- Storing the head of a list in a node apart from all its nodes pushes the node. -/
theorem Linked.store {w : ℕ} {h h' : Heap} {a p : Addr} {l : List Addr} (hw : 0 < w)
    (hl : Linked w h p l) (hstore : h.storePtr w a p = some h')
    (happart : ∀ b ∈ l, b.Apart w a w) : Linked w h' a (a :: l) :=
  .cons (loadPtr_storePtr hw hstore)
    (hl.frame fun b hb _ => loadPtr_storePtr_apart hw (happart b hb) hstore)

end Heap

end Ctools.Library
