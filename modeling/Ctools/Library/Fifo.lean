import Mathlib

/-!
# Bounded first-in first-out buffers

`Fifo α cap` holds at most `cap` elements in order of arrival; the bound is a
field, so an overfull buffer cannot be built.  `pos` counts, modulo `cap`, the
elements that have left: it is where a ring that implements the buffer reads.
-/

set_option autoImplicit false

namespace Ctools.Library

/-- A bounded first-in first-out buffer. -/
structure Fifo (α : Type) (cap : ℕ) where
  items : List α
  pos : ℕ
  items_le : items.length ≤ cap

namespace Fifo

variable {α : Type} {cap : ℕ}

/-- The empty buffer, read from the start. -/
def empty (α : Type) (cap : ℕ) : Fifo α cap := ⟨[], 0, Nat.zero_le cap⟩

/-- The free places. -/
def room (f : Fifo α cap) : ℕ := cap - f.items.length

/-- Add all of `cells` at the back. -/
def put (f : Fifo α cap) (cells : List α) (h : cells.length ≤ f.room) : Fifo α cap :=
  ⟨f.items ++ cells, f.pos, by
    have := f.items_le
    unfold room at h
    rw [List.length_append]
    omega⟩

/-- Remove `n` elements from the front. -/
def drop (f : Fifo α cap) (n : ℕ) : Fifo α cap :=
  ⟨f.items.drop n, (f.pos + n) % cap, by
    have := f.items_le
    rw [List.length_drop]
    omega⟩

/-- The number of elements a ring can show in one piece. -/
def contiguous (f : Fifo α cap) : ℕ := min f.items.length (cap - f.pos)

/-- The empty buffer has no cells. -/
@[simp] theorem empty_items : (empty α cap).items = [] := rfl

/-- The empty buffer begins at position 0. -/
@[simp] theorem empty_pos : (empty α cap).pos = 0 := rfl

/-- New cells are behind the old ones. -/
@[simp] theorem put_items (f : Fifo α cap) (cells : List α) (h : cells.length ≤ f.room) :
    (f.put cells h).items = f.items ++ cells := rfl

/-- The first cell stays where it is. -/
@[simp] theorem put_pos (f : Fifo α cap) (cells : List α) (h : cells.length ≤ f.room) :
    (f.put cells h).pos = f.pos := rfl

/-- Cells leave at the front. -/
@[simp] theorem drop_items (f : Fifo α cap) (n : ℕ) : (f.drop n).items = f.items.drop n := rfl

/-- The front moves around the ring. -/
@[simp] theorem drop_pos (f : Fifo α cap) (n : ℕ) : (f.drop n).pos = (f.pos + n) % cap := rfl

/-- Elements may be put one list after the other. -/
theorem put_put (f : Fifo α cap) (first rest : List α) (h : first.length ≤ f.room)
    (h' : rest.length ≤ (f.put first h).room) (hall : (first ++ rest).length ≤ f.room) :
    (f.put first h).put rest h' = f.put (first ++ rest) hall := by
  unfold put
  simp only [List.append_assoc]

/-- No more cells lie in one piece than there are. -/
theorem contiguous_le (f : Fifo α cap) : f.contiguous ≤ f.items.length := Nat.min_le_left _ _

/-- A buffer that is not empty shows something. -/
theorem contiguous_pos (f : Fifo α cap) (hpos : f.pos < cap) (hne : f.items ≠ []) :
    0 < f.contiguous := by
  have hlen := List.length_pos_of_ne_nil hne
  unfold contiguous
  omega

/-- Once the first piece is removed, the rest lies in one piece: the ring reads
on from its start. -/
theorem contiguous_drop_contiguous (f : Fifo α cap) (hpos : f.pos < cap) :
    (f.drop f.contiguous).contiguous = (f.drop f.contiguous).items.length := by
  have hle := f.items_le
  by_cases hone : f.items.length ≤ cap - f.pos
  · have hall : f.contiguous = f.items.length := Nat.min_eq_left hone
    have hnone : (f.drop f.contiguous).items.length = 0 := by
      rw [drop_items, List.length_drop, hall, Nat.sub_self]
    rw [contiguous, hnone, Nat.zero_min]
  · have hend : f.contiguous = cap - f.pos := Nat.min_eq_right (by omega)
    have hstart : (f.drop f.contiguous).pos = 0 := by
      rw [drop_pos, hend, Nat.add_sub_cancel' hpos.le, Nat.mod_self]
    rw [contiguous, hstart, Nat.sub_zero]
    exact Nat.min_eq_left (f.drop f.contiguous).items_le

/-- `g` holds the elements of `f` at its front and has given up none of them. -/
structure Extends (f g : Fifo α cap) : Prop where
  pos_eq : g.pos = f.pos
  items_prefix : f.items <+: g.items

/-- A buffer extends itself. -/
theorem Extends.refl (f : Fifo α cap) : f.Extends f := ⟨rfl, List.prefix_rfl⟩

/-- An extension may be extended. -/
theorem Extends.trans {f g k : Fifo α cap} (hfg : f.Extends g) (hgk : g.Extends k) : f.Extends k :=
  ⟨hgk.pos_eq.trans hfg.pos_eq, hfg.items_prefix.trans hgk.items_prefix⟩

/-- Producers extend the buffer. -/
theorem extends_put (f : Fifo α cap) (cells : List α) (h : cells.length ≤ f.room) :
    f.Extends (f.put cells h) := ⟨rfl, List.prefix_append _ _⟩

/-- What was shown in one piece still is. -/
theorem Extends.contiguous_le {f g : Fifo α cap} (hfg : f.Extends g) :
    f.contiguous ≤ g.contiguous := by
  have hlen := hfg.items_prefix.length_le
  unfold contiguous
  rw [hfg.pos_eq]
  omega

/-- The first elements stay the first. -/
theorem Extends.take_eq {f g : Fifo α cap} (hfg : f.Extends g) {n : ℕ} (hn : n ≤ f.items.length) :
    g.items.take n = f.items.take n := by
  obtain ⟨added, hadded⟩ := hfg.items_prefix
  rw [← hadded, List.take_append_of_le_length hn]

end Fifo

end Ctools.Library
