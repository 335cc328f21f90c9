import Mathlib

/-!
# Bounds-checked memory

A block of memory is the list of its cells.  An access that leaves the block
is undefined behaviour in C and fails here: `readCells`, `writeCells` and
`memcpy` answer `none`.  What a successful access reads and leaves behind is
stated cell by cell (`readCells_getElem?`, `writeCells_getElem?`).
-/

set_option autoImplicit false

namespace Ctools.Library

variable {α : Type}

/-- The cells `mem[off .. off + n)`. -/
def readCells (mem : List α) (off n : ℕ) : Option (List α) :=
  if off + n ≤ mem.length then some ((mem.drop off).take n) else none

/-- Store `cells` at `mem[off ..)`. -/
def writeCells (mem : List α) (off : ℕ) (cells : List α) : Option (List α) :=
  if off + cells.length ≤ mem.length then
    some (mem.take off ++ cells ++ mem.drop (off + cells.length))
  else none

/-- `memcpy(&dst[dstOff], &src[srcOff], n)` between two disjoint blocks. -/
def memcpy (dst : List α) (dstOff : ℕ) (src : List α) (srcOff n : ℕ) : Option (List α) := do
  let cells ← readCells src srcOff n
  writeCells dst dstOff cells

/-- A read inside the memory. -/
theorem readCells_of_le {mem : List α} {off n : ℕ} (h : off + n ≤ mem.length) :
    readCells mem off n = some ((mem.drop off).take n) := if_pos h

/-- A store inside the block succeeds, keeps the block's length, and changes
exactly the cells it covers. -/
theorem exists_writeCells (mem cells : List α) (off : ℕ) (h : off + cells.length ≤ mem.length) :
    ∃ mem', writeCells mem off cells = some mem' ∧ mem'.length = mem.length ∧
      ∀ i, mem'[i]? = if off ≤ i ∧ i < off + cells.length then cells[i - off]? else mem[i]? := by
  refine ⟨_, if_pos h, by simp; omega, fun i => ?_⟩
  rw [List.append_assoc, List.getElem?_append, List.getElem?_append]
  simp only [List.length_take, List.getElem?_take, List.getElem?_drop]
  by_cases hlow : i < off
  · rw [if_pos (by omega), if_pos hlow, if_neg (by omega)]
  · rw [if_neg (by omega)]
    by_cases hmid : i < off + cells.length
    · rw [if_pos (by omega), if_pos (by omega), Nat.min_eq_left (by omega)]
    · rw [if_neg (by omega), if_neg (by omega)]
      congr 1
      omega

/-- A copy inside both blocks succeeds, keeps the length of the destination,
and changes exactly the cells it covers. -/
theorem exists_memcpy (dst src : List α) (dstOff srcOff n : ℕ) (hdst : dstOff + n ≤ dst.length)
    (hsrc : srcOff + n ≤ src.length) :
    ∃ dst', memcpy dst dstOff src srcOff n = some dst' ∧ dst'.length = dst.length ∧
      ∀ i, dst'[i]? = if dstOff ≤ i ∧ i < dstOff + n then src[srcOff + (i - dstOff)]?
        else dst[i]? := by
  have hlen : ((src.drop srcOff).take n).length = n := by simp; omega
  obtain ⟨dst', hw, hl, hget⟩ :=
    exists_writeCells dst ((src.drop srcOff).take n) dstOff (by rw [hlen]; exact hdst)
  refine ⟨dst', ?_, hl, fun i => ?_⟩
  · simp [memcpy, readCells_of_le hsrc, hw]
  · rw [hget i, hlen]
    by_cases hi : dstOff ≤ i ∧ i < dstOff + n
    · rw [if_pos hi, if_pos hi, List.getElem?_take_of_lt (by omega), List.getElem?_drop]
    · rw [if_neg hi, if_neg hi]

/-- A copy behind the cells `done` of a block replaces the cells that follow. -/
theorem memcpy_behind (done rest src : List α) (srcOff n : ℕ) (hdst : n ≤ rest.length)
    (hsrc : srcOff + n ≤ src.length) :
    memcpy (done ++ rest) done.length src srcOff n =
      some (done ++ ((src.drop srcOff).take n ++ rest.drop n)) := by
  have hlen : ((src.drop srcOff).take n).length = n := by simp; omega
  simp [memcpy, readCells_of_le hsrc, writeCells, hlen, hdst]

/-- A copy to the start of a block replaces its first `n` cells. -/
theorem memcpy_to_start (dst src : List α) (srcOff n : ℕ) (hdst : n ≤ dst.length)
    (hsrc : srcOff + n ≤ src.length) :
    memcpy dst 0 src srcOff n = some ((src.drop srcOff).take n ++ dst.drop n) :=
  memcpy_behind [] dst src srcOff n hdst hsrc

end Ctools.Library
