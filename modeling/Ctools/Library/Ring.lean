import Ctools.Library.Memory

/-!
# Ring buffers

A ring buffer is a block of memory read from a position onwards, back to its
start when the end is reached.  `ringRead buf head n` is what lies in the `n`
cells from `head`.  `RingWritten buf buf' pos cells` says that `buf'` is `buf`
with `cells` stored from `pos` onwards, however many copies that took.

The rules are those a ring needs: storing behind the part in use appends to it
(`ringRead_append`), advancing the start drops from its front
(`ringRead_drop`), a read that stays short of the end is one copy
(`readCells_eq_take_ringRead`), and storing over a full ring keeps its newest
cells (`ringRead_overwrite`, `slide`).
-/

set_option autoImplicit false

namespace Ctools.Library

variable {α : Type}

/-- The cell at distance `i` from the start of a ring of `cap` cells, for `i`
less than two turns. -/
def wrap (cap i : ℕ) : ℕ := if i < cap then i else i - cap

/-- The number of cells from `pos` forward to `k` in a ring of `cap` cells. -/
def ahead (cap pos k : ℕ) : ℕ := if pos ≤ k then k - pos else k + cap - pos

/-- A wrapped index is inside the ring. -/
theorem wrap_lt {cap i : ℕ} (h : i < 2 * cap) : wrap cap i < cap := by
  unfold wrap
  split_ifs <;> omega

/-- An index inside the ring is not wrapped. -/
theorem wrap_of_lt {cap i : ℕ} (h : i < cap) : wrap cap i = i := if_pos h

/-- Wrapping once is a remainder below twice the size. -/
theorem wrap_eq_mod {cap i : ℕ} (h : i < 2 * cap) : wrap cap i = i % cap := by
  unfold wrap
  split_ifs with hlt
  · exact (Nat.mod_eq_of_lt hlt).symm
  · rw [Nat.mod_eq_sub_mod (by omega), Nat.mod_eq_of_lt (by omega)]

/-- The `n` cells of the ring from `head` on. -/
def ringRead (buf : List α) (head n : ℕ) : List α := (buf.drop head ++ buf.take head).take n

/-- No cells are read. -/
@[simp] theorem ringRead_zero (buf : List α) (head : ℕ) : ringRead buf head 0 = [] := rfl

/-- As many cells are read as asked for. -/
theorem length_ringRead {buf : List α} {head n : ℕ} (hn : n ≤ buf.length) :
    (ringRead buf head n).length = n := by
  simp only [ringRead, List.length_take, List.length_append, List.length_drop]
  omega

/-- The cell read in place `i` is `i` places behind the head. -/
theorem ringRead_getElem? {buf : List α} {head n : ℕ} (hhead : head ≤ buf.length)
    (hn : n ≤ buf.length) (i : ℕ) :
    (ringRead buf head n)[i]? = if i < n then buf[wrap buf.length (head + i)]? else none := by
  unfold ringRead
  rw [List.getElem?_take]
  split_ifs with hi
  · rw [List.getElem?_append, List.length_drop]
    by_cases hfirst : i < buf.length - head
    · rw [if_pos hfirst, List.getElem?_drop, wrap_of_lt (by omega)]
    · rw [if_neg hfirst, List.getElem?_take_of_lt (by omega)]
      congr 1
      unfold wrap
      rw [if_neg (by omega)]
      omega
  · rfl

/-- The whole of a ring read from its start is the block itself. -/
theorem ringRead_start (buf : List α) (n : ℕ) : ringRead buf 0 n = buf.take n := by
  simp [ringRead]

/-- A read that stays short of the end of the block is a read of the ring. -/
theorem readCells_eq_take_ringRead {buf : List α} {head n k : ℕ} (hk : k ≤ n)
    (hroom : head + k ≤ buf.length) :
    readCells buf head k = some ((ringRead buf head n).take k) := by
  rw [readCells_of_le hroom]
  unfold ringRead
  rw [List.take_take, Nat.min_eq_left hk, List.take_append_of_le_length (by simp; omega)]

/-- Advancing the start of the part in use drops its first cells. -/
theorem ringRead_drop (buf : List α) (head : ℕ) {n k : ℕ} (hhead : head < buf.length)
    (hn : n ≤ buf.length) (hk : k ≤ n) :
    ringRead buf (wrap buf.length (head + k)) (n - k) = (ringRead buf head n).drop k := by
  have hw : wrap buf.length (head + k) ≤ buf.length := (wrap_lt (by omega)).le
  apply List.ext_getElem?
  intro i
  rw [ringRead_getElem? hw (by omega), List.getElem?_drop, ringRead_getElem? hhead.le hn]
  by_cases hi : i < n - k
  · rw [if_pos hi, if_pos (by omega)]
    congr 1
    unfold wrap
    split_ifs <;> omega
  · rw [if_neg hi, if_neg (by omega)]

/-- `buf'` is `buf` with `cells` stored from `pos` on, round the ring. -/
structure RingWritten (buf buf' : List α) (pos : ℕ) (cells : List α) : Prop where
  length_eq : buf'.length = buf.length
  cell : ∀ k, k < buf.length → buf'[k]? =
    if ahead buf.length pos k < cells.length then cells[ahead buf.length pos k]? else buf[k]?

/-- One copy that ends before the end of the block stores round the ring. -/
theorem ringWritten_copy (buf src : List α) (pos n : ℕ) (hfit : pos + n ≤ buf.length)
    (hsrc : n ≤ src.length) :
    ∃ buf', memcpy buf pos src 0 n = some buf' ∧ RingWritten buf buf' pos (src.take n) := by
  obtain ⟨buf', hcopy, hlen, hget⟩ :=
    exists_memcpy buf src pos 0 n hfit (by omega)
  refine ⟨buf', hcopy, hlen, fun k hk => ?_⟩
  rw [hget k, List.length_take, Nat.min_eq_left hsrc]
  by_cases hin : pos ≤ k ∧ k < pos + n
  · have ha : ahead buf.length pos k = k - pos := if_pos hin.1
    rw [if_pos hin, ha, if_pos (by omega), List.getElem?_take_of_lt (by omega), Nat.zero_add]
  · rw [if_neg hin, if_neg]
    unfold ahead
    split_ifs <;> omega

/-- A copy up to the end of the block and a copy of the rest to its start
store round the ring. -/
theorem ringWritten_splitCopy (buf src : List α) (pos n : ℕ) (hpos : pos ≤ buf.length)
    (hreach : buf.length - pos ≤ n) (hn : n ≤ buf.length) (hsrc : n ≤ src.length) :
    ∃ buf₁ buf', memcpy buf pos src 0 (buf.length - pos) = some buf₁ ∧
      memcpy buf₁ 0 src (buf.length - pos) (n - (buf.length - pos)) = some buf' ∧
      RingWritten buf buf' pos (src.take n) := by
  obtain ⟨buf₁, hcopy₁, hlen₁, hget₁⟩ := exists_memcpy buf src pos 0
    (buf.length - pos) (by omega) (by omega)
  obtain ⟨buf', hcopy, hlen, hget⟩ := exists_memcpy buf₁ src 0
    (buf.length - pos) (n - (buf.length - pos)) (by omega) (by omega)
  refine ⟨buf₁, buf', hcopy₁, hcopy, by omega, fun k hk => ?_⟩
  rw [hget k, hget₁ k, List.length_take, Nat.min_eq_left hsrc]
  unfold ahead
  by_cases hlow : pos ≤ k
  · rw [if_neg (by omega), if_pos (by omega), if_pos hlow, if_pos (by omega),
      List.getElem?_take_of_lt (by omega), Nat.zero_add]
  · rw [if_neg hlow]
    by_cases hin : k < n - (buf.length - pos)
    · rw [if_pos (by omega), if_pos (by omega), List.getElem?_take_of_lt (by omega)]
      congr 1
      omega
    · rw [if_neg (by omega), if_neg (by omega), if_neg (by omega)]

/-- Storing right behind the part in use appends to it. -/
theorem ringRead_append (buf cells : List α) {buf' : List α} {head n : ℕ}
    (hhead : head < buf.length)
    (hroom : n + cells.length ≤ buf.length)
    (hw : RingWritten buf buf' (wrap buf.length (head + n)) cells) :
    ringRead buf' head (n + cells.length) = ringRead buf head n ++ cells := by
  apply List.ext_getElem?
  intro i
  rw [ringRead_getElem? (by rw [hw.length_eq]; omega) (by rw [hw.length_eq]; omega), hw.length_eq,
    List.getElem?_append, length_ringRead (by omega), ringRead_getElem? hhead.le (by omega)]
  by_cases hi : i < n + cells.length
  · rw [if_pos hi, hw.cell _ (wrap_lt (by omega))]
    by_cases hold : i < n
    · -- `i` is in the part in use: `pos` reaches it only after the rest of the ring
      rw [if_pos hold, if_pos hold, if_neg]
      unfold ahead wrap
      split_ifs <;> omega
    · have ha : ahead buf.length (wrap buf.length (head + n)) (wrap buf.length (head + i)) =
          i - n := by
        unfold ahead wrap
        split_ifs <;> omega
      rw [ha, if_pos (by omega), if_neg hold]
  · rw [if_neg hi, if_neg (by omega), List.getElem?_eq_none (by omega)]

/-! ## Overwriting -/

/-- A window of fixed length on a stream, moved on by `cells`. -/
def slide (window cells : List α) : List α := (window ++ cells).drop cells.length

/-- No cells leave the window. -/
@[simp] theorem slide_nil (window : List α) : slide window [] = window := by simp [slide]

/-- The window keeps its size. -/
@[simp] theorem length_slide (window cells : List α) :
    (slide window cells).length = window.length := by simp [slide]

/-- Moving on twice is moving on by both. -/
theorem slide_slide (window first second : List α) :
    slide (slide window first) second = slide window (first ++ second) := by
  unfold slide
  rw [← List.drop_append_of_le_length (by simp), List.drop_drop, List.append_assoc,
    List.length_append]

/-- Only the last cells matter, as many as the window is long. -/
theorem slide_rtake {window cells : List α} {n : ℕ} (hn : n ≤ cells.length)
    (hlong : window.length ≤ n) : slide window (cells.rtake n) = slide window cells := by
  have hlen : (cells.rtake n).length = n := by simp [List.rtake]; omega
  unfold slide
  rw [hlen, List.drop_append, List.drop_append, List.drop_eq_nil_of_le hlong,
    List.drop_eq_nil_of_le (hlong.trans hn), List.nil_append, List.nil_append, List.rtake,
    List.drop_drop]
  congr 1
  omega

/-- A window that has moved on by at least its length shows the end of the stream. -/
theorem slide_of_length_le {window cells : List α} (h : window.length ≤ cells.length) :
    slide window cells = cells.rtake window.length := by
  unfold slide
  rw [List.drop_append, List.drop_eq_nil_of_le h, List.nil_append, List.rtake]

/-- A window that has moved on by at most its length ends with all of the stream. -/
theorem slide_of_le_length {window cells : List α} (h : cells.length ≤ window.length) :
    slide window cells = window.drop cells.length ++ cells := by
  unfold slide
  rw [List.drop_append_of_le_length h]

/-- Storing over a full ring from its oldest cell on moves the ring's window on. -/
theorem ringRead_overwrite (buf : List α) {buf' cells : List α} {head : ℕ}
    (hhead : head < buf.length)
    (hroom : cells.length ≤ buf.length) (hw : RingWritten buf buf' head cells) :
    ringRead buf' (wrap buf.length (head + cells.length)) buf.length =
      slide (ringRead buf head buf.length) cells := by
  have hstart : wrap buf.length (head + cells.length) < buf.length := wrap_lt (by omega)
  unfold slide
  apply List.ext_getElem?
  intro i
  rw [ringRead_getElem? (by rw [hw.length_eq]; omega) (by rw [hw.length_eq]), hw.length_eq,
    List.getElem?_drop, List.getElem?_append, length_ringRead le_rfl,
    ringRead_getElem? hhead.le le_rfl]
  by_cases hi : i < buf.length
  · rw [if_pos hi, hw.cell _ (wrap_lt (by omega))]
    have ha : ahead buf.length head
        (wrap buf.length (wrap buf.length (head + cells.length) + i)) =
          wrap buf.length (cells.length + i) := by
      unfold ahead wrap
      split_ifs <;> omega
    rw [ha]
    by_cases hold : cells.length + i < buf.length
    · rw [wrap_of_lt hold, if_neg (by omega), if_pos hold, if_pos hold]
      congr 1
      unfold wrap
      split_ifs <;> omega
    · have hnew : wrap buf.length (cells.length + i) = cells.length + i - buf.length := if_neg hold
      rw [hnew, if_pos (by omega), if_neg hold]
  · rw [if_neg hi, if_neg (by omega), List.getElem?_eq_none (by omega)]

end Ctools.Library
