import Mathlib

/-!
# Streams taken up by blocks

A function `f` takes a state forward by a block of `n` cells, and `blocks` by several of them in
a row.  Who gets a stream in pieces of any length takes up whole blocks and keeps the cells
behind them: `Absorbed f n start stream s pending` says that the state `s` has taken up all of
the stream but the cells `pending` at its end.  The rules are: nothing is absorbed at the start
(`Absorbed.start`); a piece that comes in is pending at first (`Absorbed.push`); whole blocks at
the front of what is pending may be taken up at any time (`Absorbed.take`); and when what is
pending is padded to whole blocks and taken up, the state is that of the whole padded stream,
however it came in (`Absorbed.finish`).
-/

set_option autoImplicit false

namespace Ctools.Library

variable {σ β : Type} {f : σ → List β → σ} {n : ℕ}

/-- The state after the first `k` blocks of `n` cells. -/
def blocks (f : σ → List β → σ) (n : ℕ) : ℕ → σ → List β → σ
  | 0, s, _ => s
  | k + 1, s, cells => blocks f n k (f s (cells.take n)) (cells.drop n)

/-- The blocks of two lists in a row, the first made of whole blocks. -/
theorem blocks_append {j : ℕ} (k : ℕ) (s : σ) {first : List β} (rest : List β)
    (hfirst : first.length = n * j) :
    blocks f n (j + k) s (first ++ rest) = blocks f n k (blocks f n j s first) rest := by
  induction j generalizing s first with
  | zero =>
    obtain rfl : first = [] := List.length_eq_zero_iff.mp (by simpa using hfirst)
    rw [Nat.zero_add]
    rfl
  | succ j ih =>
    have hn : n ≤ first.length := by
      rw [hfirst]
      exact Nat.le_mul_of_pos_right n (Nat.succ_pos j)
    rw [Nat.add_right_comm, blocks, blocks, List.take_append_of_le_length hn,
      List.drop_append_of_le_length hn]
    apply ih
    rw [List.length_drop, hfirst, Nat.mul_succ, Nat.add_sub_cancel]

/-- The blocks are those of the cells in them. -/
theorem blocks_take {k : ℕ} (s : σ) {cells : List β} (hcells : n * k ≤ cells.length) :
    blocks f n k s (cells.take (n * k)) = blocks f n k s cells := by
  have hwhole := blocks_append (f := f) 0 s (cells.drop (n * k))
    (show (cells.take (n * k)).length = n * k by simpa using hcells)
  rw [List.take_append_drop] at hwhole
  exact hwhole.symm

/-- The state after all whole blocks of a stream. -/
def absorbAll (f : σ → List β → σ) (n : ℕ) (start : σ) (stream : List β) : σ :=
  blocks f n (stream.length / n) start stream

/-- The state `s` has taken up all of the stream but the cells `pending` at its end. -/
def Absorbed (f : σ → List β → σ) (n : ℕ) (start : σ) (stream : List β) (s : σ)
    (pending : List β) : Prop :=
  ∃ k done, done.length = n * k ∧ stream = done ++ pending ∧ s = blocks f n k start done

/-- Before the first piece. -/
theorem Absorbed.start (f : σ → List β → σ) (n : ℕ) (s₀ : σ) : Absorbed f n s₀ [] s₀ [] :=
  ⟨0, [], rfl, rfl, rfl⟩

variable {s₀ s : σ} {stream pending : List β}

/-- Cells that come in are pending. -/
theorem Absorbed.push (h : Absorbed f n s₀ stream s pending) (cells : List β) :
    Absorbed f n s₀ (stream ++ cells) s (pending ++ cells) := by
  obtain ⟨k, done, hdone, rfl, rfl⟩ := h
  exact ⟨k, done, hdone, List.append_assoc _ _ _, rfl⟩

/-- Whole blocks of what is pending are taken up. -/
theorem Absorbed.take {j : ℕ} {whole rest : List β}
    (h : Absorbed f n s₀ stream s (whole ++ rest)) (hwhole : whole.length = n * j) :
    Absorbed f n s₀ stream (blocks f n j s whole) rest := by
  obtain ⟨k, done, hdone, rfl, rfl⟩ := h
  refine ⟨k + j, done ++ whole, ?_, (List.append_assoc _ _ _).symm, ?_⟩
  · rw [List.length_append, hdone, hwhole, Nat.mul_add]
  · exact (blocks_append j s₀ whole hdone).symm

/-- No more is pending than came in, and the rest is whole blocks. -/
theorem Absorbed.length_eq (h : Absorbed f n s₀ stream s pending) :
    ∃ k, stream.length = n * k + pending.length := by
  obtain ⟨k, done, hdone, rfl, rfl⟩ := h
  exact ⟨k, by rw [List.length_append, hdone]⟩

/-- **However the stream came in**, padded to whole blocks it leads to the state of the whole
padded stream. -/
theorem Absorbed.finish {j : ℕ} {pad : List β} (hn : 0 < n)
    (h : Absorbed f n s₀ stream s pending) (hpad : (pending ++ pad).length = n * j) :
    blocks f n j s (pending ++ pad) = absorbAll f n s₀ (stream ++ pad) := by
  obtain ⟨k, done, hdone, rfl, rfl⟩ := h
  have hcount : (done ++ pending ++ pad).length / n = k + j := by
    rw [List.append_assoc, List.length_append, hdone, hpad, ← Nat.mul_add,
      Nat.mul_div_cancel_left _ hn]
  rw [absorbAll, hcount, List.append_assoc, blocks_append j s₀ _ hdone]

end Ctools.Library
