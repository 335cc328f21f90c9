import Mathlib

/-!
# Occurrences of one list in another

`FirstAt d s k` says that `d` occurs in `s` at position `k` and at none before
it.  `greedyCount` counts the occurrences that a reader meets who goes from left
to right and passes over each one found; past the first occurrence it goes on
behind it (`greedyCount_of_firstAt`).
-/

set_option autoImplicit false

namespace Ctools.Library

variable {α : Type}

/-- `d` occurs in `s` at `k`, and nowhere before. -/
def FirstAt (d s : List α) (k : ℕ) : Prop := d <+: s.drop k ∧ ∀ j < k, ¬ d <+: s.drop j

/-- A list occurs inside another one exactly if it occurs at some position. -/
theorem infix_iff_prefix_drop (d s : List α) : d <:+: s ↔ ∃ k ≤ s.length, d <+: s.drop k := by
  constructor
  · rintro ⟨before, after, rfl⟩
    refine ⟨before.length, by simp, ?_⟩
    rw [List.append_assoc, List.drop_left]
    exact List.prefix_append _ _
  · rintro ⟨k, -, hoccurs⟩
    exact hoccurs.isInfix.trans (List.drop_suffix k s).isInfix

/-- Before the end of the first occurrence there is no other one. -/
theorem FirstAt.not_infix_take {d s : List α} {k : ℕ} (h : FirstAt d s k) (hd : d ≠ []) :
    ¬ d <:+: s.take k := by
  rw [infix_iff_prefix_drop]
  rintro ⟨j, -, hoccurs⟩
  have hpos := List.length_pos_of_ne_nil hd
  have hlen := hoccurs.length_le
  rw [List.length_drop, List.length_take] at hlen
  rw [List.drop_take] at hoccurs
  exact h.2 j (by omega) (hoccurs.trans (List.take_prefix _ _))

/-- What lies before the first occurrence, the occurrence, and what lies behind. -/
theorem FirstAt.take_append {d s : List α} {k : ℕ} (h : FirstAt d s k) :
    s.take k ++ d ++ s.drop (k + d.length) = s := by
  obtain ⟨rest, hrest⟩ := h.1
  have hback : s.drop (k + d.length) = rest := by
    rw [← List.drop_drop, ← hrest, List.drop_left]
  rw [hback, List.append_assoc, hrest, List.take_append_drop]

/-- An occurrence ends inside the text. -/
theorem FirstAt.le_length {d s : List α} {k : ℕ} (h : FirstAt d s k) (hd : d ≠ []) :
    k + d.length ≤ s.length := by
  have hpos := List.length_pos_of_ne_nil hd
  have hlen := h.1.length_le
  rw [List.length_drop] at hlen
  omega

/-- Putting a joined list's last piece together from two. -/
theorem intercalate_concat_append (d : List α) (pieces : List (List α)) (first second : List α) :
    d.intercalate (pieces ++ [first ++ d ++ second]) =
      d.intercalate (pieces ++ [first] ++ [second]) := by
  induction pieces with
  | nil => simp [List.intercalate_cons_cons, List.intercalate_singleton]
  | cons piece pieces ih =>
    rw [List.cons_append, List.cons_append, List.cons_append,
      List.intercalate_cons_of_ne_nil (by simp), List.intercalate_cons_of_ne_nil (by simp), ih]

variable [DecidableEq α]

/-- The occurrences of `d` that do not overlap, counted greedily from the left,
when the next `skip` cells belong to the last one counted. -/
def greedyCount (d : List α) : ℕ → List α → ℕ
  | _, [] => 0
  | skip + 1, _ :: s => greedyCount d skip s
  | 0, x :: s =>
      if d.isPrefixOf (x :: s) then 1 + greedyCount d (d.length - 1) s else greedyCount d 0 s

/-- What is skipped is not counted. -/
theorem greedyCount_skip (d : List α) (skip : ℕ) (s : List α) :
    greedyCount d skip s = greedyCount d 0 (s.drop skip) := by
  induction skip generalizing s with
  | zero => rw [List.drop_zero]
  | succ skip ih =>
    cases s with
    | nil => rw [List.drop_nil, greedyCount, greedyCount]
    | cons x s => rw [greedyCount, ih, List.drop_succ_cons]

/-- Where nothing occurs, nothing is counted. -/
theorem greedyCount_of_absent {d s : List α} (h : ¬ d <:+: s) : greedyCount d 0 s = 0 := by
  induction s with
  | nil => rw [greedyCount]
  | cons x s ih =>
    have hhere : ¬ d.isPrefixOf (x :: s) := by
      rw [List.isPrefixOf_iff_prefix]
      exact fun hoccurs => h hoccurs.isInfix
    rw [greedyCount, if_neg hhere]
    exact ih fun hinside => h (hinside.trans (List.suffix_cons x s).isInfix)

/-- **The first occurrence** counts one, and the count goes on behind it. -/
theorem greedyCount_of_firstAt {d s : List α} {k : ℕ} (h : FirstAt d s k) (hd : d ≠ []) :
    greedyCount d 0 s = 1 + greedyCount d 0 (s.drop (k + d.length)) := by
  induction k generalizing s with
  | zero =>
    obtain ⟨hoccurs, -⟩ := h
    rw [List.drop_zero] at hoccurs
    cases s with
    | nil => exact absurd (List.prefix_nil.mp hoccurs) hd
    | cons x s =>
      have hpos := List.length_pos_of_ne_nil hd
      rw [greedyCount, if_pos (List.isPrefixOf_iff_prefix.mpr hoccurs), greedyCount_skip,
        show 0 + d.length = d.length - 1 + 1 by omega, List.drop_succ_cons]
  | succ k ih =>
    cases s with
    | nil => exact absurd (List.prefix_nil.mp h.1) hd
    | cons x s =>
      have hhere : ¬ d.isPrefixOf (x :: s) := by
        rw [List.isPrefixOf_iff_prefix]
        exact h.2 0 (Nat.succ_pos k)
      have hrest : FirstAt d s k := ⟨h.1, fun j hj => h.2 (j + 1) (Nat.succ_lt_succ hj)⟩
      rw [greedyCount, if_neg hhere, ih hrest,
        show k + 1 + d.length = k + d.length + 1 by omega, List.drop_succ_cons]

end Ctools.Library
