import Mathlib

/-!
# Measures of a history

A history is a list that grows at its end.  `peak f h` is the largest value that a
measure `f` had up to the end of `h`: on `h` and on all that was its history before.
-/

set_option autoImplicit false

namespace Ctools.Library

variable {α : Type} (f : List α → ℕ)

/-- The largest value of `f` on the beginnings of `h`. -/
def peak (h : List α) : ℕ := (h.inits.map f).foldr max 0

/-- The peak before the first step. -/
theorem peak_nil : peak f [] = f [] := by
  simp [peak]

/-- One event more. -/
theorem peak_snoc (h : List α) (e : α) : peak f (h ++ [e]) = max (peak f h) (f (h ++ [e])) := by
  have hinits : (h ++ [e]).inits = h.inits ++ [h ++ [e]] := by
    rw [List.inits_append]
    simp
  have hmax : ∀ (l : List ℕ) (n : ℕ), l.foldr max n = max (l.foldr max 0) n := by
    intro l n
    induction l with
    | nil => simp
    | cons x l ih => rw [List.foldr_cons, ih, List.foldr_cons, max_assoc]
  rw [peak, hinits, List.map_append, List.foldr_append, hmax]
  simp [peak]

/-- **The peak is the greatest value on a beginning.** -/
theorem isGreatest_peak (h : List α) : IsGreatest {n | ∃ g, g <+: h ∧ f g = n} (peak f h) := by
  induction h using List.reverseRecOn with
  | nil =>
    rw [peak_nil]
    constructor
    · exact ⟨[], List.prefix_rfl, rfl⟩
    · rintro n ⟨g, hg, rfl⟩
      rw [List.prefix_nil.mp hg]
  | append_singleton h e ih =>
    obtain ⟨⟨g, hg, hpeak⟩, hall⟩ := ih
    rw [peak_snoc]
    constructor
    · rcases le_total (peak f h) (f (h ++ [e])) with hle | hle
      · exact ⟨h ++ [e], List.prefix_rfl, (max_eq_right hle).symm⟩
      · exact ⟨g, hg.trans (List.prefix_append _ _), hpeak.trans (max_eq_left hle).symm⟩
    · rintro n ⟨g', hg', rfl⟩
      rcases List.prefix_concat_iff.mp hg' with heq | hold
      · rw [heq]
        exact le_max_right _ _
      · exact (hall ⟨g', hold, rfl⟩).trans (le_max_left _ _)

end Ctools.Library
