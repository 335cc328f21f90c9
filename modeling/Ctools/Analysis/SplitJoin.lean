import Ctools.Library.Occurrences
import Ctools.Program.SplitString

/-!
# Splitting a string and joining it again

Each turn of the loop takes off what lies before the first occurrence of the
delimiter in the rest of the string (`splitTurn_step`), so at every moment the
pieces and the rest joined are the string, no piece has the delimiter in it, and
the pieces are the occurrences passed (`Splitting`).  With a delimiter that is
not empty the rest becomes shorter every time; with the empty one nothing moves
and the loop never ends.
-/

set_option autoImplicit false

namespace Ctools.Analysis

open Ctools.Library Ctools.Program

variable {α : Type} [DecidableEq α] {string delim : List α}

/-- `find` finds the first occurrence in the rest of the string. -/
theorem find_eq_some {pos k : ℕ} (h : find string delim pos = some k) :
    pos ≤ k ∧ FirstAt delim (string.drop pos) (k - pos) := by
  unfold find at h
  rw [List.find?_range'_eq_some] at h
  obtain ⟨hoccurs, hmem, hbefore⟩ := h
  rw [List.mem_range'_1] at hmem
  refine ⟨hmem.1, ?_, ?_⟩
  · rw [List.drop_drop, Nat.add_sub_cancel' hmem.1]
    exact List.isPrefixOf_iff_prefix.mp hoccurs
  · intro j hj hoccurs
    rw [List.drop_drop] at hoccurs
    have hnot := hbefore (pos + j) (Nat.le_add_right pos j) (by omega)
    rw [List.isPrefixOf_iff_prefix.mpr hoccurs] at hnot
    cases hnot

/-- `find` finds nothing exactly when the rest has no occurrence in it. -/
theorem find_eq_none_iff {pos : ℕ} (hpos : pos ≤ string.length) :
    find string delim pos = none ↔ ¬ delim <:+: string.drop pos := by
  unfold find
  rw [List.find?_range'_eq_none, infix_iff_prefix_drop]
  constructor
  · rintro hall ⟨k, hk, hoccurs⟩
    rw [List.length_drop] at hk
    rw [List.drop_drop] at hoccurs
    have hnot := hall (pos + k) (Nat.le_add_right pos k) (by omega)
    rw [List.isPrefixOf_iff_prefix.mpr hoccurs] at hnot
    cases hnot
  · intro hnone k hle hlt
    rw [Bool.not_eq_true', ← Bool.not_eq_true, List.isPrefixOf_iff_prefix]
    intro hoccurs
    refine hnone ⟨k - pos, ?_, ?_⟩
    · rw [List.length_drop]
      omega
    · rw [List.drop_drop, Nat.add_sub_cancel' hle]
      exact hoccurs

/-- The pieces so far, `fromPos` being where the rest begins. -/
structure Splitting (string delim : List α) (s : SplitString α) : Prop where
  from_le : s.fromPos ≤ string.length
  joined : delim.intercalate (s.result ++ [string.drop s.fromPos]) = string
  clean : ∀ piece ∈ s.result, ¬ delim <:+: piece
  counted : s.result.length + greedyCount delim 0 (string.drop s.fromPos) =
    greedyCount delim 0 string

/-- Before the loop the whole string is the rest. -/
theorem splitting_start (string delim : List α) : Splitting string delim splitStart where
  from_le := Nat.zero_le _
  joined := List.intercalate_singleton
  clean := fun _ hmem => absurd hmem List.not_mem_nil
  counted := Nat.zero_add _

/-- **One turn** leaves, or takes a piece off the rest, which becomes shorter.
SOURCE: split_string.hpp:9-12 -/
theorem splitTurn_step (hdelim : delim ≠ []) {s : SplitString α} (h : Splitting string delim s) :
    (splitTurn string delim s = .ok (.leave { s with toPos := none }) ∧
        ¬ delim <:+: string.drop s.fromPos) ∨
      ∃ s', splitTurn string delim s = .ok (.again s') ∧ Splitting string delim s' ∧
        string.length - s'.fromPos < string.length - s.fromPos := by
  cases hfind : find string delim s.fromPos with
  | none =>
    left
    refine ⟨?_, (find_eq_none_iff h.from_le).mp hfind⟩
    simp only [splitTurn, hfind]
  | some k =>
    right
    obtain ⟨hle, hfirst⟩ := find_eq_some hfind
    have hpos := List.length_pos_of_ne_nil hdelim
    have hend := hfirst.le_length hdelim
    have hrest : (string.drop s.fromPos).drop (k - s.fromPos + delim.length) =
        string.drop (k + delim.length) := by
      rw [List.drop_drop,
        show s.fromPos + (k - s.fromPos + delim.length) = k + delim.length by omega]
    rw [List.length_drop] at hend
    refine ⟨⟨s.result ++ [(string.drop s.fromPos).take (k - s.fromPos)], k + delim.length, some k⟩,
      ?_, ⟨?_, ?_, ?_, ?_⟩, ?_⟩
    · simp only [splitTurn, hfind, substr, if_pos h.from_le]
      rfl
    · show k + delim.length ≤ string.length
      omega
    · show delim.intercalate (_ ++ [string.drop (k + delim.length)]) = string
      rw [← intercalate_concat_append, ← hrest, hfirst.take_append]
      exact h.joined
    · intro piece hmem
      rcases List.mem_append.mp hmem with hold | hnew
      · exact h.clean piece hold
      · rw [List.mem_singleton.mp hnew]
        exact hfirst.not_infix_take hdelim
    · have hcount := h.counted
      rw [greedyCount_of_firstAt hfirst hdelim, hrest] at hcount
      simp only [List.length_append, List.length_singleton]
      omega
    · show string.length - (k + delim.length) < _
      omega

/-- With a delimiter that is not empty, the loop ends after at most as many
rounds as the string has characters.
SOURCE: split_string.hpp:9-12 -/
theorem split_ends (string : List α) (hdelim : delim ≠ []) :
    ∃ n ≤ string.length, ∃ s t : SplitString α, Splitting string delim s ∧
      splitTurn string delim s = .ok (.leave t) ∧
      EndsAfter (splitTurn string delim) n splitStart t := by
  have hturn : ∀ s, Splitting string delim s →
      (∃ t, splitTurn string delim s = .ok (.leave t)) ∨
        ∃ s', splitTurn string delim s = .ok (.again s') ∧ Splitting string delim s' ∧
          string.length - s'.fromPos < string.length - s.fromPos := by
    intro s hs
    rcases splitTurn_step hdelim hs with ⟨hleave, -⟩ | hagain
    · exact Or.inl ⟨_, hleave⟩
    · exact Or.inr hagain
  exact endsAfter_of_measure (Splitting string delim) (fun s => string.length - s.fromPos) hturn
    (splitting_start string delim)

/-- **`split_string` with a delimiter that is not empty** returns the pieces.
SOURCE: split_string.hpp:5-15 -/
theorem exists_splitString (hdelim : delim ≠ []) {fuel : ℕ} (hfuel : string.length < fuel) :
    ∃ s : SplitString α, Splitting string delim s ∧ ¬ delim <:+: string.drop s.fromPos ∧
      splitString fuel string delim = some (.ok (s.result ++ [string.drop s.fromPos])) := by
  obtain ⟨n, hn, s, t, hs, hleave, hends⟩ := split_ends string hdelim
  rcases splitTurn_step hdelim hs with ⟨hleave', hclean⟩ | ⟨s', hagain, -⟩
  · rw [hleave] at hleave'
    cases hleave'
    have hlast : substr string s.fromPos none = .ok (string.drop s.fromPos) := if_pos hs.from_le
    refine ⟨s, hs, hclean, ?_⟩
    unfold splitString
    rw [hends.runLoop_eq (by omega)]
    simp only [Option.map_some, bind, Except.bind, hlast]
    rfl
  · rw [hleave] at hagain
    cases hagain

/-- **The empty delimiter** occurs where the search begins, so the loop never
ends.
SOURCE: split_string.hpp:9-12 -/
theorem split_never_ends (string : List α) {n : ℕ} {t : SplitString α} :
    ¬ EndsAfter (splitTurn string []) n splitStart t := by
  apply not_endsAfter fun s : SplitString α => s.fromPos = 0
  · intro s next hpos hturn
    have hfind : find string [] 0 = some 0 := by
      unfold find
      rw [List.find?_range'_eq_some]
      refine ⟨List.isPrefixOf_nil_left, ?_, fun j _ hj => absurd hj (Nat.not_lt_zero j)⟩
      rw [List.mem_range'_1]
      omega
    simp only [splitTurn, hpos, hfind, substr, if_pos (Nat.zero_le _)] at hturn
    cases hturn
    exact ⟨_, rfl, rfl⟩
  · rfl

end Ctools.Analysis

open Ctools.Library Ctools.Program in
/-- **Splitting is undone by joining.**  For every string and every delimiter
that is not empty, `split_string` returns: its pieces, at least one, joined with
the delimiter are the string; none of them has the delimiter in it; there is one
more of them than there are occurrences, counted greedily from the left; and no
`substr` was asked for a position beyond the end, where it throws.
SOURCE: split_string.hpp:5-15 -/
theorem Ctools.Analysis.splitString_joins {α : Type} [DecidableEq α] (string delim : List α)
    (hdelim : delim ≠ []) (fuel : ℕ) (hfuel : string.length < fuel) :
    ∃ pieces, splitString fuel string delim = some (.ok pieces) ∧ pieces ≠ [] ∧
      delim.intercalate pieces = string ∧ (∀ piece ∈ pieces, ¬ delim <:+: piece) ∧
      pieces.length = greedyCount delim 0 string + 1 := by
  obtain ⟨s, hs, hclean, hsplit⟩ := Ctools.Analysis.exists_splitString hdelim hfuel
  refine ⟨_, hsplit, by simp, hs.joined, ?_, ?_⟩
  · intro piece hmem
    rcases List.mem_append.mp hmem with hold | hlast
    · exact hs.clean piece hold
    · rw [List.mem_singleton.mp hlast]
      exact hclean
  · have hcount := hs.counted
    rw [greedyCount_of_absent hclean] at hcount
    simp only [List.length_append, List.length_singleton]
    omega

open Ctools.Library Ctools.Program in
/-- A delimiter that overlaps itself: of `aaabaa`, the pieces between two `aa`. -/
theorem Ctools.Analysis.splitString_joins_overlapping :
    ∃ pieces, splitString 7 "aaabaa".toList "aa".toList = some (.ok pieces) ∧ pieces ≠ [] ∧
      "aa".toList.intercalate pieces = "aaabaa".toList ∧
      (∀ piece ∈ pieces, ¬ "aa".toList <:+: piece) ∧
      pieces.length = greedyCount "aa".toList 0 "aaabaa".toList + 1 :=
  splitString_joins "aaabaa".toList "aa".toList (by decide) 7 (by decide)

open Ctools.Library Ctools.Program in
/-- **When the search loop ends.**  It ends after at most `string.length() + 1`
rounds if and only if the delimiter is not empty.
SOURCE: split_string.hpp:9-12 -/
theorem Ctools.Analysis.split_loop_ends_iff {α : Type} [DecidableEq α] (string delim : List α) :
    (∃ n ≤ string.length + 1, ∃ t, EndsAfter (splitTurn string delim) n splitStart t) ↔
      delim ≠ [] := by
  constructor
  · rintro ⟨n, -, t, hends⟩ hempty
    rw [hempty] at hends
    exact Ctools.Analysis.split_never_ends string hends
  · intro hdelim
    obtain ⟨n, hn, -, t, -, -, hends⟩ := Ctools.Analysis.split_ends string hdelim
    exact ⟨n, Nat.le_succ_of_le hn, t, hends⟩

open Ctools.Library Ctools.Program in
/-- Splitting `ab` at the empty string never ends. -/
theorem Ctools.Analysis.split_loop_never_ends :
    ¬ ∃ n t, EndsAfter (splitTurn "ab".toList "".toList) n splitStart t := by
  rintro ⟨n, t, hends⟩
  exact split_never_ends "ab".toList hends
