import Mathlib

/-!
# Lists as tables

A list as a table of threads or calls, each known by its position.  One entry
changes (`List.set`) or one is added at the end, and what all entries hold
together changes by what that entry held and holds (`perm_flatMap_set`).
-/

set_option autoImplicit false

namespace Ctools.Library

variable {α β : Type}

/-- An entry of a changed table is the new one or an old one. -/
theorem getElem?_set_cases {l : List α} {i j : ℕ} {b c : α} (h : (l.set i b)[j]? = some c) :
    (j = i ∧ c = b) ∨ (j ≠ i ∧ l[j]? = some c) := by
  by_cases hji : j = i
  · subst hji
    rw [List.getElem?_set_self'] at h
    obtain ⟨d, -, hd⟩ := Option.map_eq_some_iff.mp h
    exact .inl ⟨rfl, hd.symm⟩
  · rw [List.getElem?_set_ne (Ne.symm hji)] at h
    exact .inr ⟨hji, h⟩

/-- An entry of a longer table is the new one or an old one. -/
theorem getElem?_snoc_cases {l : List α} {j : ℕ} {b c : α} (h : (l ++ [b])[j]? = some c) :
    (j = l.length ∧ c = b) ∨ l[j]? = some c := by
  by_cases hj : j < l.length
  · rw [List.getElem?_append_left hj] at h
    exact .inr h
  · rw [List.getElem?_append_right (by omega), List.getElem?_singleton] at h
    split at h
    · exact .inl ⟨by omega, (Option.some.inj h).symm⟩
    · cases h

/-- What the entries of a table hold together is what one entry holds and the rest,
and a change of that entry leaves the rest. -/
theorem perm_flatMap_set {l : List α} {i : ℕ} {a : α} (h : l[i]? = some a) (f : α → List β) :
    (l.flatMap f).Perm (f a ++ (l.eraseIdx i).flatMap f) ∧
      ∀ b, ((l.set i b).flatMap f).Perm (f b ++ (l.eraseIdx i).flatMap f) := by
  obtain ⟨hi, rfl⟩ := List.getElem?_eq_some_iff.mp h
  have hold := (List.getElem_cons_eraseIdx_perm hi).flatMap_right f
  rw [List.flatMap_cons] at hold
  refine ⟨hold.symm, fun b => ?_⟩
  have hnew := (List.set_perm_cons_eraseIdx hi b).flatMap_right f
  rwa [List.flatMap_cons] at hnew

/-- Where no two entries hold the same, what one holds another does not. -/
theorem not_mem_of_nodup_flatMap {l : List α} {f : α → List β} (h : (l.flatMap f).Nodup) {i j : ℕ}
    {a b : α} (hi : l[i]? = some a) (hj : l[j]? = some b) (hne : i ≠ j) {x : β} (hx : x ∈ f a) :
    x ∉ f b := by
  obtain ⟨hi', rfl⟩ := List.getElem?_eq_some_iff.mp hi
  obtain ⟨hj', rfl⟩ := List.getElem?_eq_some_iff.mp hj
  have hpairs := List.pairwise_iff_getElem.mp (List.nodup_flatMap.mp h).2
  rcases Nat.lt_or_gt_of_ne hne with hlt | hgt
  · exact fun hx' => hpairs i j hi' hj' hlt hx hx'
  · exact fun hx' => hpairs j i hj' hi' hgt hx' hx

/-- The entry that is found is the one that is erased. -/
theorem perm_of_find? {l : List α} {q : α → Bool} {a : α} (h : l.find? q = some a) :
    l.Perm (a :: l.eraseP q) := by
  induction l with
  | nil => cases h
  | cons b l ih =>
    cases hb : q b with
    | true =>
      rw [List.find?_cons_of_pos hb, Option.some.injEq] at h
      rw [List.eraseP_cons_of_pos hb, h]
    | false =>
      have hneg : ¬ q b = true := by simp [hb]
      rw [List.find?_cons_of_neg hneg] at h
      rw [List.eraseP_cons_of_neg hneg]
      exact ((ih h).cons b).trans (List.Perm.swap a b _)

/-- An entry that is erased is not the first of those asked for, if it is none of them. -/
theorem find?_eraseP_of_not {l : List α} {q r : α → Bool}
    (hdisjoint : ∀ a, r a = true → q a = false) :
    (l.eraseP r).find? q = l.find? q := by
  induction l with
  | nil => rfl
  | cons b l ih =>
    cases hr : r b with
    | true =>
      have hneg : ¬ q b = true := by simp [hdisjoint b hr]
      rw [List.eraseP_cons_of_pos hr, List.find?_cons_of_neg hneg]
    | false =>
      have hneg : ¬ r b = true := by simp [hr]
      rw [List.eraseP_cons_of_neg hneg, List.find?_cons, List.find?_cons, ih]

/-- Where no two entries have the same key, no entry has the key of the one erased. -/
theorem find?_eraseP_self [DecidableEq β] {l : List α} {key : α → β} (hdistinct : (l.map key).Nodup)
    (k : β) : (l.eraseP fun a => key a = k).find? (fun a => key a = k) = none := by
  induction l with
  | nil => rfl
  | cons b l ih =>
    rw [List.map_cons, List.nodup_cons] at hdistinct
    by_cases hb : key b = k
    · rw [List.eraseP_cons_of_pos (by simpa using hb), List.find?_eq_none]
      intro a ha hak
      apply hdistinct.1
      rw [hb, ← of_decide_eq_true hak]
      exact List.mem_map_of_mem ha
    · rw [List.eraseP_cons_of_neg (by simpa using hb), List.find?_cons_of_neg (by simpa using hb)]
      exact ih hdistinct.2

end Ctools.Library
