import Ctools.Analysis.LinuxListOps

/-!
# A queue on a ring

`msg_queue` is used by three functions of `linux_list.h`: a node is put at the back, the
first one is read and taken off, and the ring is asked whether it is empty.  Each is told
with what it writes, since what it does not write belongs to others.
-/

set_option autoImplicit false

namespace Ctools.Analysis

open Ctools.Library Ctools.Library.Links Ctools.Program

variable {ν : Type} [DecidableEq ν] {l : Links ν} {h n : ν} {xs : List ν}

/-- A node is put at the back; `next` is written of the ring and of the node only. -/
theorem ring_addTail (hring : l.Circular h xs) (hn : n ∉ h :: xs) :
    ∃ l', listAddTail l n h = some l' ∧ l'.Circular h (xs ++ [n]) ∧
      ∀ a, a ∉ h :: xs → a ≠ n → l'.next a = l.next a := by
  obtain ⟨P, p, place, hprev⟩ := exists_back hring
  have hpring : p ∈ h :: xs := by simpa using (place_mem place).1
  refine ⟨listAddBetween l n p h, by rw [listAddTail, hprev]; rfl, ?_, fun a ha hne => ?_⟩
  · have hring' : l.Circular h (xs ++ []) := by rwa [List.append_nil]
    exact hring'.insert_between (B := []) place (by rwa [List.append_nil])
  · have hap : a ≠ p := fun heq => ha (heq ▸ hpring)
    exact (Function.update_of_ne hap _ _).trans (Function.update_of_ne hne _ _)

/-- The ring is empty if no node is on it. -/
theorem ring_empty (hring : l.Circular h xs) : listEmpty l h = true ↔ xs = [] := by
  rw [listEmpty, hring.next_head, beq_iff_eq, Option.some_inj]
  constructor
  · intro heq
    cases xs with
    | nil => rfl
    | cons first rest =>
      have hfirst : first = h := heq
      subst hfirst
      exact absurd List.mem_cons_self (List.nodup_cons.mp hring.distinct).1
  · rintro rfl
    rfl

/-- The first node is read and taken off; `next` is written of the ring only. -/
theorem ring_delFirst (hring : l.Circular h (n :: xs)) :
    l.next h = some n ∧ ∃ l', listDel l n = some l' ∧ l'.Circular h xs ∧
      ∀ a, a ∉ h :: n :: xs → l'.next a = l.next a := by
  refine ⟨hring.next_head, ?_⟩
  have hsub : (h :: xs).Sublist (h :: n :: xs) :=
    List.Sublist.cons_cons h (List.sublist_cons_self n xs)
  have hn : n ∉ h :: xs := by
    have hdistinct := hring.distinct
    simp only [List.nodup_cons, List.mem_cons, not_or] at hdistinct ⊢
    exact ⟨Ne.symm hdistinct.1.1, hdistinct.2.1⟩
  obtain ⟨P, p, q, Q, place⟩ := exists_place (A := []) (hring.distinct.sublist hsub)
  obtain ⟨hprev, hnext⟩ := Circular.prev_next (A := []) hring place
  have hpring : p ∈ h :: xs := (place_mem place).1
  refine ⟨(listDelBetween l p q).clear n, by rw [listDel, hprev, hnext]; rfl, ?_, fun a ha => ?_⟩
  · exact (Circular.take_out (A := []) hring place).clear hn
  · have han : a ≠ n := fun heq => ha (heq ▸ List.mem_cons_of_mem _ List.mem_cons_self)
    have hap : a ≠ p := fun heq => ha (hsub.subset (heq ▸ hpring))
    exact (Function.update_of_ne han _ _).trans (Function.update_of_ne hap _ _)

end Ctools.Analysis
