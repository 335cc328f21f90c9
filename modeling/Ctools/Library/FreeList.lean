import Mathlib

/-!
# A list of free nodes

The free nodes are threaded through a word that each node has; outside the list the word
may be used for anything (`Threaded.congr`).  A node is put in front by two writes
(`Threaded.push`), and the first one is taken off by a read (`Threaded.pop`).
-/

set_option autoImplicit false

namespace Ctools.Library

variable {ν : Type}

/-- From `first` on, `next` leads through `nodes` to `null`. -/
def Threaded (next : ν → Option ν) (null : ν) : ν → List ν → Prop
  | first, [] => first = null
  | first, a :: nodes => first = a ∧ a ≠ null ∧ ∃ b, next a = some b ∧ Threaded next null b nodes

variable {next next' : ν → Option ν} {null first : ν} {nodes : List ν}

/-- A list does not see what the other nodes hold. -/
theorem Threaded.congr (h : Threaded next null first nodes)
    (hsame : ∀ a ∈ nodes, next' a = next a) : Threaded next' null first nodes := by
  induction nodes generalizing first with
  | nil => exact h
  | cons a nodes ih =>
    obtain ⟨hfirst, hnull, b, hb, hrest⟩ := h
    refine ⟨hfirst, hnull, b, (hsame a List.mem_cons_self).trans hb, ?_⟩
    exact ih hrest fun c hc => hsame c (List.mem_cons_of_mem a hc)

/-- A node is put in front. -/
theorem Threaded.push [DecidableEq ν] (h : Threaded next null first nodes) {a : ν}
    (hnull : a ≠ null) (ha : a ∉ nodes) :
    Threaded (Function.update next a (some first)) null a (a :: nodes) := by
  refine ⟨rfl, hnull, first, Function.update_self .., h.congr fun b hb => ?_⟩
  exact Function.update_of_ne (ne_of_mem_of_not_mem hb ha) _ _

/-- The first node, if there is one, and the list behind it. -/
theorem Threaded.pop (h : Threaded next null first nodes) (hfirst : first ≠ null) :
    ∃ b rest, nodes = first :: rest ∧ next first = some b ∧ Threaded next null b rest := by
  cases nodes with
  | nil => exact absurd h hfirst
  | cons a nodes =>
    obtain ⟨rfl, -, b, hb, hrest⟩ := h
    exact ⟨b, nodes, rfl, hb, hrest⟩

/-- Without a first node there is none. -/
theorem Threaded.eq_nil (h : Threaded next null null nodes) : nodes = [] := by
  cases nodes with
  | nil => rfl
  | cons a nodes => exact absurd h.1.symm h.2.1

end Ctools.Library
