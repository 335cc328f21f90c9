import Mathlib

/-!
# Circular doubly linked lists

Nodes are linked by `next` and `prev`, either of which may be `NULL`.  A list with a
head is circular if one gets from the head through its nodes back to the head, and by
`prev` the same way back (`Circular`).  A node that is not on the list is inserted
after the head by four writes (`Circular.insert`), and a node that is on it is taken off
by two (`Circular.remove`).  When a node that is on the list is cleared and inserted once
more, one gets from the head into a ring that does not lead back (`Lasso`,
`Circular.insert_again`), and the list is circular no more (`Lasso.not_circular`).
-/

set_option autoImplicit false

namespace Ctools.Library

/-- The links of all nodes; `none` is `NULL`. -/
structure Links (ν : Type) where
  next : ν → Option ν
  prev : ν → Option ν

namespace Links

variable {ν : Type}

/-- `b` follows `a`. -/
def Follows (l : Links ν) (a b : ν) : Prop := l.next a = some b

/-- `b` follows `a`, and `a` precedes `b`. -/
def Joined (l : Links ν) (a b : ν) : Prop := l.next a = some b ∧ l.prev b = some a

/-- The nodes of a circular list, from the head on. -/
structure Circular (l : Links ν) (head : ν) (nodes : List ν) : Prop where
  distinct : (head :: nodes).Nodup
  joined : (head :: (nodes ++ [head])).IsChain l.Joined

/-- From the head one gets through `nodes` back to one of them. -/
structure Lasso (l : Links ν) (head : ν) (nodes : List ν) : Prop where
  off : head ∉ nodes
  back : ∃ b ∈ nodes, (head :: (nodes ++ [b])).IsChain l.Follows

variable {l l' : Links ν} {head : ν} {nodes : List ν}

/-- The first node follows the head, or the head itself. -/
theorem Circular.next_head (h : l.Circular head nodes) :
    l.next head = some (nodes.headD head) := by
  have hjoined := h.joined
  cases nodes with
  | nil => exact (List.isChain_cons_cons.mp hjoined).1.1
  | cons first rest => exact (List.isChain_cons_cons.mp hjoined).1.1

/-- A node of the list is followed by the next one, or the last by the head. -/
theorem Circular.next_node {before after : List ν} {a : ν}
    (h : l.Circular head (before ++ a :: after)) : l.next a = some (after.headD head) := by
  have hjoined : (head :: before ++ a :: (after ++ [head])).IsChain l.Joined := by
    simpa using h.joined
  have hbehind := (List.isChain_split.mp hjoined).2
  cases after with
  | nil => exact (List.isChain_cons_cons.mp hbehind).1.1
  | cons next rest => exact (List.isChain_cons_cons.mp hbehind).1.1

/-- A list stays circular when only nodes that are not on it are written. -/
theorem Circular.congr (h : l.Circular head nodes)
    (hnext : ∀ a ∈ head :: nodes, l'.next a = l.next a)
    (hprev : ∀ a ∈ head :: nodes, l'.prev a = l.prev a) : l'.Circular head nodes := by
  refine ⟨h.distinct, h.joined.imp_of_mem_imp ?_⟩
  have hmem : ∀ a ∈ head :: (nodes ++ [head]), a ∈ head :: nodes := by
    intro a ha
    simpa [or_comm, or_assoc] using ha
  rintro a b ha hb ⟨hab, hba⟩
  exact ⟨(hnext a (hmem a ha)).trans hab, (hprev b (hmem b hb)).trans hba⟩

/-- A relation between the elements of a chain may be weakened without looking at what
follows the last one. -/
theorem isChain_snoc_imp {R S : ν → ν → Prop} {last : ν}
    (himp : ∀ a ∈ nodes, ∀ b ∈ nodes ++ [last], R a b → S a b)
    (hchain : (nodes ++ [last]).IsChain R) : (nodes ++ [last]).IsChain S := by
  induction nodes with
  | nil => exact List.isChain_singleton last
  | cons first rest ih =>
    have hrest : (rest ++ [last]).IsChain S := by
      refine ih ?_ hchain.tail
      intro a ha b hb
      exact himp a (List.mem_cons_of_mem _ ha) b (List.mem_cons_of_mem _ hb)
    cases rest with
    | nil =>
      have hab := (List.isChain_cons_cons.mp hchain).1
      exact List.isChain_cons_cons.mpr ⟨himp first List.mem_cons_self last (by simp) hab, hrest⟩
    | cons second rest =>
      have hab := (List.isChain_cons_cons.mp hchain).1
      exact List.isChain_cons_cons.mpr ⟨himp first List.mem_cons_self second (by simp) hab, hrest⟩

/-- All but the last node of a chain are followed by a later one. -/
theorem exists_follows {last : ν} (hchain : (nodes ++ [last]).IsChain l.Follows) :
    ∀ a ∈ nodes, ∃ b ∈ (nodes ++ [last]).tail, l.Follows a b := by
  induction nodes with
  | nil =>
    intro a ha
    exact absurd ha List.not_mem_nil
  | cons first rest ih =>
    intro a ha
    have hrest : (rest ++ [last]).IsChain l.Follows := hchain.tail
    rcases List.mem_cons.mp ha with rfl | ha
    · cases rest with
      | nil => exact ⟨last, List.mem_singleton_self last, (List.isChain_cons_cons.mp hchain).1⟩
      | cons second rest => exact ⟨second, List.mem_cons_self, (List.isChain_cons_cons.mp hchain).1⟩
    · obtain ⟨b, hb, hab⟩ := ih hrest a ha
      exact ⟨b, List.mem_of_mem_tail hb, hab⟩

/-- The nodes of a ring are followed by nodes of the ring, and so is the head. -/
theorem Lasso.follows (h : l.Lasso head nodes) :
    ∀ a ∈ head :: nodes, ∃ b ∈ nodes, l.next a = some b := by
  obtain ⟨back, hback, hchain⟩ := h.back
  intro a ha
  have hall : (head :: nodes ++ [back]).IsChain l.Follows := hchain
  obtain ⟨b, hb, hab⟩ := exists_follows hall a ha
  refine ⟨b, ?_, hab⟩
  rcases List.mem_append.mp hb with hb | hb
  · exact hb
  · exact List.mem_singleton.mp hb ▸ hback

/-- Where a ring is entered, the list is not circular. -/
theorem Lasso.not_circular (h : l.Lasso head nodes) (nodes' : List ν) :
    ¬ l.Circular head nodes' := by
  intro hcircular
  -- On the way back to the head the chain is always at a node of the ring.
  have hring : ∀ (rest : List ν) (a : ν), a ∈ head :: nodes → (a :: rest).IsChain l.Joined →
      ∀ b ∈ rest, b ∈ nodes := by
    intro rest
    induction rest with
    | nil =>
      intro a _ _ b hb
      exact absurd hb List.not_mem_nil
    | cons c rest ih =>
      intro a ha hchain b hb
      obtain ⟨⟨hac, -⟩, hrest⟩ := List.isChain_cons_cons.mp hchain
      obtain ⟨c', hc, hac'⟩ := h.follows a ha
      rw [hac, Option.some.injEq] at hac'
      subst hac'
      rcases List.mem_cons.mp hb with rfl | hb
      · exact hc
      · exact ih c (List.mem_cons_of_mem _ hc) hrest b hb
  exact h.off (hring (nodes' ++ [head]) head List.mem_cons_self hcircular.joined head
    (List.mem_append_right _ (List.mem_singleton_self head)))

section Writes

variable [DecidableEq ν] {n : ν}

/-- The `next` of a node is written. -/
def setNext (l : Links ν) (a : ν) (b : Option ν) : Links ν :=
  { l with next := Function.update l.next a b }

/-- The `prev` of a node is written. -/
def setPrev (l : Links ν) (a : ν) (b : Option ν) : Links ν :=
  { l with prev := Function.update l.prev a b }

/-- Put `n` between two nodes. -/
def insert (l : Links ν) (n prev next : ν) : Links ν :=
  (((l.setPrev next (some n)).setNext n (some next)).setPrev n (some prev)).setNext prev (some n)

/-- Make two nodes point to each other. -/
def remove (l : Links ν) (prev next : ν) : Links ν :=
  (l.setPrev next (some prev)).setNext prev (some next)

/-- Overwrite both links of a node with `NULL`. -/
def clear (l : Links ν) (n : ν) : Links ν := (l.setNext n none).setPrev n none

/-- What `next` is behind an insertion. -/
theorem next_insert (prev next a : ν) : (l.insert n prev next).next a =
    if a = prev then some n else if a = n then some next else l.next a := by
  unfold insert setNext setPrev
  simp only [Function.update_apply]

/-- What `prev` is behind an insertion. -/
theorem prev_insert (prev next a : ν) : (l.insert n prev next).prev a =
    if a = n then some prev else if a = next then some n else l.prev a := by
  unfold insert setNext setPrev
  simp only [Function.update_apply]

/-- What `next` is behind a removal. -/
theorem next_remove (prev next a : ν) :
    (l.remove prev next).next a = if a = prev then some next else l.next a := by
  unfold remove setNext setPrev
  simp only [Function.update_apply]

/-- What `prev` is behind a removal. -/
theorem prev_remove (prev next a : ν) :
    (l.remove prev next).prev a = if a = next then some prev else l.prev a := by
  unfold remove setNext setPrev
  simp only [Function.update_apply]

/-- What `next` is behind a clearance. -/
theorem next_clear (a : ν) : (l.clear n).next a = if a = n then none else l.next a := by
  unfold clear setNext setPrev
  simp only [Function.update_apply]

/-- What `prev` is behind a clearance. -/
theorem prev_clear (a : ν) : (l.clear n).prev a = if a = n then none else l.prev a := by
  unfold clear setNext setPrev
  simp only [Function.update_apply]

/-- What is joined elsewhere stays joined. -/
theorem Joined.insert {prev next a b : ν} (h : l.Joined a b) (hprev : a ≠ prev) (ha : a ≠ n)
    (hb : b ≠ n) (hnext : b ≠ next) : (l.insert n prev next).Joined a b := by
  constructor
  · rw [next_insert, if_neg hprev, if_neg ha]
    exact h.1
  · rw [prev_insert, if_neg hb, if_neg hnext]
    exact h.2

/-- Writing a node that is not on the list. -/
theorem Circular.clear (h : l.Circular head nodes) (hn : n ∉ head :: nodes) :
    (l.clear n).Circular head nodes := by
  refine h.congr ?_ ?_
  · intro a ha
    rw [next_clear, if_neg (ne_of_mem_of_not_mem ha hn)]
  · intro a ha
    rw [prev_clear, if_neg (ne_of_mem_of_not_mem ha hn)]

/-- A node that is not on the list is put at its front. -/
theorem Circular.insert (h : l.Circular head nodes) (hn : n ∉ head :: nodes) :
    (l.insert n head (nodes.headD head)).Circular head (n :: nodes) := by
  have hdistinct := h.distinct
  have hjoined := h.joined
  rw [List.mem_cons, not_or] at hn
  obtain ⟨hhead, hnodes⟩ := hn
  refine ⟨?_, ?_⟩
  · simp only [List.nodup_cons, List.mem_cons, not_or] at hdistinct ⊢
    exact ⟨⟨Ne.symm hhead, hdistinct.1⟩, hnodes, hdistinct.2⟩
  · have hfront : (l.insert n head (nodes.headD head)).Joined head n := by
      constructor
      · rw [next_insert, if_pos rfl]
      · rw [prev_insert, if_pos rfl]
    cases nodes with
    | nil =>
      refine List.isChain_cons_cons.mpr ⟨hfront, List.isChain_pair.mpr ⟨?_, ?_⟩⟩
      · rw [next_insert, if_neg hhead, if_pos rfl]
        rfl
      · rw [prev_insert, if_neg (Ne.symm hhead)]
        exact if_pos rfl
    | cons first rest =>
      rw [List.mem_cons, not_or] at hnodes
      obtain ⟨hfirst, hrest⟩ := hnodes
      refine List.isChain_cons_cons.mpr ⟨hfront, List.isChain_cons_cons.mpr ⟨⟨?_, ?_⟩, ?_⟩⟩
      · rw [next_insert, if_neg hhead, if_pos rfl]
        rfl
      · rw [prev_insert, if_neg (Ne.symm hfirst)]
        exact if_pos rfl
      · obtain ⟨hheadFirst, hchain⟩ := List.isChain_cons_cons.mp hjoined
        have hheadBehind : head ∉ first :: rest := (List.nodup_cons.mp hdistinct).1
        have hnBehind : n ∉ first :: rest ++ [head] := by
          simp [hhead, hfirst, hrest]
        show (first :: rest ++ [head]).IsChain _
        refine isChain_snoc_imp ?_ hchain
        rintro a ha b hb ⟨hab, hba⟩
        have hahead : a ≠ head := ne_of_mem_of_not_mem ha hheadBehind
        have hbfirst : b ≠ first := by
          rintro rfl
          exact hahead (Option.some.inj (hba.symm.trans hheadFirst.2))
        have han : a ≠ n := ne_of_mem_of_not_mem (List.mem_append_left _ ha) hnBehind
        have hbn : b ≠ n := ne_of_mem_of_not_mem hb hnBehind
        exact Joined.insert ⟨hab, hba⟩ hahead han hbn hbfirst

/-- What is joined away from the two nodes stays joined. -/
theorem Joined.remove {prev next a b : ν} (h : l.Joined a b) (ha : a ≠ prev) (hb : b ≠ next) :
    (l.remove prev next).Joined a b := by
  constructor
  · rw [next_remove, if_neg ha]
    exact h.1
  · rw [prev_remove, if_neg hb]
    exact h.2

/-- A node that is on the list is taken off it: the nodes around it are made to point to
each other. -/
theorem Circular.remove {before after : List ν} (h : l.Circular head (before ++ n :: after)) :
    ∃ prev ∈ head :: before, l.prev n = some prev ∧ l.next n = some (after.headD head) ∧
      (l.remove prev (after.headD head)).Circular head (before ++ after) := by
  have hperm : (head :: (before ++ n :: after)).Perm (n :: head :: (before ++ after)) :=
    (List.perm_middle.cons head).trans (List.Perm.swap n head _)
  obtain ⟨hn, hdistinct⟩ := List.nodup_cons.mp (hperm.nodup_iff.mp h.distinct)
  obtain ⟨init, prev, hfront⟩ : ∃ init prev, head :: before = init ++ [prev] :=
    ⟨_, _, (List.dropLast_append_getLast (List.cons_ne_nil head before)).symm⟩
  obtain ⟨rest, hback⟩ : ∃ rest, after ++ [head] = after.headD head :: rest := by
    cases after with
    | nil => exact ⟨[], rfl⟩
    | cons next rest => exact ⟨rest ++ [head], rfl⟩
  have hsplit : (head :: before ++ after).Nodup := hdistinct
  rw [hfront, List.append_assoc] at hsplit
  have hprev : prev ∈ head :: before := by simp [hfront]
  have hjoined := h.joined
  rw [List.append_assoc, List.cons_append, hback, ← List.cons_append, hfront, List.append_assoc,
    List.singleton_append, List.isChain_append_cons_cons, List.isChain_cons_cons] at hjoined
  obtain ⟨hinit, hbefore, hafter, htail⟩ := hjoined
  -- Only the removed node preceded the one behind it.
  have hbehind : ∀ a ∈ head :: (before ++ after), ∀ b, l.Joined a b → b ≠ after.headD head := by
    rintro a ha b hab rfl
    obtain rfl := Option.some.inj (hab.2.symm.trans hafter.2)
    exact hn ha
  refine ⟨prev, hprev, hbefore.2, hafter.1, hdistinct, ?_⟩
  rw [List.append_assoc, hback, ← List.cons_append, hfront, List.append_assoc,
    List.singleton_append, List.isChain_append_cons_cons]
  refine ⟨isChain_snoc_imp ?_ hinit, ⟨?_, ?_⟩, ?_⟩
  · intro a ha b _ hab
    have hmem : a ∈ head :: before := by simp [hfront, ha]
    have hne : a ≠ prev := by
      rintro rfl
      exact List.disjoint_of_nodup_append hsplit ha (by simp)
    exact hab.remove hne (hbehind a (List.mem_append_left after hmem) b hab)
  · rw [next_remove, if_pos rfl]
  · rw [prev_remove, if_pos rfl]
  · rw [← hback] at htail ⊢
    refine isChain_snoc_imp ?_ htail
    intro a ha b _ hab
    have hne : a ≠ prev := by
      rintro rfl
      exact List.disjoint_of_nodup_append (show (head :: before ++ after).Nodup from hdistinct)
        hprev ha
    exact hab.remove hne (hbehind a (List.mem_append_right (head :: before) ha) b hab)

/-- A node that is on the list, cleared and put at its front once more: the nodes that
stood before it lead to it. -/
theorem Circular.insert_again {before after : List ν}
    (h : l.Circular head (before ++ n :: after)) :
    ((l.clear n).insert n head ((before ++ n :: after).headD head)).Lasso head (n :: before) := by
  have hdistinct := h.distinct
  have hjoined := h.joined
  have hn : n ∉ head :: before := by
    simp only [List.nodup_cons, List.nodup_append, List.mem_append, List.mem_cons] at hdistinct
    grind
  have hhead : head ∉ n :: before := by
    simp only [List.nodup_cons, List.mem_append, List.mem_cons, not_or] at hdistinct ⊢
    exact ⟨hdistinct.1.2.1, hdistinct.1.1⟩
  refine ⟨hhead, n, List.mem_cons_self, ?_⟩
  have hfront : ((l.clear n).insert n head ((before ++ n :: after).headD head)).Follows head n := by
    unfold Follows
    rw [next_insert, if_pos rfl]
  have hnhead : n ≠ head := ne_of_mem_of_not_mem List.mem_cons_self hhead
  refine List.isChain_cons_cons.mpr ⟨hfront, ?_⟩
  have hnext : ((l.clear n).insert n head ((before ++ n :: after).headD head)).Follows n
      ((before ++ [n]).headD head) := by
    unfold Follows
    rw [next_insert, if_neg hnhead, if_pos rfl]
    cases before <;> rfl
  have hold : (head :: (before ++ [n])).IsChain l.Joined := by
    rw [List.append_assoc, List.cons_append, List.isChain_cons_split] at hjoined
    exact hjoined.1
  cases before with
  | nil => exact List.isChain_pair.mpr hnext
  | cons first rest =>
    refine List.isChain_cons_cons.mpr ⟨hnext, ?_⟩
    show (first :: rest ++ [n]).IsChain _
    refine isChain_snoc_imp ?_ (List.isChain_cons_cons.mp hold).2
    rintro a ha b - ⟨hab, -⟩
    have hahead : a ≠ head := ne_of_mem_of_not_mem (List.mem_cons_of_mem _ ha) hhead
    have han : a ≠ n := ne_of_mem_of_not_mem (List.mem_cons_of_mem _ ha) hn
    unfold Follows
    rw [next_insert, if_neg hahead, if_neg han, next_clear, if_neg han, hab]

end Writes

end Links

end Ctools.Library
