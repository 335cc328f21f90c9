import Ctools.Library.CircularList

/-!
# Cutting and joining circular lists

Two nodes are joined by two writes (`Links.join`): the one is made to follow the other.  What is
done to circular lists with a head is done by joins, and what is joined elsewhere stays joined
(`Links.chain_join`).  The rules say which joins put a node between two others
(`Circular.insert_between`), put the nodes of one list there (`Circular.splice`), take the front
of a list off to be a list of its own (`Circular.cut`), and put another head in the place of the
head (`Circular.replace_head`).

The place between two nodes is given by what stands before it, from the head on, and what stands
behind it, to the head again.
-/

set_option autoImplicit false

namespace Ctools.Library

namespace Links

variable {ν : Type} [DecidableEq ν] {l : Links ν} {head n p q : ν} {nodes A B P Q : List ν}

/-- Make `b` follow `a`. -/
def join (l : Links ν) (a b : ν) : Links ν := (l.setNext a (some b)).setPrev b (some a)

/-- What `next` is behind a join. -/
theorem next_join (a b c : ν) : (l.join a b).next c = if c = a then some b else l.next c := by
  unfold join setNext setPrev
  simp only [Function.update_apply]

/-- What `prev` is behind a join. -/
theorem prev_join (a b c : ν) : (l.join a b).prev c = if c = b then some a else l.prev c := by
  unfold join setNext setPrev
  simp only [Function.update_apply]

/-- What is joined is linked both ways. -/
theorem joined_join (a b : ν) : (l.join a b).Joined a b :=
  ⟨by rw [next_join, if_pos rfl], by rw [prev_join, if_pos rfl]⟩

/-- Other links stay. -/
theorem Joined.join {a b : ν} (h : l.Joined a b) (ha : a ≠ p) (hb : b ≠ q) :
    (l.join p q).Joined a b :=
  ⟨by rw [next_join, if_neg ha]; exact h.1, by rw [prev_join, if_neg hb]; exact h.2⟩

/-- **What is joined elsewhere** stays joined. -/
theorem chain_join (h : nodes.IsChain l.Joined) (hp : p ∉ nodes.dropLast) (hq : q ∉ nodes.tail) :
    nodes.IsChain (l.join p q).Joined := by
  induction nodes with
  | nil => exact .nil
  | cons a nodes ih =>
    cases nodes with
    | nil => exact .singleton a
    | cons b nodes =>
      obtain ⟨hab, hrest⟩ := List.isChain_cons_cons.mp h
      rw [List.dropLast_cons_cons, List.mem_cons, not_or] at hp
      rw [List.tail_cons, List.mem_cons, not_or] at hq
      exact List.isChain_cons_cons.mpr ⟨hab.join (Ne.symm hp.1) (Ne.symm hq.1), ih hrest hp.2 hq.2⟩

/-- **Two chains are joined** at their ends. -/
theorem chain_paste (hfirst : (P ++ [p]).IsChain l.Joined) (hsecond : (q :: Q).IsChain l.Joined)
    (hpP : p ∉ P) (hqP : q ∉ (P ++ [p]).tail) (hpQ : p ∉ (q :: Q).dropLast) (hqQ : q ∉ Q) :
    (P ++ p :: q :: Q).IsChain (l.join p q).Joined := by
  refine List.isChain_append_cons_cons.mpr ⟨chain_join hfirst ?_ hqP, joined_join p q,
    chain_join hsecond hpQ hqQ⟩
  rwa [List.dropLast_concat]

/-- What stands around a place, each but once. -/
structure Place (head : ν) (A B P Q : List ν) (p q : ν) : Prop where
  before : head :: A = P ++ [p]
  behind : B ++ [head] = q :: Q
  distinct : (head :: (A ++ B)).Nodup

omit [DecidableEq ν] in
/-- A split of the list is a place in the ring. -/
theorem exists_place (h : (head :: (A ++ B)).Nodup) : ∃ P p q Q, Place head A B P Q p q := by
  obtain ⟨P, p, hp⟩ : ∃ P p, head :: A = P ++ [p] :=
    ⟨_, _, (List.dropLast_append_getLast (List.cons_ne_nil head A)).symm⟩
  obtain ⟨q, Q, hq⟩ : ∃ q Q, B ++ [head] = q :: Q := by
    cases B with
    | nil => exact ⟨head, [], rfl⟩
    | cons b B => exact ⟨b, B ++ [head], rfl⟩
  exact ⟨P, p, q, Q, hp, hq, h⟩

omit [DecidableEq ν] in
/-- What the rules need of a place. -/
theorem Place.facts (h : Place head A B P Q p q) :
    p ∉ P ∧ q ∉ A ∧ p ∉ B ∧ q ∉ Q ∧ (P ++ [p]).tail = A ∧ (q :: Q).dropLast = B ∧
      p ∈ head :: A ∧ q ∈ B ++ [head] := by
  obtain ⟨hbefore, hbehind, hdistinct⟩ := h
  have hp : p ∈ head :: A := by rw [hbefore]; simp
  have hq : q ∈ B ++ [head] := by rw [hbehind]; simp
  have htail : (P ++ [p]).tail = A := by rw [← hbefore]; rfl
  have hlast : (q :: Q).dropLast = B := by rw [← hbehind, List.dropLast_concat]
  have hfirst : (P ++ [p]).Nodup := by
    rw [← hbefore]
    exact (List.nodup_append.mp (show (head :: A ++ B).Nodup from hdistinct)).1
  have hsecond : (q :: Q).Nodup := by
    rw [← hbehind, List.nodup_append_comm, List.singleton_append]
    simp only [List.nodup_cons, List.nodup_append, List.mem_append, not_or] at hdistinct ⊢
    exact ⟨hdistinct.1.2, hdistinct.2.2.1⟩
  have hapart : ∀ x ∈ head :: A, x ∉ B := by
    intro x hx hxB
    exact List.disjoint_of_nodup_append (show (head :: A ++ B).Nodup from hdistinct) hx hxB
  have hheadA : head ∉ A := by
    simp only [List.nodup_cons, List.mem_append, not_or] at hdistinct
    exact hdistinct.1.1
  refine ⟨?_, ?_, hapart p hp, (List.nodup_cons.mp hsecond).1, htail, hlast, hp, hq⟩
  · exact fun hpP => List.disjoint_of_nodup_append hfirst hpP (List.mem_singleton_self p)
  · rcases List.mem_append.mp hq with hqB | hqhead
    · exact fun hqA => hapart q (List.mem_cons_of_mem _ hqA) hqB
    · rwa [List.mem_singleton.mp hqhead]

omit [DecidableEq ν] in
/-- A circular list is a chain on either side of a place. -/
theorem Circular.chains (h : l.Circular head (A ++ B)) (place : Place head A B P Q p q) :
    (P ++ [p]).IsChain l.Joined ∧ l.Joined p q ∧ (q :: Q).IsChain l.Joined := by
  have hjoined := h.joined
  rwa [List.append_assoc, place.behind, ← List.cons_append, place.before, List.append_assoc,
    List.singleton_append,
    List.isChain_append_cons_cons] at hjoined

/-- **A node is put between two others.** -/
theorem Circular.insert_between (h : l.Circular head (A ++ B)) (place : Place head A B P Q p q)
    (hn : n ∉ head :: (A ++ B)) : ((l.join n q).join p n).Circular head (A ++ n :: B) := by
  obtain ⟨hfirst, -, hsecond⟩ := h.chains place
  obtain ⟨hpP, hqA, hpB, hqQ, htail, hlast, hp, hq⟩ := place.facts
  simp only [List.mem_cons, List.mem_append, not_or] at hn
  obtain ⟨hnhead, hnA, hnB⟩ := hn
  have hnP : n ∉ P := by
    intro hmem
    have : n ∈ head :: A := by rw [place.before]; exact List.mem_append_left _ hmem
    exact (List.mem_cons.mp this).elim hnhead hnA
  have hnq : n ∉ q :: Q := by
    rw [← place.behind]
    simp [hnhead, hnB]
  have hnp : p ≠ n := by
    rintro rfl
    exact (List.mem_cons.mp hp).elim hnhead hnA
  refine ⟨?_, ?_⟩
  · have hdistinct := place.distinct
    simp only [List.nodup_cons, List.nodup_append, List.mem_append, List.mem_cons, not_or]
      at hdistinct ⊢
    grind
  · have hbehind : (n :: q :: Q).IsChain (l.join n q).Joined :=
      chain_paste (P := []) (.singleton n) hsecond List.not_mem_nil List.not_mem_nil
        (by rwa [hlast]) hqQ
    have hbefore : (P ++ [p]).IsChain (l.join n q).Joined :=
      chain_join hfirst (by rwa [List.dropLast_concat]) (by rwa [htail])
    have hall := chain_paste hbefore hbehind hpP (by rwa [htail])
      (by rw [List.dropLast_cons_cons, hlast]; simp [hnp, hpB]) hnq
    have hring : head :: (A ++ n :: B ++ [head]) = P ++ p :: n :: q :: Q := by
      rw [List.append_assoc, List.cons_append, place.behind, ← List.cons_append, place.before]
      simp
    rwa [hring]

omit [DecidableEq ν] in
/-- Where a node is taken off, the nodes around it are those of the place it leaves. -/
theorem Circular.prev_next {old : ν} (h : l.Circular head (A ++ old :: B))
    (place : Place head A B P Q p q) : l.prev old = some p ∧ l.next old = some q := by
  have hjoined := h.joined
  have hring : head :: (A ++ old :: B ++ [head]) = P ++ p :: old :: q :: Q := by
    rw [List.append_assoc, List.cons_append, place.behind, ← List.cons_append, place.before]
    simp
  rw [hring, List.isChain_append_cons_cons, List.isChain_cons_cons] at hjoined
  exact ⟨hjoined.2.1.2, hjoined.2.2.1.1⟩

/-- **A node is taken off.** -/
theorem Circular.take_out {old : ν} (h : l.Circular head (A ++ old :: B))
    (place : Place head A B P Q p q) : (l.join p q).Circular head (A ++ B) := by
  obtain ⟨prev, -, hprev, hnext, hremoved⟩ := h.remove
  obtain ⟨hprev', hnext'⟩ := h.prev_next place
  obtain rfl := Option.some_inj.mp (hprev.symm.trans hprev')
  rw [Option.some_inj.mp (hnext.symm.trans hnext')] at hremoved
  exact hremoved

/-- What joins the two nodes around a third is written over when a node is put there. -/
theorem join_join_join (p n q : ν) : ((l.join p q).join n q).join p n = (l.join n q).join p n := by
  have hnext : (((l.join p q).join n q).join p n).next = ((l.join n q).join p n).next := by
    funext a
    simp only [next_join]
    split_ifs <;> rfl
  have hprev : (((l.join p q).join n q).join p n).prev = ((l.join n q).join p n).prev := by
    funext a
    simp only [prev_join]
    split_ifs <;> rfl
  exact congrArg₂ Links.mk hnext hprev

omit [DecidableEq ν] in
/-- The nodes of a list with a head are a chain. -/
theorem Circular.chain (h : l.Circular head nodes) : nodes.IsChain l.Joined :=
  (List.isChain_append.mp h.joined.tail).1

/-- **The nodes of another list** are put between two nodes. -/
theorem Circular.splice {list f e : ν} {ys zs : List ν} (h : l.Circular head (A ++ B))
    (place : Place head A B P Q p q) (hlist : l.Circular list (f :: ys)) (hzs : f :: ys = zs ++ [e])
    (hapart : ∀ x ∈ f :: ys, x ∉ head :: (A ++ B)) :
    ((l.join p f).join e q).Circular head (A ++ (f :: ys) ++ B) := by
  obtain ⟨hfirst, -, hsecond⟩ := h.chains place
  obtain ⟨hpP, hqA, hpB, hqQ, htail, hlast, hp, hq⟩ := place.facts
  have hys := hlist.chain
  have hdistinct : (f :: ys).Nodup := (List.nodup_cons.mp hlist.distinct).2
  have he : e ∈ f :: ys := by rw [hzs]; simp
  have hezs : e ∉ zs := fun hmem => by
    rw [hzs] at hdistinct
    exact List.disjoint_of_nodup_append hdistinct hmem (List.mem_singleton_self e)
  have hmem : ∀ x ∈ f :: ys, x ∉ A ∧ x ∉ B ∧ x ∉ q :: Q ∧ x ∉ P ∧ x ≠ p := by
    intro x hx
    have hout := hapart x hx
    rw [← place.behind]
    have hbefore : x ∉ P ++ [p] := by
      rw [← place.before]
      simp only [List.mem_cons, List.mem_append, not_or] at hout ⊢
      exact ⟨hout.1, hout.2.1⟩
    simp only [List.mem_cons, List.mem_append, not_or] at hout hbefore ⊢
    exact ⟨hout.2.1, hout.2.2, ⟨hout.2.2, hout.1, List.not_mem_nil⟩, hbefore.1, hbefore.2.1⟩
  have hf := hmem f List.mem_cons_self
  have hout : ∀ x ∈ head :: (A ++ B), x ∉ f :: ys := fun x hx hx' => hapart x hx' hx
  have hpys : p ∉ f :: ys := fun hp' => (hmem p hp').2.2.2.2 rfl
  have hqys : q ∉ f :: ys := fun hq' => (hmem q hq').2.2.1 List.mem_cons_self
  -- The nodes behind `p`, and what stood behind it.
  have hbefore : (P ++ p :: f :: ys).IsChain (l.join p f).Joined :=
    chain_paste hfirst hys hpP (by rw [htail]; exact hf.1)
      (fun hmem' => hpys (List.mem_of_mem_dropLast hmem')) (List.nodup_cons.mp hdistinct).1
  have hbehind : (q :: Q).IsChain (l.join p f).Joined :=
    chain_join hsecond (by rwa [hlast]) fun hmem' => hf.2.2.1 (List.mem_cons_of_mem _ hmem')
  have hsplit : P ++ p :: f :: ys = (P ++ p :: zs) ++ [e] := by rw [hzs]; simp
  have htail' : ((P ++ p :: zs) ++ [e]).tail = A ++ (f :: ys) := by
    rw [← hsplit, show P ++ p :: f :: ys = (P ++ [p]) ++ (f :: ys) by simp, ← place.before]
    rfl
  rw [hsplit] at hbefore
  have hall := chain_paste hbefore hbehind
    (by
      simp only [List.mem_append, List.mem_cons, not_or]
      exact ⟨(hmem e he).2.2.2.1, (hmem e he).2.2.2.2, hezs⟩)
    (by
      rw [htail', List.mem_append, not_or]
      exact ⟨hqA, hqys⟩)
    (by rw [hlast]; exact (hmem e he).2.1) hqQ
  refine ⟨?_, ?_⟩
  · have hwhole := place.distinct
    simp only [List.nodup_cons, List.nodup_append, List.mem_append, not_or] at hwhole hdistinct ⊢
    refine ⟨⟨⟨hwhole.1.1, fun hx => hapart head hx List.mem_cons_self⟩, hwhole.1.2⟩,
      ⟨hwhole.2.1, hdistinct, ?_⟩, hwhole.2.2.1, ?_⟩
    · rintro a ha b hb rfl
      exact (hmem a hb).1 ha
    · rintro a (ha | ha) b hb rfl
      · exact hwhole.2.2.2 a ha a hb rfl
      · exact (hmem a ha).2.1 hb
  · have hring : head :: (A ++ (f :: ys) ++ B ++ [head]) = (P ++ p :: zs) ++ e :: q :: Q := by
      rw [List.append_assoc, List.append_assoc, place.behind, ← List.cons_append, place.before, hzs]
      simp
    rwa [hring]

/-- **The front of a list** becomes a list of its own. -/
theorem Circular.cut {list f e : ν} {ys zs : List ν} (h : l.Circular head (f :: ys ++ B))
    (hzs : f :: ys = zs ++ [e]) (hq : B ++ [head] = q :: Q)
    (hlist : list ∉ head :: (f :: ys ++ B)) :
    (((l.join list f).join e list).join head q).Circular list (f :: ys) ∧
      (((l.join list f).join e list).join head q).Circular head B := by
  have place : Place head (f :: ys) B (head :: zs) Q e q := ⟨by rw [hzs]; rfl, hq, h.distinct⟩
  obtain ⟨hfirst, -, hsecond⟩ := h.chains place
  obtain ⟨heP, hqA, heB, hqQ, htail, hlast, he, hqmem⟩ := place.facts
  have hys : (f :: ys).IsChain l.Joined := by
    have := hfirst.tail
    rwa [List.cons_append, List.tail_cons, ← hzs] at this
  have hdistinct := h.distinct
  have hysnodup : (f :: ys).Nodup :=
    (List.nodup_append.mp (List.nodup_cons.mp hdistinct).2).1
  have hBnodup : (head :: B).Nodup := by
    simp only [List.nodup_cons, List.nodup_append, List.mem_append, not_or] at hdistinct ⊢
    exact ⟨hdistinct.1.2, hdistinct.2.2.1⟩
  simp only [List.mem_cons, List.mem_append, not_or] at hlist
  obtain ⟨hlisthead, ⟨hlistf, hlistys⟩, hlistB⟩ := hlist
  have hlistA : list ∉ f :: ys := by simp [hlistf, hlistys]
  have hlistQ : list ∉ q :: Q := by
    rw [← hq]
    simp [hlistB, hlisthead]
  have hheadA : head ∉ f :: ys := by
    have hnot := (List.nodup_cons.mp hdistinct).1
    exact fun hmem => hnot (List.mem_append_left _ hmem)
  have hfB : f ∉ q :: Q := by
    rw [← hq]
    intro hmem
    rcases List.mem_append.mp hmem with hmem | hmem
    · exact List.disjoint_of_nodup_append (List.nodup_cons.mp hdistinct).2 List.mem_cons_self hmem
    · exact hheadA (List.mem_singleton.mp hmem ▸ List.mem_cons_self)
  have hezs : e ∉ zs := fun hmem => heP (List.mem_cons_of_mem _ hmem)
  have hemem : e ∈ f :: ys := by rw [hzs]; simp
  have hlisten : list ≠ e := by
    rintro rfl
    exact hlistA hemem
  -- The new head before the first node, then behind the last.
  have h₁ : (list :: f :: ys).IsChain (l.join list f).Joined :=
    chain_paste (P := []) (.singleton list) hys List.not_mem_nil List.not_mem_nil
      (fun hmem => hlistA (List.mem_of_mem_dropLast hmem)) (List.nodup_cons.mp hysnodup).1
  have h₁' : (q :: Q).IsChain (l.join list f).Joined :=
    chain_join hsecond (by rwa [hlast]) fun hmem => hfB (List.mem_cons_of_mem _ hmem)
  rw [hzs, ← List.cons_append] at h₁
  have h₂ : (list :: zs ++ e :: [list]).IsChain ((l.join list f).join e list).Joined :=
    chain_paste h₁ (.singleton list) (by simp [Ne.symm hlisten, hezs])
      (by rw [List.cons_append, List.tail_cons, ← hzs]; exact hlistA) List.not_mem_nil
      List.not_mem_nil
  have h₂' : (q :: Q).IsChain ((l.join list f).join e list).Joined :=
    chain_join h₁' (by rwa [hlast]) fun hmem => hlistQ (List.mem_cons_of_mem _ hmem)
  have hring : list :: (f :: ys ++ [list]) = list :: zs ++ e :: [list] := by rw [hzs]; simp
  refine ⟨⟨List.nodup_cons.mpr ⟨hlistA, hysnodup⟩, ?_⟩, ⟨hBnodup, ?_⟩⟩
  · rw [← hring] at h₂
    refine chain_join h₂ ?_ ?_
    · rw [← List.cons_append, List.dropLast_concat, List.mem_cons, not_or]
      exact ⟨Ne.symm hlisthead, hheadA⟩
    · rw [List.tail_cons, List.mem_append, not_or]
      refine ⟨hqA, fun hmem => ?_⟩
      exact hlistQ (List.mem_singleton.mp hmem ▸ List.mem_cons_self)
  · rw [hq]
    exact chain_paste (P := []) (.singleton head) h₂' List.not_mem_nil List.not_mem_nil
      (by rw [hlast]; exact (List.nodup_cons.mp hBnodup).1) hqQ

/-- **Another head** takes the place of the head. -/
theorem Circular.replace_head {old f e : ν} {ys zs : List ν} (h : l.Circular old (f :: ys))
    (hzs : f :: ys = zs ++ [e]) (hn : n ∉ f :: ys) :
    ((l.join n f).join e n).Circular n (f :: ys) := by
  have hdistinct : (f :: ys).Nodup := (List.nodup_cons.mp h.distinct).2
  have hezs : e ∉ zs := fun hmem => by
    rw [hzs] at hdistinct
    exact List.disjoint_of_nodup_append hdistinct hmem (List.mem_singleton_self e)
  have hne : e ≠ n := by
    rintro rfl
    exact hn (by rw [hzs]; simp)
  have h₁ : (n :: f :: ys).IsChain (l.join n f).Joined :=
    chain_paste (P := []) (.singleton n) h.chain List.not_mem_nil List.not_mem_nil
      (fun hmem => hn (List.mem_of_mem_dropLast hmem)) (List.nodup_cons.mp hdistinct).1
  rw [hzs, ← List.cons_append] at h₁
  have h₂ : (n :: zs ++ e :: [n]).IsChain ((l.join n f).join e n).Joined :=
    chain_paste h₁ (.singleton n) (by simp [hne, hezs])
      (by rw [List.cons_append, List.tail_cons, ← hzs]; exact hn) List.not_mem_nil
      List.not_mem_nil
  have hring : n :: (f :: ys ++ [n]) = n :: zs ++ e :: [n] := by rw [hzs]; simp
  exact ⟨List.nodup_cons.mpr ⟨hn, hdistinct⟩, by rwa [hring]⟩

omit [DecidableEq ν] in
/-- The last node before a place. -/
theorem Place.last_before (h : Place head A B P Q p q) : p = A.getLastD head := by
  have hlast := congrArg List.getLast? h.before
  rw [List.getLast?_concat, List.getLast?_cons, Option.some_inj] at hlast
  rw [← hlast, List.getLastD_eq_getLast?]

omit [DecidableEq ν] in
/-- The last node precedes the head, or the head itself. -/
theorem Circular.prev_head (h : l.Circular head nodes) :
    l.prev head = some (nodes.getLastD head) := by
  have hring : l.Circular head (nodes ++ []) := by rwa [List.append_nil]
  obtain ⟨P, p, q, Q, place⟩ := exists_place hring.distinct
  obtain ⟨rfl, -⟩ := List.cons_eq_cons.mp (show head :: [] = q :: Q from place.behind)
  rw [← place.last_before]
  exact (hring.chains place).2.1.2

omit [DecidableEq ν] in
/-- A node of the list is preceded by the one before it, or the first by the head. -/
theorem Circular.prev_node (h : l.Circular head (A ++ n :: B)) :
    l.prev n = some (A.getLastD head) := by
  have hdistinct : (head :: (A ++ B)).Nodup := by
    refine h.distinct.sublist (List.Sublist.cons_cons head ?_)
    exact List.Sublist.append_left (List.sublist_cons_self n B) A
  obtain ⟨P, p, q, Q, place⟩ := exists_place hdistinct
  rw [← place.last_before]
  exact (h.prev_next place).1

omit [DecidableEq ν] in
/-- An empty list is a head that is joined to itself. -/
theorem circular_nil (h : l.Joined head head) : l.Circular head [] :=
  ⟨List.nodup_singleton head, List.isChain_pair.mpr h⟩

/-- Joins at other nodes leave a list as it is. -/
theorem Circular.join (h : l.Circular head nodes) (hp : p ∉ head :: nodes)
    (hq : q ∉ head :: nodes) : (l.join p q).Circular head nodes := by
  refine h.congr ?_ ?_
  · intro a ha
    rw [next_join, if_neg (ne_of_mem_of_not_mem ha hp)]
  · intro a ha
    rw [prev_join, if_neg (ne_of_mem_of_not_mem ha hq)]

end Links

end Ctools.Library
