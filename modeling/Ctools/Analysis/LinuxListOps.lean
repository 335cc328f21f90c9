import Ctools.Library.CircularSurgery
import Ctools.Interface.LinuxListSpec

/-!
# One operation on doubly linked lists

Every operation is one to three joins.  The lists it is about become what they are to become
by the rules for circular lists; every other list has none of the joined nodes, since no entry
is on two lists (`lists_apart`), and stays (`hold_update`).
-/

set_option autoImplicit false

namespace Ctools.Analysis

open Ctools.Library Ctools.Library.Links Ctools.Program Ctools.Interface

variable {ν : Type} {l l' : Links ν} {x : HeadLists ν} {h n : ν} {xs : List ν}

/-! ## Lists beside others -/

/-- Two lists have no node in common. -/
theorem lists_apart (hold : ListsHold l x) (hx : x h = some xs) {h' : ν} {ys : List ν}
    (hy : x h' = some ys) (hne : h' ≠ h) : ∀ a ∈ h :: xs, a ∉ h' :: ys := by
  intro a ha hmem
  rcases List.mem_cons.mp ha with rfl | ha
  · rcases List.mem_cons.mp hmem with heq | hmem
    · exact hne heq.symm
    · have hnone := hold.heads h' ys a hy hmem
      rw [hx] at hnone
      cases hnone
  · rcases List.mem_cons.mp hmem with rfl | hmem
    · have hnone := hold.heads h xs a hx ha
      rw [hy] at hnone
      cases hnone
    · exact hne (hold.apart h h' xs ys a hx hy ha hmem).symm

/-- What is free is no node of a list, but for its own. -/
theorem free_not_mem (hfree : FreeOfLists x n) {h' : ν} {ys : List ν} (hy : x h' = some ys)
    (hne : h' ≠ n) : n ∉ h' :: ys := by
  intro hmem
  rcases List.mem_cons.mp hmem with rfl | hmem
  · exact hne rfl
  · exact hfree.1 h' ys hy hmem

/-- A head is on no list. -/
theorem head_off (hold : ListsHold l x) (hx : x h = some xs) : OffLists x h := by
  intro h' ys hy hmem
  have hnone := hold.heads h' ys h hy hmem
  rw [hx] at hnone
  cases hnone

/-- The entries of a list are those of no other. -/
theorem hold_entries (hold : ListsHold l x) (hx : x h = some xs) :
    ∀ a ∈ xs, (a ≠ h → x a = none) ∧ ∀ h' ys, h' ≠ h → x h' = some ys → a ∉ ys := by
  intro a ha
  refine ⟨fun _ => hold.heads h xs a hx ha, fun h' ys hne hy hmem => ?_⟩
  exact hne (hold.apart h h' xs ys a hx hy ha hmem).symm

/-- The front of a list. -/
theorem exists_front (hring : l.Circular h xs) :
    ∃ q Q, Place h [] xs [] Q h q ∧ l.next h = some q := by
  obtain ⟨P, p, q, Q, place⟩ := exists_place (A := []) hring.distinct
  have hbefore : ([] : List ν) ++ [h] = P ++ [p] := place.before
  obtain ⟨hnil, heq⟩ := List.append_inj' hbefore rfl
  obtain rfl := List.head_eq_of_cons_eq heq
  subst hnil
  exact ⟨q, Q, place, (Circular.chains (A := []) hring place).2.1.1⟩

/-- The back of a list. -/
theorem exists_back (hring : l.Circular h xs) :
    ∃ P p, Place h xs [] P [] p h ∧ l.prev h = some p := by
  have hring' : l.Circular h (xs ++ []) := by rwa [List.append_nil]
  obtain ⟨P, p, q, Q, place⟩ := exists_place hring'.distinct
  obtain ⟨rfl, hnil⟩ := List.cons_eq_cons.mp (show h :: [] = q :: Q from place.behind)
  subst hnil
  exact ⟨P, p, place, (hring'.chains place).2.1.2⟩

variable [DecidableEq ν]

/-- What is left when a head is forgotten. -/
theorem forget_kept {g h' : ν} {ys : List ν} (hy : Function.update x g none h' = some ys) :
    h' ≠ g ∧ x h' = some ys := by
  rw [Function.update_apply] at hy
  split at hy
  · cases hy
  · exact ⟨‹_›, hy⟩

/-- Forgetting a list leaves what is no list. -/
theorem forget_none {g a : ν} (ha : x a = none) : Function.update x g none a = none := by
  rw [Function.update_apply, ha, ite_self]

/-- A head may be forgotten. -/
theorem hold_forget (hold : ListsHold l x) (g : ν) : ListsHold l (Function.update x g none) where
  circular h' ys hy := hold.circular h' ys (forget_kept hy).2
  heads h' ys a hy ha := forget_none (hold.heads h' ys a (forget_kept hy).2 ha)
  apart h' h'' ys zs a hy hz := hold.apart h' h'' ys zs a (forget_kept hy).2 (forget_kept hz).2

/-- **One list becomes another**, and the others stay. -/
theorem hold_update (hold : ListsHold l x) (hring : l'.Circular h xs)
    (hothers : ∀ h' ys, h' ≠ h → x h' = some ys → l'.Circular h' ys)
    (hoff : ∀ h' ys, h' ≠ h → x h' = some ys → h ∉ ys)
    (hentries : ∀ a ∈ xs, (a ≠ h → x a = none) ∧ ∀ h' ys, h' ≠ h → x h' = some ys → a ∉ ys) :
    ListsHold l' (Function.update x h (some xs)) := by
  have hcases : ∀ {h' ys}, Function.update x h (some xs) h' = some ys →
      (h' = h ∧ ys = xs) ∨ (h' ≠ h ∧ x h' = some ys) := by
    intro h' ys hy
    rw [Function.update_apply] at hy
    split at hy
    · exact .inl ⟨‹_›, (Option.some_inj.mp hy).symm⟩
    · exact .inr ⟨‹_›, hy⟩
  refine ⟨fun h' ys hy => ?_, fun h' ys a hy ha => ?_, fun h' h'' ys zs a hy hz ha ha' => ?_⟩
  · rcases hcases hy with ⟨rfl, rfl⟩ | ⟨hne, hy'⟩
    · exact hring
    · exact hothers h' ys hne hy'
  · have hah : a ≠ h := by
      rintro rfl
      rcases hcases hy with ⟨rfl, rfl⟩ | ⟨hne, hy'⟩
      · exact (List.nodup_cons.mp hring.distinct).1 ha
      · exact hoff h' ys hne hy' ha
    rw [Function.update_of_ne hah]
    rcases hcases hy with ⟨rfl, rfl⟩ | ⟨-, hy'⟩
    · exact (hentries a ha).1 hah
    · exact hold.heads h' ys a hy' ha
  · rcases hcases hy with ⟨rfl, rfl⟩ | ⟨hne, hy'⟩
    · rcases hcases hz with ⟨rfl, -⟩ | ⟨hne', hz'⟩
      · rfl
      · exact absurd ha' ((hentries a ha).2 h'' zs hne' hz')
    · rcases hcases hz with ⟨rfl, rfl⟩ | ⟨-, hz'⟩
      · exact absurd ha ((hentries a ha').2 h' ys hne hy')
      · exact hold.apart h' h'' ys zs a hy' hz' ha ha'

/-! ## Putting on and taking off -/

variable {A B P Q : List ν} {p q : ν}

omit [DecidableEq ν] in
/-- The nodes around a place are nodes of the list. -/
theorem place_mem (place : Place h A B P Q p q) : p ∈ h :: (A ++ B) ∧ q ∈ h :: (A ++ B) := by
  obtain ⟨-, -, -, -, -, -, hp, hq⟩ := place.facts
  refine ⟨?_, ?_⟩
  · rw [← List.cons_append]
    exact List.mem_append_left _ hp
  · rcases List.mem_append.mp hq with hq | hq
    · exact List.mem_cons_of_mem _ (List.mem_append_right _ hq)
    · exact List.mem_singleton.mp hq ▸ List.mem_cons_self

/-- A head with no entries is put there. -/
theorem hold_init (hold : ListsHold l x) (hoff : OffLists x n) :
    ListsHold (initListHead l n) (Function.update x n (some [])) := by
  refine hold_update hold (circular_nil (joined_join n n)) (fun h' ys hne hy => ?_)
    (fun h' ys _ hy => hoff h' ys hy) fun a ha => absurd ha List.not_mem_nil
  have hn : n ∉ h' :: ys := by
    rw [List.mem_cons, not_or]
    exact ⟨Ne.symm hne, hoff h' ys hy⟩
  exact (hold.circular h' ys hy).join hn hn

/-- What is on no list and no head may be cleared. -/
theorem hold_clear (hold : ListsHold l x) (hoff : OffLists x n) (hnone : x n = none) :
    ListsHold (l.clear n) x := by
  refine ⟨fun h' ys hy => (hold.circular h' ys hy).clear ?_, hold.heads, hold.apart⟩
  rw [List.mem_cons, not_or]
  refine ⟨?_, hoff h' ys hy⟩
  rintro rfl
  rw [hnone] at hy
  cases hy

/-- **An entry is put between two others.** -/
theorem hold_insert (hold : ListsHold l x) (hx : x h = some (A ++ B)) (place : Place h A B P Q p q)
    (hfree : FreeOfLists x n) (hne : n ≠ h) :
    ListsHold (listAddBetween l n p q)
      (Function.update (Function.update x n none) h (some (A ++ n :: B))) := by
  have hn := free_not_mem hfree hx (Ne.symm hne)
  obtain ⟨hpring, hqring⟩ := place_mem place
  refine hold_update (hold_forget hold n) ((hold.circular h _ hx).insert_between place hn)
    (fun h' ys hne' hy => ?_) (fun h' ys _ hy => head_off hold hx h' ys (forget_kept hy).2) ?_
  · obtain ⟨hn', hy⟩ := forget_kept hy
    have hnys := free_not_mem hfree hy hn'
    have hapart := lists_apart hold hx hy hne'
    exact ((hold.circular h' ys hy).join hnys (hapart q hqring)).join (hapart p hpring) hnys
  · intro a ha
    rcases List.mem_append.mp ha with ha | ha
    · obtain ⟨hnone, hout⟩ := hold_entries hold hx a (List.mem_append_left _ ha)
      exact ⟨fun hah => forget_none (hnone hah),
        fun h' ys hne' hy => hout h' ys hne' (forget_kept hy).2⟩
    · rcases List.mem_cons.mp ha with rfl | ha
      · exact ⟨fun _ => Function.update_self .., fun h' ys _ hy => hfree.1 h' ys (forget_kept hy).2⟩
      · obtain ⟨hnone, hout⟩ := hold_entries hold hx a (List.mem_append_right _ ha)
        exact ⟨fun hah => forget_none (hnone hah),
          fun h' ys hne' hy => hout h' ys hne' (forget_kept hy).2⟩

/-- **An entry is taken off.** -/
theorem hold_remove (hold : ListsHold l x) (hx : x h = some (A ++ n :: B))
    (place : Place h A B P Q p q) :
    ListsHold (listDelBetween l p q) (Function.update x h (some (A ++ B))) := by
  obtain ⟨hpring, hqring⟩ := place_mem place
  have hkept : (A ++ B).Sublist (A ++ n :: B) :=
    List.Sublist.append_left (List.sublist_cons_self n B) A
  have hring := (List.Sublist.cons_cons h hkept).subset
  refine hold_update hold ((hold.circular h _ hx).take_out place) (fun h' ys hne' hy => ?_)
    (fun h' ys _ hy => head_off hold hx h' ys hy)
    fun a ha => hold_entries hold hx a (hkept.subset ha)
  have hapart := lists_apart hold hx hy hne'
  exact (hold.circular h' ys hy).join (hapart p (hring hpring)) (hapart q (hring hqring))

/-! ## The operations of one list -/

/-- A node that is put on a list. -/
theorem putOn_eq {f : List ν → List ν} (hx : x h = some xs) (hne : n ≠ h) :
    putOn x n h f = Function.update (Function.update x n none) h (some (f xs)) := by
  rw [putOn, onList, Function.update_of_ne (Ne.symm hne), hx, Option.map_some]

/-- A list that is changed. -/
theorem onList_eq {f : List ν → List ν} (hx : x h = some xs) :
    onList x h f = Function.update x h (some (f xs)) := by rw [onList, hx, Option.map_some]

omit [DecidableEq ν] in
/-- Where an entry is. -/
theorem exists_on (hold : ListsHold l x) (hon : OnLists x n) :
    ∃ h A B P p q Q, x h = some (A ++ n :: B) ∧ Place h A B P Q p q ∧ l.prev n = some p ∧
      l.next n = some q := by
  obtain ⟨h, xs, hx, hmem⟩ := hon
  obtain ⟨A, B, rfl⟩ := List.append_of_mem hmem
  have hring := hold.circular h _ hx
  have hdistinct : (h :: (A ++ B)).Nodup := by
    refine hring.distinct.sublist (List.Sublist.cons_cons h ?_)
    exact List.Sublist.append_left (List.sublist_cons_self n B) A
  obtain ⟨P, p, q, Q, place⟩ := exists_place hdistinct
  exact ⟨h, A, B, P, p, q, Q, hx, place, hring.prev_next place⟩

/-- An entry is on one list. -/
theorem without_eq (hold : ListsHold l x) (hx : x h = some (A ++ n :: B)) :
    without x n = Function.update x h (some (A ++ B)) := by
  funext h'
  rw [without, Function.update_apply]
  have hdistinct := (List.nodup_cons.mp (hold.circular h _ hx).distinct).2
  split
  · rename_i heq
    subst heq
    have hnA : n ∉ A := fun hmem =>
      List.disjoint_of_nodup_append hdistinct hmem List.mem_cons_self
    rw [hx, Option.map_some, List.erase_append_right _ hnA, List.erase_cons_head]
  · rename_i hne
    cases hy : x h' with
    | none => rfl
    | some ys =>
      have hout := (hold_entries hold hx n (by simp)).2 h' ys hne hy
      rw [Option.map_some, List.erase_of_not_mem hout]

/-- A node on no list is taken off none. -/
theorem without_off (hoff : OffLists x n) : without x n = x := by
  funext h'
  rw [without]
  cases hy : x h' with
  | none => rfl
  | some ys => rw [Option.map_some, List.erase_of_not_mem (hoff h' ys hy)]

/-- What was taken off is free. -/
theorem without_free (hold : ListsHold l x) (hon : OnLists x n) :
    OffLists (without x n) n ∧ without x n n = none := by
  obtain ⟨h, A, B, P, p, q, Q, hx, -, -, -⟩ := exists_on hold hon
  refine ⟨fun h' ys hy => ?_, ?_⟩
  · obtain ⟨zs, hz, rfl⟩ := Option.map_eq_some_iff.mp hy
    exact ((List.nodup_cons.mp (hold.circular h' zs hz).distinct).2).not_mem_erase
  · rw [without, hold.heads h _ n hx (by simp)]
    rfl

/-- `list_add`. -/
theorem exists_listAdd (hold : ListsHold l x) (hx : x h = some xs) (hfree : FreeOfLists x n)
    (hne : n ≠ h) :
    ∃ l', linuxListAdd l n h = some l' ∧ ListsHold l' (putOn x n h (n :: ·)) := by
  obtain ⟨q, Q, place, hnext⟩ := exists_front (hold.circular h xs hx)
  refine ⟨listAddBetween l n h q, by rw [linuxListAdd, hnext]; rfl, ?_⟩
  rw [putOn_eq hx hne]
  exact hold_insert (A := []) hold hx place hfree hne

/-- `list_add_tail`. -/
theorem exists_listAddTail (hold : ListsHold l x) (hx : x h = some xs) (hfree : FreeOfLists x n)
    (hne : n ≠ h) :
    ∃ l', listAddTail l n h = some l' ∧ ListsHold l' (putOn x n h (· ++ [n])) := by
  obtain ⟨P, p, place, hprev⟩ := exists_back (hold.circular h xs hx)
  refine ⟨listAddBetween l n p h, by rw [listAddTail, hprev]; rfl, ?_⟩
  rw [putOn_eq hx hne]
  exact hold_insert (B := []) hold (by rwa [List.append_nil]) place hfree hne

/-- `__list_del_entry`, of an entry. -/
theorem exists_listDelEntry (hold : ListsHold l x) (hon : OnLists x n) :
    ∃ l', listDelEntry l n = some l' ∧ ListsHold l' (without x n) := by
  obtain ⟨h, A, B, P, p, q, Q, hx, place, hprev, hnext⟩ := exists_on hold hon
  refine ⟨listDelBetween l p q, by rw [listDelEntry, hprev, hnext]; rfl, ?_⟩
  rw [without_eq hold hx]
  exact hold_remove hold hx place

/-- `__list_del_entry`, of a head without entries. -/
theorem exists_listDelEntry_empty (hold : ListsHold l x) (hx : x n = some []) :
    ∃ l', listDelEntry l n = some l' ∧ ListsHold l' (without x n) := by
  have hoff := head_off hold hx
  have hjoined := List.isChain_pair.mp (hold.circular n [] hx).joined
  refine ⟨listDelBetween l n n, by rw [listDelEntry, hjoined.2, hjoined.1]; rfl, ?_⟩
  have hinit := hold_init hold hoff
  rw [without_off hoff, ← Function.update_eq_self n x, hx]
  exact hinit

/-- `list_del`. -/
theorem exists_listDel (hold : ListsHold l x) (hon : OnLists x n) :
    ∃ l', listDel l n = some l' ∧ ListsHold l' (without x n) := by
  obtain ⟨h, A, B, P, p, q, Q, hx, place, hprev, hnext⟩ := exists_on hold hon
  obtain ⟨hoff, hnone⟩ := without_free hold hon
  refine ⟨(listDelBetween l p q).clear n, by rw [listDel, hprev, hnext]; rfl, ?_⟩
  refine hold_clear ?_ hoff hnone
  rw [without_eq hold hx]
  exact hold_remove hold hx place

/-- `list_del_init`. -/
theorem exists_listDelInit (hold : ListsHold l x) (hon : OnLists x n ∨ x n = some []) :
    ∃ l', listDelInit l n = some l' ∧
      ListsHold l' (Function.update (without x n) n (some [])) := by
  rcases hon with hon | hempty
  · obtain ⟨l₁, hdel, hold₁⟩ := exists_listDelEntry hold hon
    refine ⟨initListHead l₁ n, by rw [listDelInit, hdel]; rfl, ?_⟩
    exact hold_init hold₁ (without_free hold hon).1
  · obtain ⟨l₁, hdel, hold₁⟩ := exists_listDelEntry_empty hold hempty
    have hoff := head_off hold hempty
    refine ⟨initListHead l₁ n, by rw [listDelInit, hdel]; rfl, ?_⟩
    refine hold_init hold₁ ?_
    rwa [without_off hoff]

/-- What is to be moved is taken off, and free then. -/
theorem exists_taken_off (hold : ListsHold l x) (hx : x h = some xs)
    (hon : OnLists x n ∨ x n = some [] ∧ n ≠ h) :
    ∃ l', listDelEntry l n = some l' ∧ ListsHold l' (without x n) ∧ FreeOfLists (without x n) n ∧
      n ≠ h := by
  rcases hon with hon | ⟨hempty, hne⟩
  · obtain ⟨l', hdel, hold'⟩ := exists_listDelEntry hold hon
    obtain ⟨hoff, hnone⟩ := without_free hold hon
    refine ⟨l', hdel, hold', ⟨hoff, .inl hnone⟩, ?_⟩
    rintro rfl
    obtain ⟨h', ys, hy, hmem⟩ := hon
    exact head_off hold hx h' ys hy hmem
  · obtain ⟨l', hdel, hold'⟩ := exists_listDelEntry_empty hold hempty
    have hoff := head_off hold hempty
    refine ⟨l', hdel, hold', ?_, hne⟩
    rw [without_off hoff]
    exact ⟨hoff, .inr hempty⟩

/-- `list_move`. -/
theorem exists_listMove (hold : ListsHold l x) (hx : x h = some xs)
    (hon : OnLists x n ∨ x n = some [] ∧ n ≠ h) :
    ∃ l', listMove l n h = some l' ∧ ListsHold l' (putOn (without x n) n h (n :: ·)) := by
  obtain ⟨l₁, hdel, hold₁, hfree, hne⟩ := exists_taken_off hold hx hon
  have hx₁ : without x n h = some (xs.erase n) := by rw [without, hx]; rfl
  obtain ⟨l₂, hadd, hold₂⟩ := exists_listAdd hold₁ hx₁ hfree hne
  exact ⟨l₂, by rw [listMove, hdel, Option.bind_eq_bind, Option.bind_some, hadd], hold₂⟩

/-- `list_move_tail`. -/
theorem exists_listMoveTail (hold : ListsHold l x) (hx : x h = some xs)
    (hon : OnLists x n ∨ x n = some [] ∧ n ≠ h) :
    ∃ l', listMoveTail l n h = some l' ∧ ListsHold l' (putOn (without x n) n h (· ++ [n])) := by
  obtain ⟨l₁, hdel, hold₁, hfree, hne⟩ := exists_taken_off hold hx hon
  have hx₁ : without x n h = some (xs.erase n) := by rw [without, hx]; rfl
  obtain ⟨l₂, hadd, hold₂⟩ := exists_listAddTail hold₁ hx₁ hfree hne
  exact ⟨l₂, by rw [listMoveTail, hdel, Option.bind_eq_bind, Option.bind_some, hadd], hold₂⟩

/-- `list_empty`. -/
theorem listEmpty_eq (hold : ListsHold l x) (hx : x h = some xs) :
    listEmpty l h = (x h == some []) := by
  have hring := hold.circular h xs hx
  rw [listEmpty, hring.next_head, hx]
  cases xs with
  | nil => simp
  | cons first rest =>
    have hne : first ≠ h := by
      rintro rfl
      exact (List.nodup_cons.mp hring.distinct).1 List.mem_cons_self
    simp [hne]

/-- `list_rotate_left`. -/
theorem exists_listRotateLeft (hold : ListsHold l x) (hx : x h = some xs) :
    ∃ l', listRotateLeft l h = some l' ∧ ListsHold l' (onList x h (·.rotate 1)) := by
  have hempty := listEmpty_eq hold hx
  rw [hx] at hempty
  rw [onList_eq hx]
  cases xs with
  | nil =>
    refine ⟨l, by simp [listRotateLeft, hempty], ?_⟩
    rw [List.rotate_nil, ← hx, Function.update_eq_self]
    exact hold
  | cons first rest =>
    have hnext := (hold.circular h _ hx).next_head
    have hon : OnLists x first := ⟨h, _, hx, List.mem_cons_self⟩
    obtain ⟨l', hmove, hold'⟩ := exists_listMoveTail hold hx (.inl hon)
    refine ⟨l', by simpa [listRotateLeft, hempty, hnext] using hmove, ?_⟩
    have hx₁ : without x first h = some rest := by
      rw [without, hx, Option.map_some, List.erase_cons_head]
    have hne : first ≠ h := by
      rintro rfl
      exact (List.nodup_cons.mp (hold.circular _ _ hx).distinct).1 List.mem_cons_self
    have hsame : putOn (without x first) first h (· ++ [first]) =
        Function.update x h (some ((first :: rest).rotate 1)) := by
      rw [putOn_eq hx₁ hne, without_eq (A := []) hold hx, List.rotate_cons_succ, List.rotate_zero,
        Function.update_comm hne.symm, Function.update_idem,
        ← hold.heads h _ first hx List.mem_cons_self, Function.update_eq_self]
    rwa [hsame] at hold'

/-! ## Replacing -/

/-- An entry gives its place to another. -/
theorem inPlace_entry (hold : ListsHold l x) {old : ν} (hx : x h = some (A ++ old :: B))
    (hnh : n ≠ h) :
    inPlace x old n = Function.update (Function.update x n none) h (some (A ++ n :: B)) := by
  have hring := hold.circular h _ hx
  have hdistinct := (List.nodup_cons.mp hring.distinct).2
  have hA : old ∉ A := fun hmem =>
    List.disjoint_of_nodup_append hdistinct hmem List.mem_cons_self
  have hB : old ∉ B := (List.nodup_cons.mp (List.nodup_append.mp hdistinct).2.1).1
  have hkeep : ∀ ys : List ν, old ∉ ys → (ys.map fun a => if a = old then n else a) = ys := by
    intro ys hys
    refine (List.map_congr_left fun a ha => ?_).trans (List.map_id ys)
    exact if_neg (ne_of_mem_of_not_mem ha hys)
  rw [inPlace, hold.heads h _ old hx (by simp)]
  funext h'
  simp only [Option.isSome_none, Bool.false_eq_true, if_false, Function.update_apply]
  by_cases hh : h' = h
  · rw [if_pos hh, hh, if_neg hnh.symm, hx, Option.map_some, List.map_append, List.map_cons,
      if_pos rfl, hkeep A hA, hkeep B hB]
  · rw [if_neg hh]
    split
    · rfl
    · cases hy : x h' with
      | none => rfl
      | some ys =>
        rw [Option.map_some, hkeep ys ((hold_entries hold hx old (by simp)).2 h' ys hh hy)]

/-- `list_replace` of an entry takes it out and puts the other there. -/
theorem exists_listReplace_entry (hold : ListsHold l x) {old : ν} (hon : OnLists x old)
    (hfree : FreeOfLists x n) :
    ∃ l', listReplace l old n = some l' ∧ ListsHold l' (inPlace x old n) := by
  obtain ⟨h, A, B, P, p, q, Q, hx, place, hprev, hnext⟩ := exists_on hold hon
  obtain ⟨-, -, -, -, -, -, -, hq⟩ := place.facts
  have hnh : n ≠ h := by
    rintro rfl
    rcases hfree.2 with hn | hn
    · rw [hx] at hn
      cases hn
    · rw [hx, Option.some_inj] at hn
      exact absurd hn (by simp)
  have hqold : old ≠ q := by
    rintro rfl
    have hperm : (h :: (A ++ old :: B)).Perm (old :: h :: (A ++ B)) :=
      (List.perm_middle.cons h).trans (List.Perm.swap old h _)
    have hout := (List.nodup_cons.mp (hperm.nodup_iff.mp (hold.circular h _ hx).distinct)).1
    simp only [List.mem_cons, List.mem_append, not_or] at hout
    rcases List.mem_append.mp hq with hq | hq
    · exact hout.2.2 hq
    · exact hout.1 (List.mem_singleton.mp hq)
  have hcode : listReplace l old n = some ((l.join n q).join p n) := by
    simp only [listReplace, hnext, setNext, setPrev, Function.update_self, Option.bind_eq_bind,
      Option.bind_some, Function.update_of_ne hqold, hprev, Option.pure_def]
    rfl
  refine ⟨_, hcode, ?_⟩
  have hout : FreeOfLists (Function.update x h (some (A ++ B))) n := by
    refine ⟨fun h' ys hy => ?_, ?_⟩
    · rw [Function.update_apply] at hy
      split at hy
      · cases hy
        intro hmem
        refine hfree.1 h _ hx ?_
        rcases List.mem_append.mp hmem with hmem | hmem
        · exact List.mem_append_left _ hmem
        · exact List.mem_append_right _ (List.mem_cons_of_mem _ hmem)
      · exact hfree.1 h' ys hy
    · rw [Function.update_of_ne hnh]
      exact hfree.2
  have hinserted : ListsHold (((l.join p q).join n q).join p n) _ :=
    hold_insert (hold_remove hold hx place) (Function.update_self ..) place hout hnh
  rwa [join_join_join, Function.update_comm hnh.symm, Function.update_idem,
    ← inPlace_entry hold hx hnh] at hinserted

/-- The list of a head becomes that of another. -/
theorem hold_rehead (hold : ListsHold l x) {old : ν} (hx : x old = some xs)
    (hfree : FreeOfLists x n) (hne : old ≠ n) (hring : l'.Circular n xs)
    (hothers : ∀ h' ys, h' ≠ n → h' ≠ old → x h' = some ys → l'.Circular h' ys) :
    ListsHold l' (inPlace x old n) := by
  have hsame : inPlace x old n = Function.update (Function.update x old none) n (some xs) := by
    rw [inPlace, hx, Option.isSome_some, if_pos rfl, Function.update_comm hne.symm]
  rw [hsame]
  refine hold_update (hold_forget hold old) hring
    (fun h' ys hn hy => hothers h' ys hn (forget_kept hy).1 (forget_kept hy).2)
    (fun h' ys _ hy => hfree.1 h' ys (forget_kept hy).2)
    fun a ha => ⟨fun _ => ?_, fun h' ys _ hy => ?_⟩
  · exact forget_none (hold.heads old xs a hx ha)
  · exact (hold_entries hold hx a ha).2 h' ys (forget_kept hy).1 (forget_kept hy).2

/-- `list_replace` of a head. -/
theorem exists_listReplace_head (hold : ListsHold l x) {old : ν} (hx : x old = some xs)
    (hfree : FreeOfLists x n) (hne : old ≠ n) :
    ∃ l', listReplace l old n = some l' ∧ ListsHold l' (inPlace x old n) := by
  have hring := hold.circular old xs hx
  have hnext := hring.next_head
  have hprev := hring.prev_head
  have hn : n ∉ old :: xs := free_not_mem hfree hx hne
  cases xs with
  | nil =>
    have hcode : listReplace l old n =
        some (((l.setPrev old (some n)).setNext n (some n)).setPrev n (some n)) := by
      simp only [listReplace, hnext, setNext, setPrev, Function.update_self, Option.bind_eq_bind,
        Option.bind_some, List.headD_nil, Option.pure_def, Function.update_idem]
    refine ⟨_, hcode, hold_rehead hold hx hfree hne (circular_nil (joined_join n n)) ?_⟩
    intro h' ys hh hh' hy
    have hny := free_not_mem hfree hy hh
    have hold' := lists_apart hold hx hy hh' old List.mem_cons_self
    have hkept : (l.setPrev old (some n)).Circular h' ys := by
      refine (hold.circular h' ys hy).congr (fun a _ => rfl) fun a ha => ?_
      exact Function.update_of_ne (ne_of_mem_of_not_mem ha hold') ..
    exact hkept.join hny hny
  | cons f ys =>
    obtain ⟨zs, e, hzs⟩ : ∃ zs e, f :: ys = zs ++ [e] :=
      ⟨_, _, (List.dropLast_append_getLast (List.cons_ne_nil f ys)).symm⟩
    have hlast : (f :: ys).getLastD old = e := by rw [hzs, List.getLastD_concat]
    rw [hlast] at hprev
    have hfold : old ≠ f := by
      rintro rfl
      exact (List.nodup_cons.mp hring.distinct).1 List.mem_cons_self
    have hcode : listReplace l old n = some ((l.join n f).join e n) := by
      simp only [listReplace, hnext, setNext, setPrev, Function.update_self, Option.bind_eq_bind,
        Option.bind_some, List.headD_cons, Function.update_of_ne hfold, hprev, Option.pure_def]
      rfl
    rw [List.mem_cons, not_or] at hn
    refine ⟨_, hcode, hold_rehead hold hx hfree hne (hring.replace_head hzs hn.2) ?_⟩
    intro h' zs' hh hh' hy
    have hny := free_not_mem hfree hy hh
    have hapart := lists_apart hold hx hy hh'
    have hf := hapart f (by simp)
    have he := hapart e (by rw [hzs]; simp)
    exact ((hold.circular h' zs' hy).join hny hf).join he hny

/-- `list_replace`. -/
theorem exists_listReplace (hold : ListsHold l x) {old : ν}
    (hold' : OnLists x old ∨ (x old).isSome) (hfree : FreeOfLists x n) (hne : old ≠ n) :
    ∃ l', listReplace l old n = some l' ∧ ListsHold l' (inPlace x old n) := by
  rcases hold' with hon | hsome
  · exact exists_listReplace_entry hold hon hfree
  · obtain ⟨xs, hx⟩ := Option.isSome_iff_exists.mp hsome
    exact exists_listReplace_head hold hx hfree hne

/-- What is replaced is on no list then. -/
theorem inPlace_off (hold : ListsHold l x) {old : ν} (hne : old ≠ n) :
    OffLists (inPlace x old n) old := by
  intro h' ys hy
  rw [inPlace] at hy
  split at hy
  · rename_i hsome
    obtain ⟨xs, hx⟩ := Option.isSome_iff_exists.mp hsome
    rw [Function.update_apply, Function.update_apply] at hy
    split at hy
    · cases hy
    · split at hy
      · exact head_off hold hx old ys hy
      · exact head_off hold hx h' ys hy
  · beta_reduce at hy
    split at hy
    · cases hy
    · obtain ⟨zs, -, rfl⟩ := Option.map_eq_some_iff.mp hy
      intro hmem
      obtain ⟨a, -, ha⟩ := List.mem_map.mp hmem
      split at ha
      · exact hne ha.symm
      · exact absurd ha ‹_›

/-- `list_replace_init`. -/
theorem exists_listReplaceInit (hold : ListsHold l x) {old : ν}
    (hold' : OnLists x old ∨ (x old).isSome) (hfree : FreeOfLists x n) (hne : old ≠ n) :
    ∃ l', listReplaceInit l old n = some l' ∧
      ListsHold l' (Function.update (inPlace x old n) old (some [])) := by
  obtain ⟨l₁, hcode, hold₁⟩ := exists_listReplace hold hold' hfree hne
  refine ⟨initListHead l₁ old, by rw [listReplaceInit, hcode]; rfl, ?_⟩
  exact hold_init hold₁ (inPlace_off hold hne)

/-! ## Splicing and cutting -/

/-- **The entries of one list** are put to those of another. -/
theorem hold_splice (hold : ListsHold l x) (hx : x h = some (A ++ B)) (place : Place h A B P Q p q)
    {g f e : ν} {ys zs : List ν} (hg : x g = some (f :: ys)) (hzs : f :: ys = zs ++ [e])
    (hne : g ≠ h) :
    ListsHold ((l.join p f).join e q)
      (Function.update (Function.update x g none) h (some (A ++ (f :: ys) ++ B))) := by
  obtain ⟨hpring, hqring⟩ := place_mem place
  have he : e ∈ f :: ys := by rw [hzs]; simp
  have hapart : ∀ a ∈ f :: ys, a ∉ h :: (A ++ B) := fun a ha =>
    lists_apart hold hg hx hne.symm a (List.mem_cons_of_mem _ ha)
  refine hold_update (hold_forget hold g)
    ((hold.circular h _ hx).splice place (hold.circular g _ hg) hzs hapart)
    (fun h' ys' hne' hy => ?_) (fun h' ys' _ hy => head_off hold hx h' ys' (forget_kept hy).2) ?_
  · obtain ⟨hg', hy⟩ := forget_kept hy
    have hring := lists_apart hold hx hy hne'
    have hlist := lists_apart hold hg hy hg'
    exact ((hold.circular h' ys' hy).join (hring p hpring)
      (hlist f (List.mem_cons_of_mem _ List.mem_cons_self))).join
      (hlist e (List.mem_cons_of_mem _ he)) (hring q hqring)
  · intro a ha
    rcases List.mem_append.mp ha with ha | ha
    · rcases List.mem_append.mp ha with ha | ha
      · obtain ⟨hnone, hout⟩ := hold_entries hold hx a (List.mem_append_left _ ha)
        exact ⟨fun hah => forget_none (hnone hah),
          fun h' ys' hne' hy => hout h' ys' hne' (forget_kept hy).2⟩
      · obtain ⟨-, hout⟩ := hold_entries hold hg a ha
        refine ⟨fun _ => forget_none (hold.heads g _ a hg ha), fun h' ys' _ hy => ?_⟩
        exact hout h' ys' (forget_kept hy).1 (forget_kept hy).2
    · obtain ⟨hnone, hout⟩ := hold_entries hold hx a (List.mem_append_right _ ha)
      exact ⟨fun hah => forget_none (hnone hah),
        fun h' ys' hne' hy => hout h' ys' hne' (forget_kept hy).2⟩

omit [DecidableEq ν] in
/-- The ends of a list with entries. -/
theorem list_ends {g f e : ν} {ys zs : List ν} (hring : l.Circular g (f :: ys))
    (hzs : f :: ys = zs ++ [e]) : l.next g = some f ∧ l.prev g = some e := by
  refine ⟨hring.next_head, ?_⟩
  rw [hring.prev_head, hzs, List.getLastD_concat]

/-- `__list_splice` behind a head. -/
theorem exists_splice_front (hold : ListsHold l x) {g f : ν} {ys : List ν}
    (hx : x h = some xs) (hg : x g = some (f :: ys)) (hne : g ≠ h) :
    ∃ next l', l.next h = some next ∧ listSpliceBetween l g h next = some l' ∧
      ListsHold l' (Function.update (Function.update x g none) h (some (f :: ys ++ xs))) := by
  obtain ⟨zs, e, hzs⟩ : ∃ zs e, f :: ys = zs ++ [e] :=
    ⟨_, _, (List.dropLast_append_getLast (List.cons_ne_nil f ys)).symm⟩
  obtain ⟨hfirst, hlast⟩ := list_ends (hold.circular g _ hg) hzs
  obtain ⟨q, Q, place, hnext⟩ := exists_front (hold.circular h xs hx)
  refine ⟨q, (l.join h f).join e q, hnext, by rw [listSpliceBetween, hfirst, hlast]; rfl, ?_⟩
  exact hold_splice (A := []) hold hx place hg hzs hne

/-- `__list_splice` before a head. -/
theorem exists_splice_back (hold : ListsHold l x) {g f : ν} {ys : List ν}
    (hx : x h = some xs) (hg : x g = some (f :: ys)) (hne : g ≠ h) :
    ∃ prev l', l.prev h = some prev ∧ listSpliceBetween l g prev h = some l' ∧
      ListsHold l' (Function.update (Function.update x g none) h (some (xs ++ f :: ys))) := by
  obtain ⟨zs, e, hzs⟩ : ∃ zs e, f :: ys = zs ++ [e] :=
    ⟨_, _, (List.dropLast_append_getLast (List.cons_ne_nil f ys)).symm⟩
  obtain ⟨hfirst, hlast⟩ := list_ends (hold.circular g _ hg) hzs
  obtain ⟨P, p, place, hprev⟩ := exists_back (hold.circular h xs hx)
  refine ⟨p, (l.join p f).join e h, hprev, by rw [listSpliceBetween, hfirst, hlast]; rfl, ?_⟩
  have hspliced := hold_splice (B := []) hold (by rwa [List.append_nil]) place hg hzs hne
  rwa [List.append_nil] at hspliced

/-- The heads that splicing leaves. -/
theorem joined_eq {g f : ν} {ys : List ν} {left : Option (List ν)}
    {put : List ν → List ν → List ν} (hx : x h = some xs) (hg : x g = some (f :: ys))
    (hne : g ≠ h) :
    joined x g h left put =
      Function.update (Function.update x g left) h (some (put (f :: ys) xs)) := by
  rw [joined, hg]
  exact onList_eq (by rw [Function.update_of_ne hne.symm, hx])

/-- What is left of a list that was spliced is made an empty one. -/
theorem hold_spliced_init (hold : ListsHold l x) {g : ν} {ys zs : List ν} (hx : x h = some xs)
    (hg : x g = some ys) (hne : g ≠ h) (hmem : ∀ a ∈ zs, a ∈ ys ∨ a ∈ xs)
    (hold' : ListsHold l' (Function.update (Function.update x g none) h (some zs))) :
    ListsHold (initListHead l' g)
      (Function.update (Function.update x g (some [])) h (some zs)) := by
  have hoff : OffLists (Function.update (Function.update x g none) h (some zs)) g := by
    intro h' ys' hy hmem'
    rw [Function.update_apply, Function.update_apply] at hy
    split at hy
    · cases hy
      rcases hmem g hmem' with hin | hin
      · exact (List.nodup_cons.mp (hold.circular g ys hg).distinct).1 hin
      · exact head_off hold hg h xs hx hin
    · split at hy
      · cases hy
      · exact head_off hold hg h' ys' hy hmem'
  have hinit := hold_init hold' hoff
  rwa [Function.update_comm hne.symm, Function.update_idem] at hinit

/-- A list without entries is not spliced. -/
theorem joined_nil {g : ν} {left : Option (List ν)} {put : List ν → List ν → List ν}
    (hg : x g = some []) : joined x g h left put = x := by rw [joined, hg]

/-- An empty list is seen to be empty. -/
theorem listEmpty_nil (hold : ListsHold l x) (hx : x h = some []) : listEmpty l h = true := by
  rw [listEmpty_eq hold hx, hx]
  rfl

/-- A list with entries is not. -/
theorem listEmpty_cons (hold : ListsHold l x) {f : ν} {ys : List ν} (hx : x h = some (f :: ys)) :
    listEmpty l h = false := by
  rw [listEmpty_eq hold hx, hx]
  rfl

/-- `list_splice`. -/
theorem exists_listSplice (hold : ListsHold l x) {g : ν} {ys : List ν} (hx : x h = some xs)
    (hg : x g = some ys) (hne : g ≠ h) :
    ∃ l', listSplice l g h = some l' ∧
      ListsHold l' (joined x g h none fun ys xs => ys ++ xs) := by
  cases ys with
  | nil => exact ⟨l, by rw [listSplice, listEmpty_nil hold hg]; rfl, by rwa [joined_nil hg]⟩
  | cons f ys =>
    obtain ⟨next, l', hnext, hcode, hold'⟩ := exists_splice_front hold hx hg hne
    refine ⟨l', ?_, by rwa [joined_eq hx hg hne]⟩
    rw [listSplice, listEmpty_cons hold hg, hnext]
    exact hcode

/-- `list_splice_tail`. -/
theorem exists_listSpliceTail (hold : ListsHold l x) {g : ν} {ys : List ν} (hx : x h = some xs)
    (hg : x g = some ys) (hne : g ≠ h) :
    ∃ l', listSpliceTail l g h = some l' ∧
      ListsHold l' (joined x g h none fun ys xs => xs ++ ys) := by
  cases ys with
  | nil => exact ⟨l, by rw [listSpliceTail, listEmpty_nil hold hg]; rfl, by rwa [joined_nil hg]⟩
  | cons f ys =>
    obtain ⟨prev, l', hprev, hcode, hold'⟩ := exists_splice_back hold hx hg hne
    refine ⟨l', ?_, by rwa [joined_eq hx hg hne]⟩
    rw [listSpliceTail, listEmpty_cons hold hg, hprev]
    exact hcode

/-- `list_splice_init`. -/
theorem exists_listSpliceInit (hold : ListsHold l x) {g : ν} {ys : List ν} (hx : x h = some xs)
    (hg : x g = some ys) (hne : g ≠ h) :
    ∃ l', listSpliceInit l g h = some l' ∧
      ListsHold l' (joined x g h (some []) fun ys xs => ys ++ xs) := by
  cases ys with
  | nil => exact ⟨l, by rw [listSpliceInit, listEmpty_nil hold hg]; rfl, by rwa [joined_nil hg]⟩
  | cons f ys =>
    obtain ⟨next, l', hnext, hcode, hold'⟩ := exists_splice_front hold hx hg hne
    refine ⟨initListHead l' g, ?_, ?_⟩
    · rw [listSpliceInit, listEmpty_cons hold hg, hnext]
      simp [hcode]
    · rw [joined_eq hx hg hne]
      exact hold_spliced_init hold hx hg hne (fun a ha => List.mem_append.mp ha) hold'

/-- `list_splice_tail_init`. -/
theorem exists_listSpliceTailInit (hold : ListsHold l x) {g : ν} {ys : List ν}
    (hx : x h = some xs) (hg : x g = some ys) (hne : g ≠ h) :
    ∃ l', listSpliceTailInit l g h = some l' ∧
      ListsHold l' (joined x g h (some []) fun ys xs => xs ++ ys) := by
  cases ys with
  | nil =>
    exact ⟨l, by rw [listSpliceTailInit, listEmpty_nil hold hg]; rfl, by rwa [joined_nil hg]⟩
  | cons f ys =>
    obtain ⟨prev, l', hprev, hcode, hold'⟩ := exists_splice_back hold hx hg hne
    refine ⟨initListHead l' g, ?_, ?_⟩
    · rw [listSpliceTailInit, listEmpty_cons hold hg, hprev]
      simp [hcode]
    · rw [joined_eq hx hg hne]
      exact hold_spliced_init hold hx hg hne (fun a ha => (List.mem_append.mp ha).symm) hold'

/-- **The front of a list** becomes that of another head. -/
theorem hold_cut (hold : ListsHold l x) {g f e : ν} {ys zs : List ν}
    (hx : x h = some (f :: ys ++ B)) (hzs : f :: ys = zs ++ [e]) (hq : B ++ [h] = q :: Q)
    (hoff : OffLists x g) (hne : g ≠ h) :
    ListsHold (((l.join g f).join e g).join h q)
      (Function.update (Function.update x g (some (f :: ys))) h (some B)) := by
  have hg : g ∉ h :: (f :: ys ++ B) := by
    rw [List.mem_cons, not_or]
    exact ⟨hne, hoff h _ hx⟩
  obtain ⟨hfront, hback⟩ := (hold.circular h _ hx).cut hzs hq hg
  have he : e ∈ f :: ys := by rw [hzs]; simp
  have hqring : q ∈ h :: (f :: ys ++ B) := by
    have hmem : q ∈ B ++ [h] := by rw [hq]; exact List.mem_cons_self
    rcases List.mem_append.mp hmem with hmem | hmem
    · exact List.mem_cons_of_mem _ (List.mem_append_right _ hmem)
    · exact List.mem_singleton.mp hmem ▸ List.mem_cons_self
  -- First the new list, with the old one forgotten; then what is left of the old one.
  have hnew : ListsHold (((l.join g f).join e g).join h q)
      (Function.update (Function.update x h none) g (some (f :: ys))) := by
    refine hold_update (hold_forget hold h) hfront (fun h' ys' hg' hy => ?_)
      (fun h' ys' _ hy => hoff h' ys' (forget_kept hy).2)
      fun a ha => ⟨fun _ => ?_, fun h' ys' _ hy => ?_⟩
    · obtain ⟨hh', hy⟩ := forget_kept hy
      have hapart := lists_apart hold hx hy hh'
      have hgy : g ∉ h' :: ys' := by
        rw [List.mem_cons, not_or]
        exact ⟨Ne.symm hg', hoff h' ys' hy⟩
      refine (((hold.circular h' ys' hy).join hgy (hapart f (by simp))).join (hapart e ?_) hgy).join
        (hapart h List.mem_cons_self) (hapart q hqring)
      exact List.mem_cons_of_mem _ (List.mem_append_left _ he)
    · exact forget_none (hold.heads h _ a hx (List.mem_append_left _ ha))
    · obtain ⟨hh', hy⟩ := forget_kept hy
      exact (hold_entries hold hx a (List.mem_append_left _ ha)).2 h' ys' hh' hy
  have hafter : ∀ {h' ys'}, h' ≠ h →
      Function.update (Function.update x h none) g (some (f :: ys)) h' = some ys' →
      (ys' = f :: ys) ∨ x h' = some ys' := by
    intro h' ys' hh' hy
    rw [Function.update_apply] at hy
    split at hy
    · exact .inl (Option.some_inj.mp hy).symm
    · exact .inr (forget_kept hy).2
  have hdistinct := (List.nodup_cons.mp (hold.circular h _ hx).distinct)
  have hboth := hold_update hnew hback (fun h' ys' _ hy => hnew.circular h' ys' hy)
    (fun h' ys' hh' hy => ?_) (fun a ha => ⟨fun _ => ?_, fun h' ys' hh' hy => ?_⟩)
  · rwa [Function.update_comm hne.symm, Function.update_idem] at hboth
  · rcases hafter hh' hy with rfl | hy
    · exact fun hmem => hdistinct.1 (List.mem_append_left _ hmem)
    · exact head_off hold hx h' ys' hy
  · have hag : a ≠ g := by
      rintro rfl
      exact hg (List.mem_cons_of_mem _ (List.mem_append_right _ ha))
    rw [Function.update_of_ne hag]
    exact forget_none (hold.heads h _ a hx (List.mem_append_right _ ha))
  · rcases hafter hh' hy with rfl | hy
    · exact fun hmem => List.disjoint_of_nodup_append hdistinct.2 hmem ha
    · exact (hold_entries hold hx a (List.mem_append_right _ ha)).2 h' ys' hh' hy

/-- `list_is_singular`. -/
theorem listIsSingular_eq (hold : ListsHold l x) (hx : x h = some xs) :
    listIsSingular l h = ((x h).map List.length == some 1) := by
  have hring := hold.circular h xs hx
  rw [listIsSingular, listEmpty_eq hold hx, hring.next_head, hring.prev_head, hx, Option.map_some]
  cases xs with
  | nil => rfl
  | cons f ys =>
    cases hlast : ys.getLast? with
    | none =>
      obtain rfl := List.getLast?_eq_none_iff.mp hlast
      simp
    | some e =>
      have he : e ∈ ys := List.mem_of_getLast? hlast
      have hne : f ≠ e := by
        rintro rfl
        have hdistinct := (List.nodup_cons.mp hring.distinct).2
        exact (List.nodup_cons.mp hdistinct).1 he
      have hys : ys ≠ [] := List.ne_nil_of_mem he
      have hlast' : (f :: ys).getLastD h = e := by
        rw [List.getLastD_cons, List.getLastD_eq_getLast?, hlast]
        rfl
      rw [hlast']
      simp [hne, hys]

/-- `list_cut_position`. -/
theorem exists_listCutPosition (hold : ListsHold l x) (hx : x h = some xs) {g e : ν}
    (hoff : OffLists x g) (hne : g ≠ h) (he : e = h ∨ e ∈ xs) :
    ∃ l', listCutPosition l g h e = some l' ∧ ListsHold l' (cutAt x g h e) := by
  have hring := hold.circular h xs hx
  cases xs with
  | nil => exact ⟨l, by rw [listCutPosition, listEmpty_nil hold hx]; rfl, by rwa [cutAt, hx]⟩
  | cons f ys =>
    -- An entry of a list of one is its first.
    have hsingular : (listIsSingular l h && (l.next h != some e && h != e)) = false := by
      rw [listIsSingular_eq hold hx, hx, hring.next_head]
      cases ys with
      | nil =>
        rcases he with rfl | he
        · simp
        · simp [List.mem_singleton.mp he]
      | cons => simp
    rw [listCutPosition, listEmpty_cons hold hx, hsingular, cutAt, hx]
    simp only [Bool.false_eq_true, if_false]
    by_cases heh : e = h
    · rw [if_pos heh, if_pos heh]
      exact ⟨_, rfl, hold_init hold hoff⟩
    · rw [if_neg heh, if_neg heh]
      obtain ⟨zs, B, hsplit⟩ := List.append_of_mem (he.resolve_left heh)
      have hzs : e ∉ zs := by
        have hdistinct := (List.nodup_cons.mp hring.distinct).2
        rw [hsplit] at hdistinct
        exact fun hmem => List.disjoint_of_nodup_append hdistinct hmem List.mem_cons_self
      have hidx : (f :: ys).idxOf e + 1 = (zs ++ [e]).length := by
        rw [hsplit, List.idxOf_append_of_notMem hzs, List.idxOf_cons_self, List.length_append]
        rfl
      have hwhole : f :: ys = (zs ++ [e]) ++ B := by rw [hsplit]; simp
      obtain ⟨ys', hys'⟩ : ∃ ys', zs ++ [e] = f :: ys' := by
        cases zs with
        | nil =>
          obtain ⟨rfl, -⟩ := List.cons_eq_cons.mp hsplit
          exact ⟨[], rfl⟩
        | cons z zs =>
          obtain ⟨rfl, -⟩ := List.cons_eq_cons.mp hsplit
          exact ⟨zs ++ [e], rfl⟩
      obtain ⟨q, Q, hq⟩ : ∃ q Q, B ++ [h] = q :: Q := by
        cases B with
        | nil => exact ⟨h, [], rfl⟩
        | cons b B => exact ⟨b, B ++ [h], rfl⟩
      have hnext : l.next e = some q := by
        have hqB : q = B.headD h := by
          cases B with
          | nil => exact (List.cons_eq_cons.mp hq).1.symm
          | cons b B => exact (List.cons_eq_cons.mp hq).1.symm
        rw [hsplit] at hring
        rw [hqB, hring.next_node]
      rw [hidx]
      have htake : (f :: ys).take (zs ++ [e]).length = f :: ys' := by
        rw [hwhole, List.take_left, hys']
      have hdrop : (f :: ys).drop (zs ++ [e]).length = B := by rw [hwhole, List.drop_left]
      rw [htake, hdrop]
      rw [hwhole, hys'] at hx
      refine ⟨((l.join g f).join e g).join h q, ?_, hold_cut hold hx hys'.symm hq hoff hne⟩
      simp only [listCutBehind, hnext, hring.next_head, Option.bind_eq_bind, Option.bind_some,
        setNext, setPrev, Function.update_self, List.headD_cons, Option.pure_def]
      rfl

end Ctools.Analysis
