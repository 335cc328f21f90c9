import Ctools.Analysis.LinuxListOps

/-!
# Doubly linked lists over whole runs

What the questions and the loops of the header answer is read off the list they are about
(`listIsLast_eq`, `listForEachFrom_eq`); the loop that deletes what it passes keeps a place behind
which nothing is changed (`exists_forEachSafeFrom`).  With that every operation that the header
allows is answered over memory as over lists (`linuxLists_step`), and so is every run.
-/

set_option autoImplicit false

namespace Ctools.Analysis

open Ctools.Library Ctools.Library.Links Ctools.Program Ctools.Interface

variable {ν : Type} [DecidableEq ν] {l : Links ν} {x : HeadLists ν} {h : ν} {xs : List ν}

/-! ## Questions -/

/-- `list_is_last`. -/
theorem listIsLast_eq (hold : ListsHold l x) (hx : x h = some xs) {n : ν} (hn : n ∈ xs) :
    listIsLast l n h = ((x h).bind List.getLast? == some n) := by
  obtain ⟨A, B, rfl⟩ := List.append_of_mem hn
  have hring := hold.circular h _ hx
  rw [listIsLast, hring.next_node, hx, Option.bind_some, List.getLast?_append_cons]
  cases B with
  | nil => simp
  | cons b B =>
    have hdistinct := hring.distinct
    simp only [List.nodup_cons, List.nodup_append, List.mem_append, List.mem_cons, not_or]
      at hdistinct
    have hbh : b ≠ h := Ne.symm hdistinct.1.2.2.1
    have hlast : (b :: B).getLast? ≠ some n := by
      intro heq
      rcases List.mem_cons.mp (List.mem_of_getLast? heq) with hnb | hnB
      · exact hdistinct.2.2.1.1.1 hnb
      · exact hdistinct.2.2.1.1.2 hnB
    simp [hbh, hlast]

/-- `list_empty_careful`. -/
theorem listEmptyCareful_eq (hold : ListsHold l x) (hx : x h = some xs) :
    listEmptyCareful l h = (x h == some []) := by
  have hring := hold.circular h xs hx
  have hempty := listEmpty_eq hold hx
  rw [listEmpty] at hempty
  rw [listEmptyCareful, hempty, hx]
  cases xs with
  | nil => rw [hring.next_head, hring.prev_head]; simp
  | cons => rfl

/-- `list_first_entry_or_null`. -/
theorem listFirstEntryOrNull_eq (hold : ListsHold l x) (hx : x h = some xs) :
    listFirstEntryOrNull l h = (x h).bind List.head? := by
  rw [listFirstEntryOrNull, listEmpty_eq hold hx, (hold.circular h xs hx).next_head, hx]
  cases xs <;> rfl

/-! ## Loops -/

/-- The passes of `list_for_each`, from any place of the list. -/
theorem listForEachFrom_eq {before after : List ν} (hring : l.Circular h (before ++ after))
    {fuel : ℕ} (hfuel : after.length < fuel) :
    listForEachFrom l h fuel (after.headD h) = some after := by
  induction after generalizing before fuel with
  | nil =>
    obtain ⟨fuel, rfl⟩ := Nat.exists_eq_add_of_lt hfuel
    simp [listForEachFrom]
  | cons a after ih =>
    obtain ⟨fuel, rfl⟩ : ∃ k, fuel = k + 1 := ⟨fuel - 1, by omega⟩
    have hah : a ≠ h := by
      rintro rfl
      exact (List.nodup_cons.mp hring.distinct).1 (by simp)
    have hrest : l.Circular h ((before ++ [a]) ++ after) := by simpa using hring
    have hwalk := ih hrest (Nat.lt_of_succ_lt_succ hfuel)
    rw [List.headD_cons, listForEachFrom, if_pos hah, hring.next_node, Option.bind_eq_bind,
      Option.bind_some, hwalk]
    rfl

/-- The passes of `list_for_each_prev`, from any place of the list. -/
theorem listForEachPrevFrom_eq {before after : List ν} (hring : l.Circular h (before ++ after))
    {fuel : ℕ} (hfuel : before.length < fuel) :
    listForEachPrevFrom l h fuel (before.getLastD h) = some before.reverse := by
  induction before using List.reverseRecOn generalizing after fuel with
  | nil =>
    obtain ⟨fuel, rfl⟩ : ∃ k, fuel = k + 1 := ⟨fuel - 1, by omega⟩
    simp [listForEachPrevFrom]
  | append_singleton before a ih =>
    rw [List.length_append, List.length_singleton] at hfuel
    obtain ⟨fuel, rfl⟩ : ∃ k, fuel = k + 1 := ⟨fuel - 1, by omega⟩
    have hah : a ≠ h := by
      rintro rfl
      exact (List.nodup_cons.mp hring.distinct).1 (by simp)
    have hrest : l.Circular h (before ++ a :: after) := by simpa using hring
    have hwalk := ih hrest (Nat.lt_of_succ_lt_succ hfuel)
    rw [List.getLastD_concat, listForEachPrevFrom, if_pos hah, hrest.prev_node,
      Option.bind_eq_bind, Option.bind_some, hwalk, List.reverse_concat]
    rfl

/-- The passes of `list_for_each_safe`, behind entries that were kept. -/
theorem exists_forEachSafeFrom (drop : ν → Bool) {kept rest : List ν} {n : ν} {fuel : ℕ}
    (hold : ListsHold l x) (hx : x h = some (kept ++ rest)) (hfuel : rest.length < fuel)
    (hn : l.next (rest.headD h) = some n) :
    ∃ l', listForEachSafeFrom drop h fuel l (rest.headD h) n = some (rest, l') ∧
      ListsHold l' (Function.update x h (some (kept ++ rest.filter fun a => !drop a))) := by
  induction rest generalizing kept l x n fuel with
  | nil =>
    obtain ⟨fuel, rfl⟩ : ∃ k, fuel = k + 1 := ⟨fuel - 1, by omega⟩
    refine ⟨l, by simp [listForEachSafeFrom], ?_⟩
    rwa [List.filter_nil, ← hx, Function.update_eq_self]
  | cons a rest ih =>
    obtain ⟨fuel, rfl⟩ : ∃ k, fuel = k + 1 := ⟨fuel - 1, by omega⟩
    have hring := hold.circular h _ hx
    have hah : a ≠ h := by
      rintro rfl
      exact (List.nodup_cons.mp hring.distinct).1 (by simp)
    rw [List.headD_cons, hring.next_node, Option.some_inj] at hn
    subst hn
    -- The next place was read before the body, and the body does not change what follows it.
    have hreads : ∀ {l : Links ν} {kept : List ν}, l.Circular h (kept ++ rest) →
        ∃ next, l.next (rest.headD h) = some next := by
      intro l kept hring
      cases rest with
      | nil => exact ⟨_, hring.next_head⟩
      | cons b rest => exact ⟨_, hring.next_node⟩
    have hfuel' : rest.length < fuel := Nat.lt_of_succ_lt_succ hfuel
    cases hdrop : drop a with
    | true =>
      have hon : OnLists x a := ⟨h, _, hx, List.mem_append_right _ List.mem_cons_self⟩
      obtain ⟨l₁, hdel, hold₁⟩ := exists_listDel hold hon
      rw [without_eq hold hx] at hold₁
      have hx₁ := Function.update_self h (some (kept ++ rest)) x
      obtain ⟨next, hnext⟩ := hreads (hold₁.circular h _ hx₁)
      obtain ⟨l', hwalk, hold'⟩ := ih hold₁ hx₁ hfuel' hnext
      refine ⟨l', ?_, ?_⟩
      · rw [List.headD_cons, listForEachSafeFrom, if_pos hah]
        simp only [hdrop, if_true, hdel, hnext, hwalk, Option.bind_eq_bind, Option.bind_some,
          Option.pure_def]
      · rw [Function.update_idem] at hold'
        simpa [List.filter_cons, hdrop] using hold'
    | false =>
      have hx₁ : x h = some ((kept ++ [a]) ++ rest) := by rw [hx]; simp
      obtain ⟨next, hnext⟩ := hreads (hold.circular h _ hx₁)
      obtain ⟨l', hwalk, hold'⟩ := ih hold hx₁ hfuel' hnext
      refine ⟨l', ?_, ?_⟩
      · rw [List.headD_cons, listForEachSafeFrom, if_pos hah]
        simp only [hdrop, Bool.false_eq_true, if_false, hnext, hwalk, Option.bind_eq_bind,
          Option.bind_some, Option.pure_def]
      · simpa [List.filter_cons, hdrop] using hold'

/-- `list_for_each_safe`. -/
theorem exists_listForEachSafe (drop : ν → Bool) {fuel : ℕ} (hold : ListsHold l x)
    (hx : x h = some xs) (hfuel : xs.length < fuel) :
    ∃ l', listForEachSafe l fuel h drop = some (xs, l') ∧
      ListsHold l' (onList x h (List.filter fun a => !drop a)) := by
  have hring := hold.circular h xs hx
  obtain ⟨n, hn⟩ : ∃ n, l.next (xs.headD h) = some n := by
    cases xs with
    | nil => exact ⟨_, hring.next_head⟩
    | cons a rest => exact ⟨_, (show l.Circular h ([] ++ a :: rest) from hring).next_node⟩
  obtain ⟨l', hwalk, hold'⟩ :=
    exists_forEachSafeFrom drop hold (show x h = some ([] ++ xs) from hx) hfuel hn
  refine ⟨l', ?_, by rwa [onList_eq hx]⟩
  rw [listForEachSafe, hring.next_head, Option.bind_eq_bind, Option.bind_some, hn,
    Option.bind_some]
  exact hwalk

/-! ## Every operation -/

/-- **One operation** that the header allows is answered over memory as over lists. -/
theorem linuxLists_step {fuel : ℕ} (hold : ListsHold l x) {op : ListOp ν}
    (hallowed : listAllowed fuel x op) :
    ∃ l', (listsInMemory fuel).step l op = some ((listsAnswer x op).1, l') ∧
      ListsHold l' (listsAnswer x op).2 := by
  -- What comes to new links with nothing to show.
  have hdone : ∀ {code : Option (Links ν)} {y : HeadLists ν},
      (∃ l', code = some l' ∧ ListsHold l' y) →
      ∃ l', code.map ((ListOut.done : ListOut ν), ·) = some (.done, l') ∧ ListsHold l' y := by
    rintro code y ⟨l', rfl, hold'⟩
    exact ⟨l', rfl, hold'⟩
  have hflag : ∀ {b c : Bool}, b = c → some ((.flag b : ListOut ν), l) = some (.flag c, l) :=
    fun hbc => congrArg (fun b => some (ListOut.flag b, l)) hbc
  have hlist : ∀ {h : ν}, (x h).isSome → ∃ xs, x h = some xs := Option.isSome_iff_exists.mp
  cases op with
  | initHead list => exact ⟨_, rfl, hold_init hold hallowed⟩
  | add new1 head =>
    obtain ⟨hfree, hne, hsome⟩ := hallowed
    obtain ⟨xs, hx⟩ := hlist hsome
    exact hdone (exists_listAdd hold hx hfree hne)
  | addTail new1 head =>
    obtain ⟨hfree, hne, hsome⟩ := hallowed
    obtain ⟨xs, hx⟩ := hlist hsome
    exact hdone (exists_listAddTail hold hx hfree hne)
  | del entry => exact hdone (exists_listDel hold hallowed)
  | delInit entry => exact hdone (exists_listDelInit hold hallowed)
  | replace old new1 =>
    obtain ⟨hon, hfree, hne⟩ := hallowed
    exact hdone (exists_listReplace hold hon hfree hne)
  | replaceInit old new1 =>
    obtain ⟨hon, hfree, hne⟩ := hallowed
    exact hdone (exists_listReplaceInit hold hon hfree hne)
  | move list head =>
    obtain ⟨hon, hsome⟩ := hallowed
    obtain ⟨xs, hx⟩ := hlist hsome
    exact hdone (exists_listMove hold hx hon)
  | moveTail list head =>
    obtain ⟨hon, hsome⟩ := hallowed
    obtain ⟨xs, hx⟩ := hlist hsome
    exact hdone (exists_listMoveTail hold hx hon)
  | rotateLeft head =>
    obtain ⟨xs, hx⟩ := hlist hallowed
    exact hdone (exists_listRotateLeft hold hx)
  | splice list head =>
    obtain ⟨hsome, hsome', hne⟩ := hallowed
    obtain ⟨ys, hy⟩ := hlist hsome
    obtain ⟨xs, hx⟩ := hlist hsome'
    exact hdone (exists_listSplice hold hx hy hne)
  | spliceTail list head =>
    obtain ⟨hsome, hsome', hne⟩ := hallowed
    obtain ⟨ys, hy⟩ := hlist hsome
    obtain ⟨xs, hx⟩ := hlist hsome'
    exact hdone (exists_listSpliceTail hold hx hy hne)
  | spliceInit list head =>
    obtain ⟨hsome, hsome', hne⟩ := hallowed
    obtain ⟨ys, hy⟩ := hlist hsome
    obtain ⟨xs, hx⟩ := hlist hsome'
    exact hdone (exists_listSpliceInit hold hx hy hne)
  | spliceTailInit list head =>
    obtain ⟨hsome, hsome', hne⟩ := hallowed
    obtain ⟨ys, hy⟩ := hlist hsome
    obtain ⟨xs, hx⟩ := hlist hsome'
    exact hdone (exists_listSpliceTailInit hold hx hy hne)
  | cutPosition list head entry =>
    obtain ⟨xs, hx, hoff, hne, hentry⟩ := hallowed
    exact hdone (exists_listCutPosition hold hx hoff hne hentry)
  | isLast list head =>
    obtain ⟨xs, hx, hmem⟩ := hallowed
    exact ⟨l, hflag (listIsLast_eq hold hx hmem), hold⟩
  | empty head =>
    obtain ⟨xs, hx⟩ := hlist hallowed
    exact ⟨l, hflag (listEmpty_eq hold hx), hold⟩
  | emptyCareful head =>
    obtain ⟨xs, hx⟩ := hlist hallowed
    exact ⟨l, hflag (listEmptyCareful_eq hold hx), hold⟩
  | isSingular head =>
    obtain ⟨xs, hx⟩ := hlist hallowed
    exact ⟨l, hflag (listIsSingular_eq hold hx), hold⟩
  | firstEntryOrNull ptr =>
    obtain ⟨xs, hx⟩ := hlist hallowed
    have hfound := listFirstEntryOrNull_eq hold hx
    exact ⟨l, congrArg (fun found => some (ListOut.entry found, l)) hfound, hold⟩
  | forEach head =>
    obtain ⟨xs, hx, hfuel⟩ := hallowed
    have hring := hold.circular head xs hx
    have hwalk := listForEachFrom_eq (show l.Circular head ([] ++ xs) from hring) hfuel
    refine ⟨l, ?_, hold⟩
    simp only [listsInMemory, listsAnswer, listForEach, hring.next_head, Option.bind_eq_bind,
      Option.bind_some, hwalk, hx, Option.map_some, Option.getD_some]
  | forEachPrev head =>
    obtain ⟨xs, hx, hfuel⟩ := hallowed
    have hring : l.Circular head (xs ++ []) := by simpa using hold.circular head xs hx
    have hwalk := listForEachPrevFrom_eq hring hfuel
    have hprev := (hold.circular head xs hx).prev_head
    refine ⟨l, ?_, hold⟩
    simp only [listsInMemory, listsAnswer, listForEachPrev, hprev, Option.bind_eq_bind,
      Option.bind_some, hwalk, hx, Option.map_some, Option.getD_some]
  | forEachSafe head drop =>
    obtain ⟨xs, hx, hfuel⟩ := hallowed
    obtain ⟨l', hwalk, hold'⟩ := exists_listForEachSafe drop hold hx hfuel
    refine ⟨l', ?_, hold'⟩
    simp only [listsInMemory, listsAnswer, hwalk, hx, Option.map_some, Option.getD_some]

omit [DecidableEq ν] in
/-- From no heads, whatever the memory holds. -/
theorem linuxLists_start (l : Links ν) : ListsHold l fun _ => none where
  circular _ _ hx := nomatch hx
  heads _ _ _ hx := nomatch hx
  apart _ _ _ _ _ hx := nomatch hx

end Ctools.Analysis

open Ctools.Library Ctools.Program Ctools.Interface in
/-- **The lists of any run**: as long as the header allows every operation, all operations of a run
over memory, loops that delete what they pass included, answer as they do over lists, and the
links hold the lists after it; whatever the memory held before the first head was set up. -/
theorem Ctools.Analysis.linuxLists_refine {ν : Type} [DecidableEq ν] {fuel : ℕ}
    (memory : Links ν) {h : List (ListOp ν × ListOut ν)} {x : HeadLists ν}
    (hrun : listsSpec.Run (listAllowed fuel) (fun _ => none) h x) :
    ∃ l, (listsInMemory fuel).Run Machine.anyStep memory h l ∧ ListsHold l x := by
  induction hrun with
  | start => exact ⟨memory, .start, Ctools.Analysis.linuxLists_start memory⟩
  | next before met moved ih =>
    obtain ⟨l, hrun', hold⟩ := ih
    obtain ⟨l', hstep, hold'⟩ := Ctools.Analysis.linuxLists_step hold met
    obtain ⟨rfl, rfl⟩ := Prod.mk.inj (Option.some_inj.mp moved)
    exact ⟨l', hrun'.next trivial hstep, hold'⟩

open Ctools.Library Ctools.Program Ctools.Interface in
/-- A list is set up, given one node, and walked by a loop that deletes it. -/
theorem Ctools.Analysis.linuxLists_refine_at :
    ∃ l, (listsInMemory 3).Run Machine.anyStep ⟨fun n => some (n + 1), fun _ => none⟩
      [(.initHead 0, .done), (.addTail 7 0, .done), (.forEachSafe 0 (· == 7), .visited [7])] l ∧
      ListsHold l (onList (putOn (Function.update (fun _ => none) 0 (some [])) 7 0 (· ++ [7])) 0
        (List.filter fun n => !(n == 7))) := by
  refine Ctools.Analysis.linuxLists_refine ⟨fun n => some (n + 1), fun _ => none⟩
    (.next (.next (.next .start ?_ rfl) ?_ rfl) ?_ rfl)
  · intro h xs hx
    cases hx
  · refine ⟨⟨fun h xs hx => ?_, .inl rfl⟩, by decide, rfl⟩
    by_cases hh : h = 0
    · subst hh
      obtain rfl := Option.some_inj.mp hx
      exact List.not_mem_nil
    · rw [Function.update_of_ne hh] at hx
      cases hx
  · exact ⟨[7], rfl, by decide⟩
