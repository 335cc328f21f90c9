import Ctools.Library.CircularList

/-!
# Doubly linked lists: `linux_list.h`

A `struct list_head` is a head, a node of a list, or on its own; `Links` holds the `next` and
`prev` of all of them, and `none` for a pointer that is to none of them, as `NULL` and the
poison of `list_del` are.  What follows such a pointer comes to nothing.  The macros that walk
the entries of a list walk the `struct list_head` in them the same way.
-/

set_option autoImplicit false

namespace Ctools.Program

open Ctools.Library

variable {ν : Type} [DecidableEq ν]

/-- `INIT_LIST_HEAD`.
SOURCE: linux_list.h:91-94 -/
def initListHead (l : Links ν) (list : ν) : Links ν :=
  (l.setNext list (some list)).setPrev list (some list)

/-- `__list_add`.
SOURCE: linux_list.h:103-110 -/
def listAddBetween (l : Links ν) (new1 prev next : ν) : Links ν :=
  (((l.setPrev next (some new1)).setNext new1 (some next)).setPrev new1 (some prev)).setNext prev
    (some new1)

/-- `list_add`, of which `listAdd` is the use the registry makes.
SOURCE: linux_list.h:125-127 -/
def linuxListAdd (l : Links ν) (new1 head : ν) : Option (Links ν) := do
  let next ← l.next head
  pure (listAddBetween l new1 head next)

/-- `list_add_tail`.
SOURCE: linux_list.h:137-139 -/
def listAddTail (l : Links ν) (new1 head : ν) : Option (Links ν) := do
  let prev ← l.prev head
  pure (listAddBetween l new1 prev head)

/-- `__list_del`.
SOURCE: linux_list.h:148-151 -/
def listDelBetween (l : Links ν) (prev next : ν) : Links ν :=
  (l.setPrev next (some prev)).setNext prev (some next)

/-- `__list_del_entry`.
SOURCE: linux_list.h:161-163 -/
def listDelEntry (l : Links ν) (entry : ν) : Option (Links ν) := do
  let prev ← l.prev entry
  let next ← l.next entry
  pure (listDelBetween l prev next)

/-- `list_del`; the poison is no node.
SOURCE: linux_list.h:165-169 -/
def listDel (l : Links ν) (entry : ν) : Option (Links ν) := do
  let prev ← l.prev entry
  let next ← l.next entry
  let l := listDelBetween l prev next
  pure ((l.setNext entry none).setPrev entry none)

/-- `list_replace`.
SOURCE: linux_list.h:183-189 -/
def listReplace (l : Links ν) (old new1 : ν) : Option (Links ν) := do
  let l := l.setNext new1 (l.next old)
  let next ← l.next new1
  let l := l.setPrev next (some new1)
  let l := l.setPrev new1 (l.prev old)
  let prev ← l.prev new1
  pure (l.setNext prev (some new1))

/-- `list_replace_init`.
SOURCE: linux_list.h:191-195 -/
def listReplaceInit (l : Links ν) (old new1 : ν) : Option (Links ν) := do
  let l ← listReplace l old new1
  pure (initListHead l old)

/-- `list_del_init`.
SOURCE: linux_list.h:201-204 -/
def listDelInit (l : Links ν) (entry : ν) : Option (Links ν) := do
  let l ← listDelEntry l entry
  pure (initListHead l entry)

/-- `list_move`.
SOURCE: linux_list.h:211-214 -/
def listMove (l : Links ν) (list head : ν) : Option (Links ν) := do
  let l ← listDelEntry l list
  linuxListAdd l list head

/-- `list_move_tail`.
SOURCE: linux_list.h:221-225 -/
def listMoveTail (l : Links ν) (list head : ν) : Option (Links ν) := do
  let l ← listDelEntry l list
  listAddTail l list head

/-- `list_is_last`.
SOURCE: linux_list.h:232-235 -/
def listIsLast (l : Links ν) (list head : ν) : Bool := l.next list == some head

/-- `list_empty`.
SOURCE: linux_list.h:241-243 -/
def listEmpty (l : Links ν) (head : ν) : Bool := l.next head == some head

/-- `list_empty_careful`.
SOURCE: linux_list.h:258-261 -/
def listEmptyCareful (l : Links ν) (head : ν) : Bool :=
  let next := l.next head
  next == some head && next == l.prev head

/-- `list_rotate_left`.
SOURCE: linux_list.h:267-274 -/
def listRotateLeft (l : Links ν) (head : ν) : Option (Links ν) :=
  if !listEmpty l head then do
    let first ← l.next head
    listMoveTail l first head
  else pure l

/-- `list_is_singular`.
SOURCE: linux_list.h:280-282 -/
def listIsSingular (l : Links ν) (head : ν) : Bool :=
  !listEmpty l head && l.next head == l.prev head

/-- `__list_cut_position`.
SOURCE: linux_list.h:284-293 -/
def listCutBehind (l : Links ν) (list head entry : ν) : Option (Links ν) := do
  let newFirst ← l.next entry
  let l := l.setNext list (l.next head)
  let next ← l.next list
  let l := l.setPrev next (some list)
  let l := l.setPrev list (some entry)
  let l := l.setNext entry (some list)
  let l := l.setNext head (some newFirst)
  pure (l.setPrev newFirst (some head))

/-- `list_cut_position`.
SOURCE: linux_list.h:309-323 -/
def listCutPosition (l : Links ν) (list head entry : ν) : Option (Links ν) :=
  if listEmpty l head then pure l
  else if listIsSingular l head && (l.next head != some entry && head != entry) then pure l
  else if entry = head then pure (initListHead l list)
  else listCutBehind l list head entry

/-- `__list_splice`.
SOURCE: linux_list.h:325-336 -/
def listSpliceBetween (l : Links ν) (list prev next : ν) : Option (Links ν) := do
  let first ← l.next list
  let last ← l.prev list
  let l := l.setPrev first (some prev)
  let l := l.setNext prev (some first)
  let l := l.setNext last (some next)
  pure (l.setPrev next (some last))

/-- `list_splice`.
SOURCE: linux_list.h:343-348 -/
def listSplice (l : Links ν) (list head : ν) : Option (Links ν) :=
  if !listEmpty l list then do
    let next ← l.next head
    listSpliceBetween l list head next
  else pure l

/-- `list_splice_tail`.
SOURCE: linux_list.h:355-360 -/
def listSpliceTail (l : Links ν) (list head : ν) : Option (Links ν) :=
  if !listEmpty l list then do
    let prev ← l.prev head
    listSpliceBetween l list prev head
  else pure l

/-- `list_splice_init`.
SOURCE: linux_list.h:369-375 -/
def listSpliceInit (l : Links ν) (list head : ν) : Option (Links ν) :=
  if !listEmpty l list then do
    let next ← l.next head
    let l ← listSpliceBetween l list head next
    pure (initListHead l list)
  else pure l

/-- `list_splice_tail_init`.
SOURCE: linux_list.h:385-391 -/
def listSpliceTailInit (l : Links ν) (list head : ν) : Option (Links ν) :=
  if !listEmpty l list then do
    let prev ← l.prev head
    let l ← listSpliceBetween l list prev head
    pure (initListHead l list)
  else pure l

/-- `list_first_entry_or_null`.
SOURCE: linux_list.h:410-411, 432-433 -/
def listFirstEntryOrNull (l : Links ν) (ptr : ν) : Option ν :=
  if !listEmpty l ptr then l.next ptr else none

/-! ## Walking a list -/

/-- The passes of `list_for_each`: the places it comes to.  The entry macros do the same.
SOURCE: linux_list.h:459-460, 497-500 -/
def listForEachFrom (l : Links ν) (head : ν) : ℕ → ν → Option (List ν)
  | 0, _ => none
  | fuel + 1, pos =>
      if pos ≠ head then do
        let next ← l.next pos
        let rest ← listForEachFrom l head fuel next
        pure (pos :: rest)
      else pure []

/-- `list_for_each`.
SOURCE: linux_list.h:459-460 -/
def listForEach (l : Links ν) (fuel : ℕ) (head : ν) : Option (List ν) := do
  let first ← l.next head
  listForEachFrom l head fuel first

/-- The passes of `list_for_each_prev`.
SOURCE: linux_list.h:467-468, 513-516 -/
def listForEachPrevFrom (l : Links ν) (head : ν) : ℕ → ν → Option (List ν)
  | 0, _ => none
  | fuel + 1, pos =>
      if pos ≠ head then do
        let prev ← l.prev pos
        let rest ← listForEachPrevFrom l head fuel prev
        pure (pos :: rest)
      else pure []

/-- `list_for_each_prev`.
SOURCE: linux_list.h:467-468 -/
def listForEachPrev (l : Links ν) (fuel : ℕ) (head : ν) : Option (List ν) := do
  let last ← l.prev head
  listForEachPrevFrom l head fuel last

/-- The passes of `list_for_each_safe` whose body deletes the entries that `drop` names: the
places it comes to, and the links.
SOURCE: linux_list.h:476-478, 576-580 -/
def listForEachSafeFrom (drop : ν → Bool) (head : ν) :
    ℕ → Links ν → ν → ν → Option (List ν × Links ν)
  | 0, _, _, _ => none
  | fuel + 1, l, pos, n =>
      if pos ≠ head then do
        let l ← (if drop pos then listDel l pos else pure l)
        let next ← l.next n
        let (rest, l) ← listForEachSafeFrom drop head fuel l n next
        pure (pos :: rest, l)
      else pure ([], l)

/-- `list_for_each_safe`.
SOURCE: linux_list.h:476-478 -/
def listForEachSafe (l : Links ν) (fuel : ℕ) (head : ν) (drop : ν → Bool) :
    Option (List ν × Links ν) := do
  let pos ← l.next head
  let n ← l.next pos
  listForEachSafeFrom drop head fuel l pos n

end Ctools.Program
