import Ctools.Library.Machine
import Ctools.Program.LinuxList

/-!
# What the doubly linked lists are for

Some `struct list_head` are heads, each of a list of others; `HeadLists` says which, and what their
lists are.  No entry is on two lists or twice on one, and no entry is a head (`ListsHold`).
`listsAnswer` is every operation on such lists, and `listAllowed` when the header lets it be
used: what is added is on no list, what is deleted is on one, and so on.  A head whose list is
empty may be added to a list, as `list_del_init` leaves such.
-/

set_option autoImplicit false

namespace Ctools.Interface

open Ctools.Library Ctools.Program

variable {ν : Type} [DecidableEq ν]

/-- The list of every head. -/
abbrev HeadLists (ν : Type) := ν → Option (List ν)

/-- A use of the header. -/
inductive ListOp (ν : Type) where
  | initHead (list : ν)
  | add (new1 head : ν)
  | addTail (new1 head : ν)
  | del (entry : ν)
  | delInit (entry : ν)
  | replace (old new1 : ν)
  | replaceInit (old new1 : ν)
  | move (list head : ν)
  | moveTail (list head : ν)
  | rotateLeft (head : ν)
  | splice (list head : ν)
  | spliceTail (list head : ν)
  | spliceInit (list head : ν)
  | spliceTailInit (list head : ν)
  | cutPosition (list head entry : ν)
  | isLast (list head : ν)
  | empty (head : ν)
  | emptyCareful (head : ν)
  | isSingular (head : ν)
  | firstEntryOrNull (ptr : ν)
  | forEach (head : ν)
  | forEachPrev (head : ν)
  | forEachSafe (head : ν) (drop : ν → Bool)

/-- What it comes to. -/
inductive ListOut (ν : Type) where
  | done
  | flag (b : Bool)
  | entry (found : Option ν)
  | visited (entries : List ν)

/-- The header over memory; the loops are followed for `fuel` passes. -/
def listsInMemory (fuel : ℕ) : Machine (Links ν) (ListOp ν) (ListOut ν) where
  step l op :=
    match op with
    | .initHead list => some (.done, initListHead l list)
    | .add new1 head => (linuxListAdd l new1 head).map (.done, ·)
    | .addTail new1 head => (listAddTail l new1 head).map (.done, ·)
    | .del entry => (listDel l entry).map (.done, ·)
    | .delInit entry => (listDelInit l entry).map (.done, ·)
    | .replace old new1 => (listReplace l old new1).map (.done, ·)
    | .replaceInit old new1 => (listReplaceInit l old new1).map (.done, ·)
    | .move list head => (listMove l list head).map (.done, ·)
    | .moveTail list head => (listMoveTail l list head).map (.done, ·)
    | .rotateLeft head => (listRotateLeft l head).map (.done, ·)
    | .splice list head => (listSplice l list head).map (.done, ·)
    | .spliceTail list head => (listSpliceTail l list head).map (.done, ·)
    | .spliceInit list head => (listSpliceInit l list head).map (.done, ·)
    | .spliceTailInit list head => (listSpliceTailInit l list head).map (.done, ·)
    | .cutPosition list head entry => (listCutPosition l list head entry).map (.done, ·)
    | .isLast list head => some (.flag (listIsLast l list head), l)
    | .empty head => some (.flag (listEmpty l head), l)
    | .emptyCareful head => some (.flag (listEmptyCareful l head), l)
    | .isSingular head => some (.flag (listIsSingular l head), l)
    | .firstEntryOrNull ptr => some (.entry (listFirstEntryOrNull l ptr), l)
    | .forEach head => (listForEach l fuel head).map (.visited ·, l)
    | .forEachPrev head => (listForEachPrev l fuel head).map (.visited ·, l)
    | .forEachSafe head drop =>
        (listForEachSafe l fuel head drop).map fun (xs, l) => (.visited xs, l)

/-! ## The lists -/

/-- The lists without an entry. -/
def without (x : HeadLists ν) (n : ν) : HeadLists ν := fun h => (x h).map fun xs => xs.erase n

/-- A list with other entries. -/
def onList (x : HeadLists ν) (h : ν) (f : List ν → List ν) : HeadLists ν :=
  Function.update x h ((x h).map f)

/-- What is added is no head any more. -/
def putOn (x : HeadLists ν) (n h : ν) (f : List ν → List ν) : HeadLists ν :=
  onList (Function.update x n none) h f

/-- One in the place of another. -/
def inPlace (x : HeadLists ν) (old new1 : ν) : HeadLists ν :=
  if (x old).isSome then Function.update (Function.update x new1 (x old)) old none
  else fun h =>
    if h = new1 then none else (x h).map fun xs => xs.map fun a => if a = old then new1 else a

/-- The entries of one list put to those of another; `left` is what is left of it. -/
def joined (x : HeadLists ν) (g h : ν) (left : Option (List ν)) (f : List ν → List ν → List ν) :
    HeadLists ν :=
  match x g with
  | some (first :: rest) => onList (Function.update x g left) h (f (first :: rest))
  | _ => x

/-- The front of a list, up to an entry, put on another; up to the head, that is none. -/
def cutAt (x : HeadLists ν) (g h entry : ν) : HeadLists ν :=
  match x h with
  | some (first :: rest) =>
      if entry = h then Function.update x g (some [])
      else
        let k := (first :: rest).idxOf entry + 1
        Function.update (Function.update x g (some ((first :: rest).take k))) h
          (some ((first :: rest).drop k))
  | _ => x

/-- Every operation on the lists. -/
def listsAnswer (x : HeadLists ν) : ListOp ν → ListOut ν × HeadLists ν
  | .initHead list => (.done, Function.update x list (some []))
  | .add new1 head => (.done, putOn x new1 head (new1 :: ·))
  | .addTail new1 head => (.done, putOn x new1 head (· ++ [new1]))
  | .del entry => (.done, without x entry)
  | .delInit entry => (.done, Function.update (without x entry) entry (some []))
  | .replace old new1 => (.done, inPlace x old new1)
  | .replaceInit old new1 => (.done, Function.update (inPlace x old new1) old (some []))
  | .move list head => (.done, putOn (without x list) list head (list :: ·))
  | .moveTail list head => (.done, putOn (without x list) list head (· ++ [list]))
  | .rotateLeft head => (.done, onList x head (·.rotate 1))
  | .splice list head => (.done, joined x list head none (fun ys xs => ys ++ xs))
  | .spliceTail list head => (.done, joined x list head none (fun ys xs => xs ++ ys))
  | .spliceInit list head => (.done, joined x list head (some []) (fun ys xs => ys ++ xs))
  | .spliceTailInit list head => (.done, joined x list head (some []) (fun ys xs => xs ++ ys))
  | .cutPosition list head entry => (.done, cutAt x list head entry)
  | .isLast list head => (.flag ((x head).bind List.getLast? == some list), x)
  | .empty head => (.flag (x head == some []), x)
  | .emptyCareful head => (.flag (x head == some []), x)
  | .isSingular head => (.flag ((x head).map List.length == some 1), x)
  | .firstEntryOrNull ptr => (.entry ((x ptr).bind List.head?), x)
  | .forEach head => (.visited ((x head).getD []), x)
  | .forEachPrev head => (.visited ((x head).getD []).reverse, x)
  | .forEachSafe head drop =>
      (.visited ((x head).getD []), onList x head (List.filter fun n => !drop n))

/-- The header over lists. -/
def listsSpec : Machine (HeadLists ν) (ListOp ν) (ListOut ν) where
  step x op := some (listsAnswer x op)

/-! ## What the header asks for -/

/-- On no list. -/
def OffLists (x : HeadLists ν) (n : ν) : Prop := ∀ h xs, x h = some xs → n ∉ xs

/-- On a list. -/
def OnLists (x : HeadLists ν) (n : ν) : Prop := ∃ h xs, x h = some xs ∧ n ∈ xs

/-- On no list, and not the head of one with entries. -/
def FreeOfLists (x : HeadLists ν) (n : ν) : Prop := OffLists x n ∧ (x n = none ∨ x n = some [])

/-- When an operation may be used; a loop over a list of less than `fuel` entries. -/
def listAllowed (fuel : ℕ) (x : HeadLists ν) : ListOp ν → Prop
  | .initHead list => OffLists x list
  | .add new1 head | .addTail new1 head => FreeOfLists x new1 ∧ new1 ≠ head ∧ (x head).isSome
  | .del entry => OnLists x entry
  | .delInit entry => OnLists x entry ∨ x entry = some []
  | .replace old new1 | .replaceInit old new1 =>
      (OnLists x old ∨ (x old).isSome) ∧ FreeOfLists x new1 ∧ old ≠ new1
  | .move list head | .moveTail list head =>
      (OnLists x list ∨ x list = some [] ∧ list ≠ head) ∧ (x head).isSome
  | .splice list head | .spliceTail list head | .spliceInit list head | .spliceTailInit list head =>
      (x list).isSome ∧ (x head).isSome ∧ list ≠ head
  | .cutPosition list head entry =>
      ∃ xs, x head = some xs ∧ OffLists x list ∧ list ≠ head ∧ (entry = head ∨ entry ∈ xs)
  | .isLast list head => ∃ xs, x head = some xs ∧ list ∈ xs
  | .rotateLeft head | .empty head | .emptyCareful head | .isSingular head
  | .firstEntryOrNull head => (x head).isSome
  | .forEach head | .forEachPrev head | .forEachSafe head _ =>
      ∃ xs, x head = some xs ∧ xs.length < fuel

/-- The links hold the lists. -/
structure ListsHold (l : Links ν) (x : HeadLists ν) : Prop where
  circular : ∀ h xs, x h = some xs → l.Circular h xs
  heads : ∀ h xs n, x h = some xs → n ∈ xs → x n = none
  apart : ∀ h h' xs xs' n, x h = some xs → x h' = some xs' → n ∈ xs → n ∈ xs' → h = h'

end Ctools.Interface
