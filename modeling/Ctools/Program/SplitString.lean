import Ctools.Library.Loop

/-!
# `split_string` of `split_string.hpp`

A string is the list of its characters, of any type that can be compared.  A
`size_t` position is a natural number, since no string is as long as the largest
one, and `npos` is `none`.  `substr` throws `std::out_of_range` from beyond the
end.  The loop runs for at most `fuel` turns.
-/

set_option autoImplicit false

namespace Ctools.Program

open Ctools.Library

variable {α : Type}

/-- What `substr` throws. -/
inductive SplitFault where
  | outOfRange
deriving DecidableEq

/-- `string.find(delim, pos)`: the leftmost position from `pos` on at which
`delim` occurs. -/
def find [DecidableEq α] (string delim : List α) (pos : ℕ) : Option ℕ :=
  (List.range' pos (string.length + 1 - pos)).find? fun k => delim.isPrefixOf (string.drop k)

/-- `string.substr(pos, count)`. -/
def substr (string : List α) (pos : ℕ) (count : Option ℕ) : Except SplitFault (List α) :=
  if pos ≤ string.length then .ok (count.elim (string.drop pos) (string.drop pos).take)
  else .error .outOfRange

/-- The variables of `split_string`.
SOURCE: split_string.hpp:7-8 -/
structure SplitString (α : Type) where
  result : List (List α)
  fromPos : ℕ
  toPos : Option ℕ
deriving DecidableEq

/-- The variables before the loop.
SOURCE: split_string.hpp:7-8 -/
def splitStart : SplitString α := { result := [], fromPos := 0, toPos := some 0 }

/-- One turn: the condition sets `to`, and the body goes on behind the delimiter.
SOURCE: split_string.hpp:9-12 -/
def splitTurn [DecidableEq α] (string delim : List α) (s : SplitString α) :
    Except SplitFault (Turn (SplitString α)) :=
  match find string delim s.fromPos with
  | none => .ok (.leave { s with toPos := none })
  | some toPos =>
      (substr string s.fromPos (some (toPos - s.fromPos))).map fun piece =>
        .again { result := s.result ++ [piece], fromPos := toPos + delim.length, toPos := toPos }

/-- `split_string`.
SOURCE: split_string.hpp:5-15 -/
def splitString [DecidableEq α] (fuel : ℕ) (string delim : List α) :
    Option (Except SplitFault (List (List α))) :=
  (runLoop (splitTurn string delim) fuel splitStart).map fun ended => do
    let s ← ended
    let piece ← substr string s.fromPos s.toPos
    pure (s.result ++ [piece])

end Ctools.Program
