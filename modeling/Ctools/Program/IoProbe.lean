import Ctools.Library.Interrupts

/-!
# The probe of `io_probe.h`

A probe counts in `value` the entries that have not been left, and drives its pin by
`io_func`.  An entry is two steps, the test with its call of `io_func`, and the increment;
an exit is the decrement, and the call of `io_func` if that gave zero.  An activation does
any number of balanced entries and exits.  `value` is an `int`: a result that it cannot
hold is undefined behaviour, and the step fails.
-/

set_option autoImplicit false

namespace Ctools.Program

open Ctools.Library

/-- The counter, and what the last call of `io_func` set the pin to.
SOURCE: io_probe.h:4-8 -/
structure IoProbe where
  value : ℤ
  level : Bool
deriving DecidableEq

/-- Where an activation is: between calls, inside `io_probe_entry` behind the test, or
inside `io_probe_exit` behind the decrement, which gave zero or not. -/
inductive ProbePc where
  | idle
  | entering
  | exiting (zero : Bool)
deriving DecidableEq

/-- An activation, with the number of its entries it has yet to leave. -/
structure ProbeFrame where
  opened : ℕ
  pc : ProbePc
deriving DecidableEq

/-- The steps of `io_probe_entry` and `io_probe_exit`. -/
inductive ProbeAct where
  | test
  | increment
  | decrement
  | clear
deriving DecidableEq

/-- A value that an `int` has to hold. -/
def intValue (value : ℤ) : Option ℤ :=
  if -2 ^ 31 ≤ value ∧ value < 2 ^ 31 then some value else none

/-- One step of an activation.
SOURCE: io_probe.h:10-23 -/
def probeStep (obj : IoProbe) (frame : ProbeFrame) : ProbeAct → Option (IoProbe × ProbeFrame)
  | .test =>
      match frame.pc with
      | .idle => some (if obj.value = 0 then { obj with level := true } else obj,
          { frame with pc := .entering })
      | _ => none
  | .increment =>
      match frame.pc with
      | .entering => do
          let value ← intValue (obj.value + 1)
          pure ({ obj with value := value }, { opened := frame.opened + 1, pc := .idle })
      | _ => none
  | .decrement =>
      match frame.pc, frame.opened with
      | .idle, opened + 1 => do
          let value ← intValue (obj.value - 1)
          pure ({ obj with value := value }, { opened := opened, pc := .exiting (value = 0) })
      | _, _ => none
  | .clear =>
      match frame.pc with
      | .exiting zero => some (if zero then { obj with level := false } else obj,
          { frame with pc := .idle })
      | _ => none

/-- The code of the probe; a handler starts with no entry, and returns when it has left
all of its own. -/
def probeCode : Code IoProbe ProbeFrame ProbeAct where
  step := probeStep
  entry := ⟨0, .idle⟩
  mayReturn := fun frame => frame = ⟨0, .idle⟩

/-- The probe under any interrupts. -/
def probeMachine : Machine (Interrupted IoProbe ProbeFrame) (InterruptAct ProbeAct) Unit :=
  probeCode.interrupted

/-- No entry yet, and the pin at 0. -/
def probeStart : Interrupted IoProbe ProbeFrame := ⟨⟨0, false⟩, [], ⟨0, .idle⟩⟩

end Ctools.Program
