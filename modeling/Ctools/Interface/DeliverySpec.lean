import Ctools.Interface.ActivitySpec

/-!
# What a client is served with

A client asks for a call of its handler, or of the function it gives to `activity_exec`,
with its argument or a copy of it.  `acceptedCalls` and `deliveries` read off what was shown
which calls were accepted and what the worker called for the messages it handled; `Serves`
says that a delivery is what a call asked for.
-/

set_option autoImplicit false

namespace Ctools.Interface

open Ctools.Library Ctools.Program

variable {ι : Type}

/-- The call whose message a step accepts. -/
def acceptsCall (o : ActObs) : List ActivityCall :=
  match o.ret with
  | some (.send a, rc) => if rc = 0 then [.send a] else []
  | some (.exec a, rc) => if rc = 0 then [.exec a] else []
  | _ => []

/-- What a step that handles a client's message called for it. -/
def delivers (o : ActObs) : List (Option HandlerCall) := (handles o).map fun _ => o.called

/-- The calls whose messages were accepted, in order. -/
def acceptedCalls (h : List (ι × ActObs)) : List ActivityCall := h.flatMap fun e => acceptsCall e.2

/-- What was called for the client's messages handled, in order. -/
def deliveries (h : List (ι × ActObs)) : List (Option HandlerCall) :=
  h.flatMap fun e => delivers e.2

/-- An argument as a call hands it on: a copy, or the client's own. -/
def HandsOn (argSize : Int32) (arg : ℕ) (p : Ptr) : Prop :=
  if argSize ≠ 0 then ∃ c, p = .copy c else p = .user arg

/-- A delivery is what a call asked for; without a handler a message is asked for nothing. -/
def Serves (handler : Bool) : ActivityCall → Option HandlerCall → Prop
  | .send a, some (.user type arg) =>
      handler = true ∧ type.toUInt32.toInt32 = a.msg ∧ HandsOn a.argSize a.arg arg
  | .send a, none => handler = false ∨ ¬ ACTIVITY_MSG_GENERAL ≤ a.msg
  | .exec a, some (.exec func arg) => func = a.func ∧ HandsOn a.argSize a.arg arg
  | _, _ => False

end Ctools.Interface
