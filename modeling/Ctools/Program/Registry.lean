import Ctools.Library.CircularList
import Ctools.Program.Activity

/-!
# The registered activities: `activity_reg` and `activity_get`

An activity is named by its address.  Of its fields the registry reads `node`, the name
in `cfg`, and `state`; what is in them before the activity is registered is arbitrary,
and `memset` sets them to zero.  Every call holds `act_manager_lock` from its first
lookup to its end, so it is one step.

The lookup follows `act_list` for `fuel` passes of its loop and answers `none` when it has
not ended by then or reads through a null pointer.
-/

set_option autoImplicit false

namespace Ctools.Program

open Ctools.Library

/-- A `struct list_head` of the registry: `act_list`, or the `node` of an activity. -/
inductive Link where
  | actList
  | node (act : ℕ)
deriving DecidableEq

/-- `act_list` and the fields of all activities; `cfg` is the name in `act->cfg`, and
`none` where `act->cfg` is `NULL`.
SOURCE: activity.c:37, activity.h:43-56 -/
structure Registry where
  links : Links Link
  cfg : ℕ → Option String
  state : ℕ → ActivityState

/-- `act_list` is empty, and the activities hold anything.
SOURCE: activity.c:37 -/
def registryStart (memory : Registry) : Registry :=
  let links := memory.links.setNext .actList (some .actList)
  { memory with links := links.setPrev .actList (some .actList) }

/-- What activities of static storage hold before they are registered. -/
def staticMemory : Registry := ⟨⟨fun _ => none, fun _ => none⟩, fun _ => none, fun _ => .none⟩

/-- What the calls of `activity_run_local` answer. -/
structure StartAnswers where
  uevInit : ℤ
  uevEventInit : ℤ
  pthreadCreate : ℤ
deriving DecidableEq

/-- All three calls succeed. -/
def StartAnswers.succeed : StartAnswers := ⟨0, 0, 0⟩

/-- What `activity_run_local` returns, and the state it leaves.  Behind the labels it
gives back what `uev_event_init` and `uev_init` set up.
SOURCE: activity.c:182-219 -/
def activityRunLocal (state : ActivityState) (answers : StartAnswers) : ℤ × ActivityState :=
  if state = .run then (0, state)
  else if state ≠ .stop then (-1, state)
  else if answers.uevInit ≠ 0 then (answers.uevInit, state)
  else if answers.uevEventInit ≠ 0 then (answers.uevEventInit, state)
  else if answers.pthreadCreate ≠ 0 then (answers.pthreadCreate, state)
  else (0, .run)

/-- `list_add`; `none` if `head->next` is `NULL`.
SOURCE: linux_list.h:103-127 -/
def listAdd (links : Links Link) (new head : Link) : Option (Links Link) :=
  (links.next head).map fun next => links.insert new head next

/-- The loop of `activity_get_local`, from the entry of `p` on.
SOURCE: activity.c:224-229 -/
def actListFind (r : Registry) (actName : String) : ℕ → Link → Option (Option ℕ)
  | 0, _ => none
  | _ + 1, .actList => some none
  | fuel + 1, .node p =>
      match r.cfg p with
      | none => none
      | some name =>
          if name = actName then some (some p)
          else (r.links.next (.node p)).bind (actListFind r actName fuel)

/-- `activity_get_local`.
SOURCE: activity.c:221-231 -/
def activityGetLocal (fuel : ℕ) (r : Registry) (actName : String) : Option (Option ℕ) :=
  (r.links.next .actList).bind (actListFind r actName fuel)

/-- `memset(act, 0, sizeof(*act))`.
SOURCE: activity.c:261 -/
def memsetAct (r : Registry) (act : ℕ) : Registry where
  links := r.links.clear (.node act)
  cfg := Function.update r.cfg act none
  state := Function.update r.state act .none

/-- `activity_reg`; `actName` is the name in `act_cfg`.
SOURCE: activity.c:243-276 -/
def activityReg (fuel : ℕ) (r : Registry) (act : Option ℕ) (actName : Option String)
    (answers : StartAnswers) : Option (ℤ × Registry) :=
  match act, actName with
  | some act, some actName =>
      match activityGetLocal fuel r actName with
      | none => none
      | some (some _) => some (-1, r)
      | some none =>
          let r := memsetAct r act
          let r := { r with cfg := Function.update r.cfg act (some actName) }
          (listAdd r.links (.node act) .actList).map fun links =>
            let r := { r with links := links, state := Function.update r.state act .stop }
            let (ret, state) := activityRunLocal (r.state act) answers
            (ret, { r with state := Function.update r.state act state })
  | _, _ => some (-EINVAL, r)

/-- `activity_get`.
SOURCE: activity.c:278-289 -/
def activityGet (fuel : ℕ) (r : Registry) (actName : Option String) : Option (Option ℕ) :=
  match actName with
  | none => some none
  | some actName => activityGetLocal fuel r actName

/-- A call and its arguments, and for `activity_reg` what starting the activity meets. -/
inductive RegistryOp where
  | reg (act : Option ℕ) (actName : Option String) (answers : StartAnswers)
  | get (actName : Option String)
deriving DecidableEq

/-- What a call returns. -/
inductive RegistryOut where
  | rc (rc : ℤ)
  | act (act : Option ℕ)
deriving DecidableEq

/-- One call; `none` if it has not returned after `fuel` passes of its loop. -/
def registryCall (fuel : ℕ) (r : Registry) : RegistryOp → Option (RegistryOut × Registry)
  | .reg act actName answers =>
      (activityReg fuel r act actName answers).map fun (rc, r) => (.rc rc, r)
  | .get actName => (activityGet fuel r actName).map fun act => (.act act, r)

/-- The registry, whose calls come one after the other. -/
def registryMachine (fuel : ℕ) : Machine Registry RegistryOp RegistryOut := ⟨registryCall fuel⟩

end Ctools.Program
