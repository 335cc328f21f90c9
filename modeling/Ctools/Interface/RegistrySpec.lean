import Ctools.Program.Registry

/-!
# What the registry is for

The registry holds the activities that were registered and the names they were registered
under: a name is taken once, and it is looked up.  A call registers its activity where it
returns 0 (`registered`); `registrySpec` is the list of the registered activities, with the
calls on it.

`listSpec` is the list of the activities that `activity_reg` has put on `act_list`, which
it does before it starts them, whether or not the start succeeds.
-/

set_option autoImplicit false

namespace Ctools.Interface

open Ctools.Library Ctools.Program

/-- An activity and the name it was registered under. -/
structure Registration where
  act : ℕ
  name : String
deriving DecidableEq

/-- The `node` of the activity. -/
def Registration.link (e : Registration) : Link := .node e.act

/-- The activity that was last registered under a name. -/
def registeredUnder (x : List Registration) (name : String) : Option ℕ :=
  (x.find? fun e => e.name = name).map Registration.act

/-- `activity_reg`, of the registered activities: one is registered where its start
succeeds. -/
def register (x : List Registration) (act : Option ℕ) (actName : Option String)
    (answers : StartAnswers) : ℤ × List Registration :=
  match act, actName with
  | some act, some actName =>
      match registeredUnder x actName with
      | some _ => (-1, x)
      | none =>
          let rc := (activityRunLocal .stop answers).1
          (rc, if rc = 0 then ⟨act, actName⟩ :: x else x)
  | _, _ => (-EINVAL, x)

/-- One call on the registered activities, newest first. -/
def registryAnswer (x : List Registration) : RegistryOp → RegistryOut × List Registration
  | .reg act actName answers =>
      let (rc, x) := register x act actName answers
      (.rc rc, x)
  | .get actName => (.act (actName.bind (registeredUnder x)), x)

/-- The registered activities. -/
def registrySpec : Machine (List Registration) RegistryOp RegistryOut :=
  ⟨fun x op => some (registryAnswer x op)⟩

/-- An activity that is given a free name is not registered yet, and its start succeeds. -/
def registersWell (x : List Registration) : RegistryOp → Prop
  | .reg (some act) (some actName) answers =>
      registeredUnder x actName = none →
        act ∉ x.map Registration.act ∧ (activityRunLocal .stop answers).1 = 0
  | _ => True

/-- What a call registers: it returned 0. -/
def registration : RegistryOp × RegistryOut → Option Registration
  | (.reg (some act) (some actName) _, .rc rc) => if rc = 0 then some ⟨act, actName⟩ else none
  | _ => none

/-- The activities registered after a history, newest first. -/
def registered (h : List (RegistryOp × RegistryOut)) : List Registration :=
  (h.filterMap registration).reverse

/-- `activity_reg`, of the activities on `act_list`: one is put there whether or not its
start succeeds. -/
def enlist (x : List Registration) (act : Option ℕ) (actName : Option String)
    (answers : StartAnswers) : ℤ × List Registration :=
  match act, actName with
  | some act, some actName =>
      match registeredUnder x actName with
      | some _ => (-1, x)
      | none => ((activityRunLocal .stop answers).1, ⟨act, actName⟩ :: x)
  | _, _ => (-EINVAL, x)

/-- One call on the activities of `act_list`, newest first. -/
def listAnswer (x : List Registration) : RegistryOp → RegistryOut × List Registration
  | .reg act actName answers =>
      let (rc, x) := enlist x act actName answers
      (.rc rc, x)
  | .get actName => (.act (actName.bind (registeredUnder x)), x)

/-- The activities that were put on `act_list`. -/
def listSpec : Machine (List Registration) RegistryOp RegistryOut :=
  ⟨fun x op => some (listAnswer x op)⟩

/-- No activity that is on `act_list` is put there again under a name that is free. -/
def listsNew (x : List Registration) : RegistryOp → Prop
  | .reg (some act) (some actName) _ =>
      registeredUnder x actName = none → act ∉ x.map Registration.act
  | _ => True

/-- `act_list` is circular, its nodes are activities with different names, all that were
registered are on it, and the lookup of every name ends with the activity that was
registered under it. -/
structure WellFormed (r : Registry) (x : List Registration) : Prop where
  listed : ∃ acts : List ℕ, r.links.Circular .actList (acts.map .node) ∧ (acts.map r.cfg).Nodup ∧
    ∀ e ∈ x, e.act ∈ acts
  found : ∀ name, ∃ fuel, activityGet fuel r (some name) = some (registeredUnder x name)

/-- After a call of `activity_reg` from `r` to `r'`: `act_list` holds the activities it
held, the name is found as before, and it can be registered with the same activity. -/
structure Undone (r r' : Registry) (act : ℕ) (name : String) : Prop where
  listed : ∀ acts : List ℕ, r.links.Circular .actList (acts.map .node) →
    ∃ acts' : List ℕ, r'.links.Circular .actList (acts'.map .node) ∧ ∀ a, a ∈ acts' ↔ a ∈ acts
  found : ∀ fuel res, activityGet fuel r (some name) = some res →
    ∃ fuel', activityGet fuel' r' (some name) = some res
  again : ∃ fuel r'', activityReg fuel r' (some act) (some name) .succeed = some (0, r'')

end Ctools.Interface
