import Ctools.Program.Activity

/-!
# The registered activities and `activity_manager_fini`

One thread shuts down while the worker threads of the registered activities go on.
Each critical section of the first loop, each pass of the second and each of the
three releases at the end is one step; `activity_manager_fini` takes no lock over
several of them.  The messages, the exec items and the copied arguments of all
activities come from the three allocators that it releases.
-/

set_option autoImplicit false

namespace Ctools.Program

open Ctools.Library

/-- The allocators all activities share.
SOURCE: activity.c:38-40 -/
inductive Allocator where
  | actMsgPool
  | execItemPool
  | actHeapmem
deriving DecidableEq

/-- The allocator an object comes from. -/
def Obj.allocator : Obj → Allocator
  | .msg _ => .actMsgPool
  | .item _ => .execItemPool
  | .copy _ => .actHeapmem

/-- Where `activity_manager_fini` is: before a pass of its first or its second loop,
before a release, or at its end. -/
inductive FiniPc where
  | pending (k : ℕ)
  | unlinking (k : ℕ)
  | release (a : Allocator)
  | returned
deriving DecidableEq

/-- The registered activities, in the order of `act_list`, and the allocators that
are released. -/
structure ManagerWorld where
  acts : List ActivityWorld
  fini : FiniPc
  released : List Allocator

/-- `activity_manager_fini` is called while the activities are in any state. -/
def managerStart (acts : List ActivityWorld) : ManagerWorld := ⟨acts, .pending 0, []⟩

/-- What happens next: worker `w` of activity `i` moves on, or its `uev_run` calls
the handler or returns, or `activity_manager_fini` goes on, where `pool_malloc`
answers `elem`. -/
inductive ManagerAct where
  | worker (i w : ℕ)
  | poll (i w : ℕ) (back : Bool)
  | fini (elem : Option ℕ)
deriving DecidableEq

/-- What a step shows: whether a worker moved, whether it gave something back to an
allocator that is released, and what is released. -/
structure ManagerObs where
  worker : Bool
  fault : Bool
  released : Option Allocator
deriving DecidableEq

/-- A step of activity `i`. -/
def actStep (s : ManagerWorld) (i : ℕ) (next : ActivityWorld → Option (ActObs × ActivityWorld)) :
    Option (ManagerObs × ManagerWorld) :=
  match s.acts[i]? with
  | none => none
  | some act => (next act).map fun (o, act) =>
      (⟨true, o.gave.any fun x => x.allocator ∈ s.released, none⟩,
        { s with acts := s.acts.set i act })

/-- A step of `activity_manager_fini`.  The second loop passes over `pthread_join`,
which stands in a comment.
SOURCE: activity.c:436-458 -/
def finiStep (s : ManagerWorld) (elem : Option ℕ) : Option (ManagerObs × ManagerWorld) :=
  let silent : ManagerObs := ⟨false, false, none⟩
  match s.fini with
  | .pending k =>
      match s.acts[k]? with
      | some act => (activitySetPenddingExit act elem).map fun (_, _, act) =>
          (silent, { s with acts := s.acts.set k act, fini := .pending (k + 1) })
      | none => some (silent, { s with fini := .unlinking 0 })
  | .unlinking k =>
      if k < s.acts.length then some (silent, { s with fini := .unlinking (k + 1) })
      else some (silent, { s with fini := .release .actMsgPool })
  | .release a =>
      let fini := match a with
        | .actMsgPool => .release .execItemPool
        | .execItemPool => .release .actHeapmem
        | .actHeapmem => .returned
      some (⟨false, false, some a⟩, { s with fini := fini, released := a :: s.released })
  | .returned => none

/-- One step. -/
def managerStep (handler : Bool) (s : ManagerWorld) :
    ManagerAct → Option (ManagerObs × ManagerWorld)
  | .worker i w => actStep s i fun act => workerStep handler act w
  | .poll i w back => actStep s i fun act => pollStep act w back
  | .fini elem => finiStep s elem

/-- The workers of the registered activities and `activity_manager_fini`. -/
def managerMachine (handler : Bool) : Machine ManagerWorld ManagerAct ManagerObs :=
  ⟨managerStep handler⟩

end Ctools.Program
