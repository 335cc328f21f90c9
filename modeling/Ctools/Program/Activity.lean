import Ctools.Library.Machine
import Ctools.Program.Errno

/-!
# One activity of `activity.c`, its clients and its worker threads

The calls in progress and the worker threads are two tables, and a call or a
thread is named by its position in its table.  An input names the call or the
thread that moves and settles what its system call or allocation answers.  Each
critical section under `act->lock` is one step; between two steps of one call
any others may move.  Calls of `activity_run` hold `act_manager_lock` over
several steps (`manager`).

An object is an `act_msg` element, an `act_msg_exec_item` or a block of
`act_heapmem`; `outstanding` are those allocated and not released.  An
allocation answers `NULL` or an object that is not outstanding.  A release of an
object that is not outstanding, or a use of one, is a `fault`.  The allocator calls
made outside `act->lock` (`exec_item_pool`, `act_heapmem`, the worker's release of
an element) are taken to be atomic with the step that makes them and never to hand
out an outstanding object.  `pool.c` has no lock, so this is an assumption of what
is proved over this model, not a fact about the code; the model of
`Ctools.Program.ActivityPools` is without it.  What `uev_run`
does between two calls of the queue's handler is not modelled; that it returns
only after `uev_exit` on its context is the guard of `leaving`.
-/

set_option autoImplicit false

namespace Ctools.Program

open Ctools.Library

/-- `ACTIVITY_MSG_STOP`.
SOURCE: activity.h:22 -/
def ACTIVITY_MSG_STOP : Int32 := 1

/-- `ACTIVITY_MSG_EXEC`.
SOURCE: activity.h:23 -/
def ACTIVITY_MSG_EXEC : Int32 := 2

/-- `ACTIVITY_MSG_GENERAL`.
SOURCE: activity.h:26 -/
def ACTIVITY_MSG_GENERAL : Int32 := 50

/-- `UINT16_MAX` of `stdint.h`. -/
def UINT16_MAX : Int32 := 65535

/-- `ACT_ATTR_GC`, `BIT(0)`.
SOURCE: activity.c:20 -/
def ACT_ATTR_GC : UInt16 := 0x1

/-- `enum activity_state`.
SOURCE: activity.h:32-38 -/
inductive ActivityState where
  | none
  | stop
  | run
  | pendingStop
deriving DecidableEq

/-- What the allocators hand out. -/
inductive Obj where
  | msg (elem : ℕ)
  | item (item : ℕ)
  | copy (block : ℕ)
deriving DecidableEq

/-- A `void *` of a client, or one to an exec item or a copied argument. -/
inductive Ptr where
  | user (p : ℕ)
  | item (item : ℕ)
  | copy (block : ℕ)
deriving DecidableEq

/-- `NULL`. -/
def Ptr.null : Ptr := .user 0

/-- The object a pointer points to, if an allocator handed it out. -/
def Ptr.obj : Ptr → List Obj
  | .user _ => []
  | .item i => [.item i]
  | .copy c => [.copy c]

/-- `struct act_msg`, with the element it is.
SOURCE: activity.c:22-28 -/
structure ActMsg where
  elem : ℕ
  arg : Ptr
  type : UInt16
  dealy : UInt16
  attr : UInt16
deriving DecidableEq

/-- `struct act_msg_exec_item`; `func` is 0 for `NULL`.
SOURCE: activity.c:30-34 -/
structure ActMsgExecItem where
  func : ℕ
  arg : Ptr
  attr : UInt16
deriving DecidableEq

/-- The arguments of `activity_msg_send`. -/
structure SendArgs where
  msg : Int32
  arg : ℕ
  argSize : Int32
  delay : Int32
deriving DecidableEq

/-- The arguments of `activity_exec`; it does not read `delay`. -/
structure ExecArgs where
  func : ℕ
  arg : ℕ
  argSize : Int32
  delay : Int32
deriving DecidableEq

/-- A call of a client. -/
inductive ActivityCall where
  | send (a : SendArgs)
  | exec (a : ExecArgs)
  | stop (waitFinish : Bool)
  | run
deriving DecidableEq

/-- Where a call is: before `wof_alloc`, `pool_malloc`, a lock, a release, a join,
or a step of `activity_run_local`. -/
inductive CallPc where
  | sendCopy (a : SendArgs)
  | sendLock (a : SendArgs) (arg : Ptr)
  | execItem (a : ExecArgs)
  | execCopy (a : ExecArgs) (item : ℕ)
  | execLock (a : ExecArgs) (item : ℕ) (newArg : Ptr)
  | execFreeArg (a : ExecArgs) (item : ℕ) (newArg : Ptr) (rc : ℤ)
  | execFreeItem (a : ExecArgs) (item : ℕ) (rc : ℤ)
  | stopLock (waitFinish : Bool)
  | stopJoin
  | stopJoining (thread : Option ℕ)
  | runLock
  | runCheck
  | runInit
  | runEventInit
  | runCreate
  | runStarted
  | returned (rc : ℤ)
deriving DecidableEq

/-- Where a worker thread is: before `uev_run`, in it, in `msg_queue_handler` with
or without a message, behind `uev_run`, or at its end. -/
inductive WorkerPc where
  | starting
  | polling
  | draining
  | holding (msg : ActMsg)
  | leaving
  | ended
deriving DecidableEq

/-- An activity: `exited` says whether `uev_exit` was called on `ctx` since its
`uev_init`; `thread` is `none` where `act->thread` names no worker, which is so before
the first start and after a `pthread_create` that failed.
SOURCE: activity.h:42-55 -/
structure ActivityWorld where
  state : ActivityState
  exited : Bool
  queue : List ActMsg
  thread : Option ℕ
  manager : Option ℕ
  outstanding : List Obj
  items : ℕ → ActMsgExecItem
  calls : List CallPc
  workers : List WorkerPc

/-- A registered activity that was not started yet, and no call.
SOURCE: activity.c:259-266 -/
def activityStart : ActivityWorld :=
  { state := .stop, exited := false, queue := [], thread := none, manager := none
    outstanding := [], items := fun _ => ⟨0, .null, 0⟩, calls := [], workers := [] }

/-- What happens next: a call starts; call `n` allocates, or enters its critical
section, where `pool_malloc` answers `elem`; it releases something; it does the
next step of `activity_run`, whose system call returns `rc`, or of a join; worker
`w` moves on, or `uev_run` calls its handler or returns. -/
inductive ActivityAct where
  | call (c : ActivityCall)
  | alloc (n : ℕ) (block : Option ℕ)
  | locked (n : ℕ) (elem : Option ℕ)
  | free (n : ℕ)
  | run (n : ℕ) (rc : ℤ)
  | join (n : ℕ)
  | worker (w : ℕ)
  | poll (w : ℕ) (back : Bool)

/-- A call of a client's function by the worker. -/
inductive HandlerCall where
  | exec (func : ℕ) (arg : Ptr)
  | user (type : UInt16) (arg : Ptr)
deriving DecidableEq

/-- What a step shows: the state before it, what was allocated and released, the
message that was enqueued or handled, the client's function that was called, a
fault, and a return. -/
structure ActObs where
  before : ActivityState
  took : List Obj
  gave : List Obj
  enqueued : Option ActMsg
  handled : Option ActMsg
  called : Option HandlerCall
  fault : Bool
  ret : Option (ActivityCall × ℤ)
deriving DecidableEq

/-- A step that shows nothing. -/
def quiet (s : ActivityWorld) : ActObs := ⟨s.state, [], [], none, none, none, false, none⟩

/-- Call `n` goes to `pc`. -/
def ActivityWorld.setCall (s : ActivityWorld) (n : ℕ) (pc : CallPc) : ActivityWorld :=
  { s with calls := s.calls.set n pc }

/-- Worker `w` goes to `pc`. -/
def ActivityWorld.setWorker (s : ActivityWorld) (w : ℕ) (pc : WorkerPc) : ActivityWorld :=
  { s with workers := s.workers.set w pc }

/-- An allocator hands out `x`, which is not outstanding. -/
def ActivityWorld.take (s : ActivityWorld) (x : Obj) : Option ActivityWorld :=
  if x ∈ s.outstanding then none else some { s with outstanding := x :: s.outstanding }

/-- Release objects one after another; `none` if one is not outstanding. -/
def releaseAll (outstanding : List Obj) : List Obj → Option (List Obj)
  | [] => some outstanding
  | x :: xs => if x ∈ outstanding then releaseAll (outstanding.erase x) xs else none

/-- The block `wof_free` releases; it may be given nothing else. -/
def wofFree : Ptr → Option (List Obj)
  | .copy c => some [.copy c]
  | _ => none

/-- The end of a step that releases `objs`; `none` stands for a release of what no
allocator handed out. -/
def giveBack (shown : ActObs) (s : ActivityWorld) (objs : Option (List Obj)) :
    ActObs × ActivityWorld :=
  match objs with
  | none => ({ shown with fault := true }, s)
  | some objs =>
      match releaseAll s.outstanding objs with
      | none => ({ shown with fault := true }, s)
      | some outstanding => ({ shown with gave := objs }, { s with outstanding := outstanding })

/-! ## The critical sections -/

/-- `msg_enqueue`, where `pool_malloc` answers `elem`.
SOURCE: activity.c:42-58 -/
def msgEnqueue (s : ActivityWorld) (type : Int32) (arg : Ptr) (attr : UInt16) (elem : Option ℕ) :
    Option (ℤ × Option ActMsg × ActivityWorld) :=
  match elem with
  | none => some (-ENOMEM, none, s)
  | some e =>
      let msg := { elem := e, arg := arg, type := type.toUInt32.toUInt16, dealy := 0, attr := attr }
      (s.take (.msg e)).map fun s => (0, some msg, { s with queue := s.queue ++ [msg] })

/-- `activity_set_pendding_exit`.
SOURCE: activity.c:71-84 -/
def activitySetPenddingExit (s : ActivityWorld) (elem : Option ℕ) :
    Option (ℤ × Option ActMsg × ActivityWorld) :=
  if s.state ≠ .run then some (-1, none, s)
  else (msgEnqueue s ACTIVITY_MSG_STOP .null 0 elem).map fun (rc, msg, s) =>
    if rc ≠ 0 then (rc, msg, s) else (0, msg, { s with state := .pendingStop })

/-- The critical section of `activity_msg_send`, up to what `err_exit` releases.
SOURCE: activity.c:330-337 -/
def sendSection (s : ActivityWorld) (msg : Int32) (arg : Ptr) (attr : UInt16) (elem : Option ℕ) :
    Option (ℤ × Option ActMsg × ActivityWorld) :=
  if s.state ≠ .run then some (-1, none, s)
  else (msgEnqueue s msg arg attr elem).map fun (rc, msg, s) =>
    if rc ≠ 0 then (-ENOMEM, msg, s) else (0, msg, s)

/-! ## The worker -/

/-- What handling a message reads.
SOURCE: activity.c:87-124 -/
def handleUses (items : ℕ → ActMsgExecItem) (msg : ActMsg) : List Obj :=
  .msg msg.elem ::
    if msg.type.toUInt32.toInt32 = ACTIVITY_MSG_EXEC then
      match msg.arg with
      | .item i => .item i :: (items i).arg.obj
      | _ => []
    else if msg.type.toUInt32.toInt32 ≥ ACTIVITY_MSG_GENERAL then msg.arg.obj
    else []

/-- What handling a message releases, in order; `none` where an exec item is read
behind a pointer that is not one, or `wof_free` is given something else.
SOURCE: activity.c:94-105, activity.c:144-147 -/
def handleReleases (items : ℕ → ActMsgExecItem) (msg : ActMsg) : Option (List Obj) := do
  let ofItem ←
    if msg.type.toUInt32.toInt32 = ACTIVITY_MSG_EXEC then
      match msg.arg with
      | .item i =>
          if (items i).attr &&& ACT_ATTR_GC ≠ 0 then
            (wofFree (items i).arg).map fun objs => objs ++ [.item i]
          else some [.item i]
      | _ => none
    else some []
  let ofArg ← if msg.attr &&& ACT_ATTR_GC ≠ 0 then wofFree msg.arg else some []
  pure (ofItem ++ ofArg ++ [.msg msg.elem])

/-- The client's function that `act_msg_handler` calls; `handler` says whether the
activity has a `user_msg_handler`.
SOURCE: activity.c:87-124 -/
def handlerCall (handler : Bool) (items : ℕ → ActMsgExecItem) (msg : ActMsg) : Option HandlerCall :=
  if msg.type.toUInt32.toInt32 = ACTIVITY_MSG_STOP then none
  else if msg.type.toUInt32.toInt32 = ACTIVITY_MSG_EXEC then
    match msg.arg with
    | .item i => some (.exec (items i).func (items i).arg)
    | _ => none
  else if msg.type.toUInt32.toInt32 ≥ ACTIVITY_MSG_GENERAL ∧ handler then
    some (.user msg.type msg.arg)
  else none

/-- `act_msg_handler` and the releases after it.
SOURCE: activity.c:142-147 -/
def handleMsg (handler : Bool) (s : ActivityWorld) (msg : ActMsg) : ActObs × ActivityWorld :=
  let shown := { quiet s with
    handled := some msg
    called := handlerCall handler s.items msg
    fault := !(handleUses s.items msg).all (· ∈ s.outstanding) }
  let exited := s.exited || msg.type.toUInt32.toInt32 = ACTIVITY_MSG_STOP
  giveBack shown { s with exited := exited } (handleReleases s.items msg)

/-- The next step of a worker thread.
SOURCE: activity.c:126-180 -/
def workerStep (handler : Bool) (s : ActivityWorld) (w : ℕ) : Option (ActObs × ActivityWorld) :=
  match s.workers[w]? with
  | some .starting => some (quiet s, s.setWorker w .polling)
  | some .draining =>
      match s.queue with
      | [] => some (quiet s, s.setWorker w .polling)
      | msg :: queue => some (quiet s, { s with queue := queue }.setWorker w (.holding msg))
  | some (.holding msg) =>
      let (o, s) := handleMsg handler s msg
      some (o, s.setWorker w .draining)
  | some .leaving => some (quiet s, { s with state := .stop }.setWorker w .ended)
  | _ => none

/-- `uev_run` calls `msg_queue_handler`, or returns.
SOURCE: activity.c:165 -/
def pollStep (s : ActivityWorld) (w : ℕ) (back : Bool) : Option (ActObs × ActivityWorld) :=
  match s.workers[w]? with
  | some .polling =>
      if back then if s.exited then some (quiet s, s.setWorker w .leaving) else none
      else some (quiet s, s.setWorker w .draining)
  | _ => none

/-! ## The calls -/

/-- The start of a call, up to its first allocation, lock or return.
SOURCE: activity.c:307-317, activity.c:349-356 -/
def callStart (s : ActivityWorld) (c : ActivityCall) : ActObs × ActivityWorld :=
  let enter (pc : CallPc) := (quiet s, { s with calls := s.calls ++ [pc] })
  let refuse (rc : ℤ) :=
    ({ quiet s with ret := some (c, rc) }, { s with calls := s.calls ++ [.returned rc] })
  match c with
  | .send a =>
      if a.msg > UINT16_MAX ∨ a.delay > UINT16_MAX then refuse (-EINVAL)
      else if a.delay ≠ 0 then refuse (-1)
      else if a.argSize ≠ 0 then enter (.sendCopy a)
      else enter (.sendLock a (.user a.arg))
  | .exec a => if a.func = 0 then refuse (-EINVAL) else enter (.execItem a)
  | .stop waitFinish => enter (.stopLock waitFinish)
  | .run => enter .runLock

/-- The allocations of `activity_msg_send` and `activity_exec`.
SOURCE: activity.c:319-327, activity.c:358-376 -/
def allocStep (s : ActivityWorld) (n : ℕ) (block : Option ℕ) : Option (ActObs × ActivityWorld) :=
  match s.calls[n]?, block with
  | some (.sendCopy a), none =>
      some ({ quiet s with ret := some (.send a, -ENOMEM) }, s.setCall n (.returned (-ENOMEM)))
  | some (.sendCopy a), some c =>
      (s.take (.copy c)).map fun s =>
        ({ quiet s with took := [.copy c] }, s.setCall n (.sendLock a (.copy c)))
  | some (.execItem a), none =>
      some ({ quiet s with ret := some (.exec a, -ENOMEM) }, s.setCall n (.returned (-ENOMEM)))
  | some (.execItem a), some i =>
      (s.take (.item i)).map fun s =>
        let s := { s with items := Function.update s.items i ⟨a.func, .user a.arg, 0⟩ }
        ({ quiet s with took := [.item i] },
          s.setCall n (if a.argSize ≠ 0 then .execCopy a i else .execLock a i .null))
  | some (.execCopy a i), none =>
      let item := s.items i
      let s := { s with items := Function.update s.items i { item with attr := ACT_ATTR_GC } }
      some (quiet s, s.setCall n (.execFreeItem a i (-ENOMEM)))
  | some (.execCopy a i), some c =>
      (s.take (.copy c)).map fun s =>
        let item := s.items i
        let s := { s with
          items := Function.update s.items i { item with attr := ACT_ATTR_GC, arg := .copy c } }
        ({ quiet s with took := [.copy c] }, s.setCall n (.execLock a i (.copy c)))
  | _, _ => none

/-- The critical sections of the calls.
SOURCE: activity.c:295-304, activity.c:329-347, activity.c:378-383 -/
def lockedStep (s : ActivityWorld) (n : ℕ) (elem : Option ℕ) : Option (ActObs × ActivityWorld) :=
  match s.calls[n]? with
  | some (.sendLock a arg) =>
      let attr := if a.argSize ≠ 0 then ACT_ATTR_GC else 0
      (sendSection s a.msg arg attr elem).map fun (rc, msg, t) =>
        let shown := { quiet s with
          took := (msg.map fun m => Obj.msg m.elem).toList, enqueued := msg
          ret := some (.send a, rc) }
        if rc ≠ 0 ∧ a.argSize ≠ 0 then
          let (o, t) := giveBack shown t (wofFree arg)
          (o, t.setCall n (.returned rc))
        else (shown, t.setCall n (.returned rc))
  | some (.execLock a i newArg) =>
      (sendSection s ACTIVITY_MSG_EXEC (.item i) 0 elem).map fun (rc, msg, t) =>
        let shown := { quiet s with
          took := (msg.map fun m => Obj.msg m.elem).toList, enqueued := msg }
        if rc = 0 then ({ shown with ret := some (.exec a, 0) }, t.setCall n (.returned 0))
        else if a.argSize ≠ 0 then (shown, t.setCall n (.execFreeArg a i newArg rc))
        else (shown, t.setCall n (.execFreeItem a i rc))
  | some (.stopLock waitFinish) =>
      (activitySetPenddingExit s elem).map fun (rc, msg, t) =>
        let shown := { quiet s with
          took := (msg.map fun m => Obj.msg m.elem).toList, enqueued := msg }
        if rc = 0 ∧ waitFinish then (shown, t.setCall n .stopJoin)
        else ({ shown with ret := some (.stop waitFinish, rc) }, t.setCall n (.returned rc))
  | _ => none

/-- The releases of `activity_exec`.
SOURCE: activity.c:385-392 -/
def freeStep (s : ActivityWorld) (n : ℕ) : Option (ActObs × ActivityWorld) :=
  match s.calls[n]? with
  | some (.execFreeArg a i newArg rc) =>
      let (o, t) := giveBack (quiet s) s (wofFree newArg)
      some (o, t.setCall n (.execFreeItem a i rc))
  | some (.execFreeItem a i rc) =>
      let (o, t) := giveBack { quiet s with ret := some (.exec a, rc) } s (some [.item i])
      some (o, t.setCall n (.returned rc))
  | _ => none

/-- A return of `activity_run`, which unlocks `act_manager_lock`. -/
def runBack (s : ActivityWorld) (n : ℕ) (rc : ℤ) : ActObs × ActivityWorld :=
  ({ quiet s with ret := some (.run, rc) }, { s with manager := none }.setCall n (.returned rc))

/-- The steps of `activity_run`.
SOURCE: activity.c:182-219, activity.c:233-241 -/
def runStep (s : ActivityWorld) (n : ℕ) (rc : ℤ) : Option (ActObs × ActivityWorld) :=
  match s.calls[n]? with
  | some .runLock =>
      if s.manager = none then some (quiet s, { s with manager := some n }.setCall n .runCheck)
      else none
  | some .runCheck =>
      if s.state = .run then some (runBack s n 0)
      else if s.state ≠ .stop then some (runBack s n (-1))
      else some (quiet s, s.setCall n .runInit)
  | some .runInit =>
      if rc ≠ 0 then some (runBack s n rc)
      else some (quiet s, { s with exited := false }.setCall n .runEventInit)
  | some .runEventInit =>
      if rc ≠ 0 then some (runBack { s with exited := true } n rc)
      else some (quiet s, s.setCall n .runCreate)
  | some .runCreate =>
      -- what a failed `pthread_create` leaves in `act->thread` is undefined
      if rc ≠ 0 then some (runBack { s with exited := true, thread := none } n rc)
      else
        let s' := { s with
          workers := s.workers ++ [WorkerPc.starting], thread := some s.workers.length }
        some (quiet s, s'.setCall n .runStarted)
  | some .runStarted =>
      let (o, t) := runBack s n 0
      some (o, { t with state := .run })
  | _ => none

/-- The join of `activity_stop`: `act->thread` is read, and then waited for; a join of
what names no worker may return at any time.
SOURCE: activity.c:301-302 -/
def joinStep (s : ActivityWorld) (n : ℕ) : Option (ActObs × ActivityWorld) :=
  match s.calls[n]? with
  | some .stopJoin => some (quiet s, s.setCall n (.stopJoining s.thread))
  | some (.stopJoining thread) =>
      if ∀ w ∈ thread, s.workers[w]? = some .ended then
        some ({ quiet s with ret := some (.stop true, 0) }, s.setCall n (.returned 0))
      else none
  | _ => none

/-- One step.
SOURCE: activity.c:42-393 -/
def activityStep (handler : Bool) (s : ActivityWorld) :
    ActivityAct → Option (ActObs × ActivityWorld)
  | .call c => some (callStart s c)
  | .alloc n block => allocStep s n block
  | .locked n elem => lockedStep s n elem
  | .free n => freeStep s n
  | .run n rc => runStep s n rc
  | .join n => joinStep s n
  | .worker w => workerStep handler s w
  | .poll w back => pollStep s w back

/-- The activity under any calls. -/
def activityMachine (handler : Bool) : Machine ActivityWorld ActivityAct ActObs :=
  ⟨activityStep handler⟩

end Ctools.Program
