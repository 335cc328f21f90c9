import Ctools.Program.Activity

/-!
# What an activity is for

An activity delivers the messages its clients hand it: a call that returns 0 has
put its message behind those accepted before (`Answers`), and a message is
somewhere on its way until it is handled (`hands`, the queue).  Its state goes in a
cycle, from a start to a stop to the end of its worker (`StateMoves`).  What the
allocators handed out belongs to exactly one message on its way or one call in
progress (`owners`), and `took` and `gave` read off a history what was handed out
and given back.
-/

set_option autoImplicit false

namespace Ctools.Interface

open Ctools.Library Ctools.Program

/-- The clients send only messages from `ACTIVITY_MSG_GENERAL` on. -/
def clientMsgs (_ : ActivityWorld) : ActivityAct → Prop
  | .call (.send a) => ACTIVITY_MSG_GENERAL ≤ a.msg
  | _ => True

instance (s : ActivityWorld) : ∀ a, Decidable (clientMsgs s a)
  | .call (.send _) => inferInstanceAs (Decidable (_ ≤ _))
  | .call (.exec _) | .call (.stop _) | .call .run | .alloc _ _ | .locked _ _ | .free _ | .run _ _
  | .join _ | .worker _ | .poll _ _ => inferInstanceAs (Decidable True)

/-- A message that fits in `msg->type` and is none of those with which an activity
controls itself.
SOURCE: activity.h:20-30 -/
def IsPlain (msg : Int32) : Prop :=
  0 ≤ msg ∧ msg ≤ UINT16_MAX ∧ msg ≠ ACTIVITY_MSG_STOP ∧ msg ≠ ACTIVITY_MSG_EXEC

/-- The clients send only plain messages, or such that are refused as too large. -/
def plainMsgs (_ : ActivityWorld) : ActivityAct → Prop
  | .call (.send a) => a.msg ≤ UINT16_MAX → IsPlain a.msg
  | _ => True

instance (msg : Int32) : Decidable (IsPlain msg) :=
  inferInstanceAs (Decidable (_ ≤ _ ∧ _ ≤ _ ∧ _ ≠ _ ∧ _ ≠ _))

instance (s : ActivityWorld) : ∀ a, Decidable (plainMsgs s a)
  | .call (.send _) => inferInstanceAs (Decidable (_ → _))
  | .call (.exec _) | .call (.stop _) | .call .run | .alloc _ _ | .locked _ _ | .free _ | .run _ _
  | .join _ | .worker _ | .poll _ _ => inferInstanceAs (Decidable True)

/-! ## Delivery -/

/-- A message that is not the one of `activity_stop`.
SOURCE: activity.c:91-92 -/
def IsClient (msg : ActMsg) : Prop := msg.type.toUInt32.toInt32 ≠ ACTIVITY_MSG_STOP

instance : DecidablePred IsClient := fun _ => inferInstanceAs (Decidable (_ ≠ _))

/-- What a worker has in its hand. -/
def held : WorkerPc → List ActMsg
  | .holding msg => [msg]
  | _ => []

/-- What all workers have in their hands. -/
def hands (s : ActivityWorld) : List ActMsg := s.workers.flatMap held

/-- The message whose `activity_msg_send` or `activity_exec` returns 0. -/
def accepts (o : ActObs) : List ActMsg :=
  match o.ret with
  | some (.send _, rc) | some (.exec _, rc) => if rc = 0 then o.enqueued.toList else []
  | _ => []

/-- The client's message that is handled. -/
def handles (o : ActObs) : List ActMsg := o.handled.toList.filter IsClient

/-- The messages accepted, in the order of their enqueue. -/
def accepted {ι : Type} (h : List (ι × ActObs)) : List ActMsg := h.flatMap fun e => accepts e.2

/-- The client's messages handled, in order. -/
def handled {ι : Type} (h : List (ι × ActObs)) : List ActMsg := h.flatMap fun e => handles e.2

/-- The calls that send a client's message. -/
def IsSender : ActivityCall → Prop
  | .send _ | .exec _ => True
  | _ => False

/-- A message is the one of a call. -/
def MsgOf : ActivityCall → ActMsg → Prop
  | .send a, msg => msg.type.toUInt32.toInt32 = a.msg ∧ IsClient msg
  | .exec _, msg => msg.type.toUInt32.toInt32 = ACTIVITY_MSG_EXEC ∧ IsClient msg
  | _, _ => False

/-- `activity_msg_send` and `activity_exec` return 0 exactly where they enqueue
their message, and a message is enqueued only while the activity runs. -/
structure Answers (o : ActObs) : Prop where
  enqueued_run : ∀ msg, o.enqueued = some msg → o.before = .run
  accepted_msg : ∀ c rc, o.ret = some (c, rc) → IsSender c →
    (rc = 0 ↔ ∃ msg, o.enqueued = some msg ∧ MsgOf c msg)
  msg_accepted : ∀ msg, o.enqueued = some msg → IsClient msg →
    ∃ c, o.ret = some (c, 0) ∧ MsgOf c msg

/-! ## The cycle of the states -/

/-- The state stays or goes on in its cycle.
SOURCE: activity.h:32-38 -/
def StateMoves (before after : ActivityState) : Prop :=
  after = before ∨ (before = .stop ∧ after = .run) ∨ (before = .run ∧ after = .pendingStop) ∨
    (before = .pendingStop ∧ after = .stop)

/-- `activity_run` starts the activity.
SOURCE: activity.c:211-212 -/
def EntersRun (o : ActObs) : Prop := o.ret = some (.run, 0) ∧ o.before = .stop

/-- `activity_stop` is accepted.
SOURCE: activity.c:78-83 -/
def acceptsStop (o : ActObs) : Bool := o.enqueued.any fun msg => !decide (IsClient msg)

/-- The steps that accept a call of `activity_stop`. -/
def stopsAccepted (h : List (ActivityAct × ActObs)) : List (ActivityAct × ActObs) :=
  h.filter fun e => acceptsStop e.2

/-! ## Ownership -/

/-- The copy that an exec item or a message with `ACT_ATTR_GC` owns.
SOURCE: activity.c:100-102, activity.c:144-145 -/
def gcOwns (attr : UInt16) (arg : Ptr) : List Obj :=
  if attr &&& ACT_ATTR_GC ≠ 0 then arg.obj else []

/-- What a message owns: its element, the exec item of an `ACTIVITY_MSG_EXEC` with
what that owns, and its copied argument. -/
def msgOwns (items : ℕ → ActMsgExecItem) (msg : ActMsg) : List Obj :=
  .msg msg.elem ::
    if msg.type.toUInt32.toInt32 = ACTIVITY_MSG_EXEC then
      match msg.arg with
      | .item i => .item i :: gcOwns (items i).attr (items i).arg
      | _ => []
    else gcOwns msg.attr msg.arg

/-- What a call in progress owns. -/
def callOwns : CallPc → List Obj
  | .sendLock _ arg => arg.obj
  | .execCopy _ i | .execFreeItem _ i _ => [.item i]
  | .execLock _ i newArg | .execFreeArg _ i newArg _ => .item i :: newArg.obj
  | _ => []

/-- The messages on their way to the handler. -/
def messages (s : ActivityWorld) : List ActMsg := hands s ++ s.queue

/-- All that is owned. -/
def owners (s : ActivityWorld) : List Obj :=
  (messages s).flatMap (msgOwns s.items) ++ s.calls.flatMap callOwns

/-- The message of the call is enqueued, or it has none and returned 0. -/
def Settled : CallPc → Prop
  | .returned rc => rc = 0
  | .stopJoin | .stopJoining _ => True
  | _ => False

/-- The call that moves. -/
def mover : ActivityAct → Option ℕ
  | .alloc n _ | .locked n _ | .free n | .run n _ | .join n => some n
  | _ => none

/-- The steps of call `n`. -/
def stepsOf (n : ℕ) (h : List (ActivityAct × ActObs)) : List (ActivityAct × ActObs) :=
  h.filter fun e => mover e.1 = some n

/-- What was handed out. -/
def took (h : List (ActivityAct × ActObs)) : List Obj := h.flatMap fun e => e.2.took

/-- What was given back. -/
def gave (h : List (ActivityAct × ActObs)) : List Obj := h.flatMap fun e => e.2.gave

/-- A call on its way to return an error. -/
def Fails : CallPc → Prop
  | .returned rc | .execFreeItem _ _ rc => rc ≠ 0
  | _ => False

/-- What a step gives back is what the message it handled owns, or it is of the
call that moves, which fails. -/
def ReleasedByOwner (s : ActivityWorld) (a : ActivityAct) (o : ActObs) (s' : ActivityWorld) :
    Prop :=
  o.gave = [] ∨
    (∃ msg ∈ messages s, o.handled = some msg ∧ o.gave.Perm (msgOwns s.items msg)) ∨
    ∃ n pc pc', mover a = some n ∧ s.calls[n]? = some pc ∧ s'.calls = s.calls.set n pc' ∧
      (∀ x ∈ o.gave, x ∈ callOwns pc) ∧ Fails pc'

end Ctools.Interface
