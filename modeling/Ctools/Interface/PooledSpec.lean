import Ctools.Interface.ActivitySpec
import Ctools.Program.ActivityPools

/-!
# When the calls on the pools do not meet

A call on a pool is in progress from its read of `p->freed` until it is done.  `apart` lets
one begin only while no other call on the same pool is in progress (`MsgPoolIdle`,
`ItemPoolIdle`), and lets a `pool_malloc` go on only from a block that is there (`GoesOn`);
it may be refused the block that it goes on to.
-/

set_option autoImplicit false

namespace Ctools.Interface

open Ctools.Library Ctools.Program

/-- The clients send only messages from `ACTIVITY_MSG_GENERAL` on. -/
def generalMsgs (_ : PooledWorld) : PooledAct → Prop
  | .call (.send a) => ACTIVITY_MSG_GENERAL ≤ a.msg
  | _ => True

instance (s : PooledWorld) : ∀ a, Decidable (generalMsgs s a)
  | .call (.send _) => inferInstanceAs (Decidable (_ ≤ _))
  | .call (.exec _) | .call (.stop _) | .call .run | .copy _ _ | .item _ _ _ | .locked _ _ _
  | .free _ | .run _ _ | .join _ | .worker _ | .poll _ _ => inferInstanceAs (Decidable True)

/-- The worker is inside `pool_free` of an element. -/
def FreesElem : Hand → Prop
  | .elemFree _ _ => True
  | _ => False

instance : DecidablePred FreesElem
  | .elemFree _ _ => inferInstanceAs (Decidable True)
  | .none | .msg _ | .item _ _ | .itemFree _ _ _ | .elem _ => inferInstanceAs (Decidable False)

/-- The worker is inside `pool_free` of an exec item. -/
def FreesItem : Hand → Prop
  | .itemFree _ _ _ => True
  | _ => False

instance : DecidablePred FreesItem
  | .itemFree _ _ _ => inferInstanceAs (Decidable True)
  | .none | .msg _ | .item _ _ | .elem _ | .elemFree _ _ => inferInstanceAs (Decidable False)

/-- No call on `act_msg_pool` is in progress. -/
def MsgPoolIdle (s : PooledWorld) : Prop := ∀ w < s.act.workers.length, ¬ FreesElem (s.hand w)

/-- No call on `exec_item_pool` is in progress. -/
def ItemPoolIdle (s : PooledWorld) : Prop :=
  (∀ n < s.act.calls.length, s.entered n = none) ∧
    ∀ w < s.act.workers.length, ¬ FreesItem (s.hand w)

instance (s : PooledWorld) : Decidable (MsgPoolIdle s) :=
  inferInstanceAs (Decidable (∀ w < s.act.workers.length, _))

instance (s : PooledWorld) : Decidable (ItemPoolIdle s) :=
  inferInstanceAs (Decidable ((∀ n < s.act.calls.length, _) ∧ ∀ w < s.act.workers.length, _))

/-- Where `pool_malloc` recycles no element, its cursor is not on a block that could not be
allocated; where it goes on to another block, `realloc` succeeds, and the number of the block
is an `int32_t`. -/
def GoesOn (m : SharedPool) (recycle : Addr) (reallocated : Bool) : Prop :=
  recycle = .null → m.pool.entry ≠ some .null ∧
    (m.pool.used + 1 = m.pool.blockSize → reallocated = true ∧ m.pool.block + 1 < 2 ^ 31)

instance (m : SharedPool) (recycle : Addr) (reallocated : Bool) :
    Decidable (GoesOn m recycle reallocated) :=
  inferInstanceAs (Decidable (_ → _ ∧ (_ → _)))

/-- A call on `exec_item_pool` begins while none is in progress, and a `pool_malloc` goes
on from a block that is there. -/
def ItemApart (s : PooledWorld) (n : ℕ) (reallocated : Bool) : Prop :=
  (s.entered n = none → ItemPoolIdle s) ∧
    ∀ recycle ∈ s.entered n, GoesOn s.itemPool recycle reallocated

/-- The same of `act_msg_pool`, which the critical sections use in `ACTIVITY_STATE_RUN`. -/
def ElemApart (s : PooledWorld) (reallocated : Bool) : Prop :=
  s.act.state = .run → MsgPoolIdle s ∧ GoesOn s.msgPool s.msgPool.pool.freed reallocated

/-- A worker begins its `pool_free` while no other call on the pool is in progress. -/
def ReleaseApart (s : PooledWorld) : Hand → Prop
  | .item _ _ => ItemPoolIdle s
  | .elem _ => MsgPoolIdle s
  | _ => True

/-- The clients send messages from `ACTIVITY_MSG_GENERAL` on, a call on a pool begins only
while no other one on the same pool is in progress, and a `pool_malloc` goes on only from a
block that is there. -/
def apart (s : PooledWorld) : PooledAct → Prop
  | .call (.send a) => ACTIVITY_MSG_GENERAL ≤ a.msg
  | .item n reallocated _ => ItemApart s n reallocated
  | .locked _ reallocated _ => ElemApart s reallocated
  | .worker w => ReleaseApart s (s.hand w)
  | _ => True

instance (s : PooledWorld) : ∀ hand, Decidable (ReleaseApart s hand)
  | .item _ _ => inferInstanceAs (Decidable (ItemPoolIdle s))
  | .elem _ => inferInstanceAs (Decidable (MsgPoolIdle s))
  | .none | .msg _ | .itemFree _ _ _ | .elemFree _ _ => inferInstanceAs (Decidable True)

instance (s : PooledWorld) : ∀ a, Decidable (apart s a)
  | .call (.send _) => inferInstanceAs (Decidable (_ ≤ _))
  | .item _ _ _ => inferInstanceAs (Decidable ((_ → _) ∧ ∀ _, _ → _))
  | .locked _ _ _ => inferInstanceAs (Decidable (_ → _ ∧ _))
  | .worker w => inferInstanceAs (Decidable (ReleaseApart s (s.hand w)))
  | .call (.exec _) | .call (.stop _) | .call .run | .copy _ _ | .free _ | .run _ _ | .join _
  | .poll _ _ => inferInstanceAs (Decidable True)

/-! ## Messages on their way -/

/-- The messages in `act->msg_queue`: what is in the nodes of its ring. -/
def Queued (s : PooledWorld) (queue : List ActMsg) : Prop :=
  ∃ ring, s.links.Circular msgQueue ring ∧
    List.Forall₂ (fun elem msg => s.msgs elem = some msg) ring queue

/-- The message that a worker has dequeued and not handled. -/
def unhandled (msgs : Addr → Option ActMsg) : Hand → List ActMsg
  | .msg elem => (msgs elem).toList
  | _ => []

/-- What all workers have in their hands. -/
def inHand (s : PooledWorld) : List ActMsg :=
  (s.act.workers.mapIdx fun w _ => unhandled s.msgs (s.hand w)).flatten

end Ctools.Interface
