import Ctools.Program.Activity
import Ctools.Program.LinuxList
import Ctools.Program.Pool

/-!
# An activity over its pools

`ActivityWorld` takes the calls on its pools for atomic and their elements for given.
Here they are those of `pool.c`, which has no lock.  A `pool_malloc` of an `act_msg` is
part of a critical section under `act->lock`, and so of one step.  Every other call on a
pool is two steps, one that reads `p->freed` and one that does the rest, and others may
move in between: `entered` is what call `n` has read of `exec_item_pool`, and `Hand` says
how far a worker is with its message.

An `act_msg` is an element in memory.  Its first word is `node.next` while it is in use,
and `next_free` while it is not; `prev` is `node.prev` and `msgs` are the other fields, as
`msg_enqueue` wrote them.  `msg_queue` is a list of `linux_list.h` through the elements.
Of an exec item only the fields are read while it is in use, and only `next_free` while it
is not; the fields are in `act.items`, under the number of the item's address.

`act` is the rest of the activity: its `queue` is not used, and its `outstanding` are
blocks of `act_heapmem`, an allocator of a library, which hands out none that is
outstanding.  What `malloc` and `realloc` answer to a pool is an input.  A step that follows
a pointer to nothing is a `fault`.
-/

set_option autoImplicit false

namespace Ctools.Program

open Ctools.Library

/-- `ACTIVITY_MSG_POOL_ITEMS`.
SOURCE: activity.c:17 -/
def ACTIVITY_MSG_POOL_ITEMS : UInt32 := 100

/-- `ACTIVITY_MSG_EXEC_ITEM_POOL_ITEMS`.
SOURCE: activity.c:18 -/
def ACTIVITY_MSG_EXEC_ITEM_POOL_ITEMS : UInt32 := 20

/-- `sizeof(struct act_msg)`, where a pointer has 8 bytes.
SOURCE: activity.c:22-28 -/
def SIZEOF_ACT_MSG : UInt32 := 32

/-- `sizeof(struct act_msg_exec_item)`, where a pointer has 8 bytes.
SOURCE: activity.c:30-34 -/
def SIZEOF_ACT_MSG_EXEC_ITEM : UInt32 := 24

/-- The number of an address; block `b` begins at `4096 * (b + 1)`. -/
def addrNumber : Addr → ℕ
  | ⟨none, off⟩ => off
  | ⟨some b, off⟩ => 4096 * (b + 1) + off

/-- The address with a number. -/
def numbered (n : ℕ) : Addr := if n < 4096 then ⟨none, n⟩ else ⟨some (n / 4096 - 1), n % 4096⟩

/-- `act->msg_queue`, which is in no block of a pool. -/
def msgQueue : Addr := ⟨none, 1⟩

/-! ## Pools without a lock -/

/-- A pool, the blocks it has, and the first word of each element. -/
structure SharedPool where
  pool : Pool
  heap : Heap
  next : Addr → Option Addr

/-- `pool_malloc`, behind its first read of `p->freed`, which gave `recycle`.
SOURCE: pool.c:49-71 -/
def SharedPool.malloc (m : SharedPool) (recycle : Addr) (reallocated backed : Bool) :
    Option (Addr × SharedPool) :=
  if recycle ≠ .null then do
    let next ← m.next recycle
    pure (recycle, { m with pool := { m.pool with freed := next } })
  else do
    let (pool, heap) ← poolAdvance m.pool m.heap reallocated backed
    let entry ← pool.entry
    pure (entry.add (pool.used * pool.elementSize).toNat, { m with pool := pool, heap := heap })

/-- `pool_free`, behind its read of `p->freed`.
SOURCE: pool.c:76-79 -/
def SharedPool.free (m : SharedPool) (ptr pfreed : Addr) : SharedPool :=
  { m with pool := { m.pool with freed := ptr }, next := Function.update m.next ptr (some pfreed) }

/-- What a worker does with a message that it dequeued: it is before `act_msg_handler`; it
has called the client's function and is before the releases of an exec item, or inside
`pool_free` of it; it is before the release of the element, or inside `pool_free` of it. -/
inductive Hand where
  | none
  | msg (elem : Addr)
  | item (elem : Addr) (item : ℕ)
  | itemFree (elem : Addr) (item : ℕ) (pfreed : Addr)
  | elem (elem : Addr)
  | elemFree (elem : Addr) (pfreed : Addr)
deriving DecidableEq

/-- An activity and its pools.
SOURCE: activity.c:22-40 -/
structure PooledWorld where
  act : ActivityWorld
  msgPool : SharedPool
  prev : Addr → Option Addr
  msgs : Addr → Option ActMsg
  itemPool : SharedPool
  entered : ℕ → Option Addr
  hand : ℕ → Hand

/-- A registered activity that was not started yet, and pools behind their `pool_init`.
SOURCE: activity.c:259-266 -/
def pooledStart (msgPool itemPool : Pool) : PooledWorld :=
  let links := initListHead ⟨fun _ => none, fun _ => none⟩ msgQueue
  { act := activityStart
    msgPool := ⟨msgPool, Heap.empty, links.next⟩
    prev := links.prev
    msgs := fun _ => none
    itemPool := ⟨itemPool, Heap.empty, fun _ => none⟩
    entered := fun _ => none
    hand := fun _ => .none }

namespace PooledWorld

/-- The nodes of the messages and of `msg_queue`. -/
def links (s : PooledWorld) : Links Addr := ⟨s.msgPool.next, s.prev⟩

/-- The nodes are linked anew. -/
def setLinks (s : PooledWorld) (links : Links Addr) : PooledWorld :=
  { s with msgPool := { s.msgPool with next := links.next }, prev := links.prev }

/-- Worker `w` goes on with its message. -/
def setHand (s : PooledWorld) (w : ℕ) (hand : Hand) : PooledWorld :=
  { s with hand := Function.update s.hand w hand }

/-- A step that follows a pointer to nothing. -/
def fault (s : PooledWorld) : ActObs × PooledWorld := ({ quiet s.act with fault := true }, s)

/-- A step that does not touch the pools. -/
def besides (s : PooledWorld) (moved : Option (ActObs × ActivityWorld)) :
    Option (ActObs × PooledWorld) :=
  moved.map fun (o, act) => (o, { s with act := act })

/-! ## The critical sections -/

/-- What `msg_enqueue` does with the element it has.
SOURCE: activity.c:50-54 -/
def msgEnqueue (s : PooledWorld) (elem : Addr) (msg : ActMsg) : Option PooledWorld :=
  let s := { s with msgs := Function.update s.msgs elem (some msg) }
  (listAddTail s.links elem msgQueue).map s.setLinks

/-- `msg_dequeue`.
SOURCE: activity.c:60-69 -/
def msgDequeue (s : PooledWorld) : Option (Option Addr × PooledWorld) :=
  if listEmpty s.links msgQueue then some (none, s)
  else do
    let elem ← s.links.next msgQueue
    let links ← listDel s.links elem
    pure (some elem, s.setLinks links)

/-- The critical sections of the calls; in `ACTIVITY_STATE_RUN` they call `pool_malloc`.
SOURCE: activity.c:295-304, activity.c:329-347, activity.c:378-383 -/
def lockedStep (s : PooledWorld) (n : ℕ) (reallocated backed : Bool) :
    Option (ActObs × PooledWorld) :=
  if s.act.state ≠ .run then s.besides (Program.lockedStep s.act n none)
  else
    match s.msgPool.malloc s.msgPool.pool.freed reallocated backed with
    | none => some s.fault
    | some (elem, msgPool) =>
        let s := { s with msgPool := msgPool }
        if elem = .null then s.besides (Program.lockedStep s.act n none)
        else do
          let (o, act) ← Program.lockedStep s.act n (some (addrNumber elem))
          let outstanding := act.outstanding.erase (.msg (addrNumber elem))
          let s' := { s with act := { act with queue := [], outstanding := outstanding } }
          match o.enqueued with
          | none => pure (o, s')
          | some msg =>
              match s'.msgEnqueue elem msg with
              | none => pure s.fault
              | some s' => pure (o, s')

/-! ## The exec items -/

/-- A call of `activity_exec` enters a call on `exec_item_pool`, or comes back from it with
an item that it fills in, or without the one it released.
SOURCE: activity.c:358-365, activity.c:389-392 -/
def itemStep (s : PooledWorld) (n : ℕ) (reallocated backed : Bool) :
    Option (ActObs × PooledWorld) :=
  let enter := { s with entered := Function.update s.entered n (some s.itemPool.pool.freed) }
  let back := { s with entered := Function.update s.entered n none }
  match s.act.calls[n]?, s.entered n with
  | some (.execItem _), none | some (.execFreeItem _ _ _), none => some (quiet s.act, enter)
  | some (.execItem a), some recycle =>
      match s.itemPool.malloc recycle reallocated backed with
      | none => some s.fault
      | some (item, itemPool) =>
          if item = .null then
            some ({ quiet s.act with ret := some (.exec a, -ENOMEM) },
              { back with act := s.act.setCall n (.returned (-ENOMEM)), itemPool := itemPool })
          else
            let i := addrNumber item
            let act := { s.act with
              items := Function.update s.act.items i ⟨a.func, .user a.arg, 0⟩ }
            let pc := if a.argSize ≠ 0 then .execCopy a i else .execLock a i .null
            some ({ quiet s.act with took := [.item i] },
              { back with act := act.setCall n pc, itemPool := itemPool })
  | some (.execFreeItem a i rc), some pfreed =>
      some ({ quiet s.act with gave := [.item i], ret := some (.exec a, rc) },
        { back with
          act := s.act.setCall n (.returned rc)
          itemPool := s.itemPool.free (numbered i) pfreed })
  | _, _ => none

/-! ## The worker -/

/-- `act_msg_handler`, up to its return from the client's function.
SOURCE: activity.c:87-124 -/
def handleStep (handler : Bool) (s : PooledWorld) (w : ℕ) (elem : Addr) : ActObs × PooledWorld :=
  match s.msgs elem with
  | none => s.fault
  | some msg =>
      let shown := { quiet s.act with
        handled := some msg, called := handlerCall handler s.act.items msg }
      let exited := s.act.exited || msg.type.toUInt32.toInt32 = ACTIVITY_MSG_STOP
      let s' := { s with act := { s.act with exited := exited } }
      if msg.type.toUInt32.toInt32 = ACTIVITY_MSG_EXEC then
        match msg.arg with
        | .item i => (shown, s'.setHand w (.item elem i))
        | _ => s.fault
      else (shown, s'.setHand w (.elem elem))

/-- `wof_free` of the argument, if `attr` says so.
SOURCE: activity.c:100-102, activity.c:144-145 -/
def wofRelease (s : PooledWorld) (attr : UInt16) (arg : Ptr) : ActObs × PooledWorld :=
  let (o, act) := giveBack (quiet s.act) s.act
    (if attr &&& ACT_ATTR_GC ≠ 0 then wofFree arg else some [])
  (o, { s with act := act })

/-- The next step of a worker thread.
SOURCE: activity.c:87-180 -/
def workerStep (handler : Bool) (s : PooledWorld) (w : ℕ) : Option (ActObs × PooledWorld) :=
  match s.hand w with
  | .none =>
      match s.act.workers[w]? with
      | some .draining =>
          match s.msgDequeue with
          | none => some s.fault
          | some (none, s) => some (quiet s.act, { s with act := s.act.setWorker w .polling })
          | some (some elem, s) => some (quiet s.act, s.setHand w (.msg elem))
      | some .starting | some .leaving => s.besides (Program.workerStep handler s.act w)
      | _ => none
  | .msg elem => some (s.handleStep handler w elem)
  | .item elem i =>
      let (o, s) := s.wofRelease (s.act.items i).attr (s.act.items i).arg
      some (o, s.setHand w (.itemFree elem i s.itemPool.pool.freed))
  | .itemFree elem i pfreed =>
      let s' := { s with itemPool := s.itemPool.free (numbered i) pfreed }
      some ({ quiet s.act with gave := [.item i] }, s'.setHand w (.elem elem))
  | .elem elem =>
      match s.msgs elem with
      | none => some s.fault
      | some msg =>
          let (o, s) := s.wofRelease msg.attr msg.arg
          some (o, s.setHand w (.elemFree elem s.msgPool.pool.freed))
  | .elemFree elem pfreed =>
      let s' := { s with msgPool := s.msgPool.free elem pfreed }
      some ({ quiet s.act with gave := [.msg (addrNumber elem)] }, s'.setHand w .none)

end PooledWorld

/-- What happens next, as in `ActivityAct`: an input with `reallocated` and `backed` settles
what `realloc` and `malloc` answer to a pool; `copy` is an allocation of `act_heapmem`, and
`item` a step on `exec_item_pool`. -/
inductive PooledAct where
  | call (c : ActivityCall)
  | copy (n : ℕ) (block : Option ℕ)
  | item (n : ℕ) (reallocated backed : Bool)
  | locked (n : ℕ) (reallocated backed : Bool)
  | free (n : ℕ)
  | run (n : ℕ) (rc : ℤ)
  | join (n : ℕ)
  | worker (w : ℕ)
  | poll (w : ℕ) (back : Bool)

/-- One step.
SOURCE: activity.c:42-393 -/
def pooledStep (handler : Bool) (s : PooledWorld) : PooledAct → Option (ActObs × PooledWorld)
  | .call c => s.besides (some (callStart s.act c))
  | .copy n block =>
      match s.act.calls[n]? with
      | some (.execItem _) => none
      | _ => s.besides (allocStep s.act n block)
  | .item n reallocated backed => s.itemStep n reallocated backed
  | .locked n reallocated backed => s.lockedStep n reallocated backed
  | .free n =>
      match s.act.calls[n]? with
      | some (.execFreeItem _ _ _) => none
      | _ => s.besides (freeStep s.act n)
  | .run n rc => s.besides (runStep s.act n rc)
  | .join n => s.besides (joinStep s.act n)
  | .worker w => s.workerStep handler w
  | .poll w back =>
      match s.hand w with
      | .none => s.besides (pollStep s.act w back)
      | _ => none

/-- The activity and its pools under any calls. -/
def pooledMachine (handler : Bool) : Machine PooledWorld PooledAct ActObs :=
  ⟨pooledStep handler⟩

end Ctools.Program
