import Ctools.Library.Machine
import Ctools.Library.Memory

/-!
# The byte queue of `queue.c`

`Queue` is `queue_t`; its `buff` is the block the pointer points to.  The
fields are `uint16_t`, and so is every local the source stores a position in:
sums wrap modulo `2 ^ 16` as they do there, while the free space
`queue->size - queue->num_items` is a C `int` and may be negative.  An
operation that would leave `buff` (or its argument's block) answers `none`.

The critical sections disable interrupts around each whole body, so each
function is one step.
-/

set_option autoImplicit false

namespace Ctools.Program

open Ctools.Library

/-- `queue_t`.
SOURCE: queue.h:14-19 -/
structure Queue where
  numItems : UInt16
  head : UInt16
  size : UInt16
  buff : List UInt8
deriving DecidableEq

/-- `QUEUE_INIT(_buff, _buff_size)`; the other fields are zero.
SOURCE: queue.h:21 -/
def queueInit (buff : List UInt8) (size : UInt16) : Queue :=
  { numItems := 0, head := 0, size := size, buff := buff }

/-- `queue_clear`.
SOURCE: queue.c:12-23 -/
def queueClear (queue : Queue) : Bool × Queue :=
  (true, { queue with numItems := 0, head := 0 })

/-- The position of a new item: `head + num_items` in `uint16_t`, less `size`
when that is not below it.
SOURCE: queue.c:32-37, queue.c:110-115 -/
def queueTail (queue : Queue) : UInt16 :=
  let tail := queue.head + queue.numItems
  if tail ≥ queue.size then tail - queue.size else tail

/-- `queue_append`.
SOURCE: queue.c:25-59 -/
def queueAppend (queue : Queue) (item : UInt8) : Option (Bool × Queue) := do
  let tail := queueTail queue
  if queue.numItems < queue.size then
    let buff ← writeCells queue.buff tail.toNat [item]
    pure (true, { queue with numItems := queue.numItems + 1, buff := buff })
  else
    pure (false, queue)

/-- `queue_get`; `item` is what the out parameter holds before the call.
SOURCE: queue.c:61-89 -/
def queueGet (queue : Queue) (item : UInt8) : Option (Bool × UInt8 × Queue) :=
  if queue.numItems = 0 then
    some (false, item, queue)
  else do
    let item ← queue.buff[queue.head.toNat]?
    let head := queue.head + 1
    let head := if head ≥ queue.size then 0 else head
    pure (true, item, { queue with head := head, numItems := queue.numItems - 1 })

/-- `queue_num_items`.
SOURCE: queue.c:91-94 -/
def queueNumItems (queue : Queue) : UInt16 := queue.numItems

/-- `queue_num_available`.
SOURCE: queue.c:96-99 -/
def queueNumAvailable (queue : Queue) : UInt16 := queue.size - queue.numItems

/-- `queue_enqueue`.
SOURCE: queue.c:101-135 -/
def queueEnqueue (queue : Queue) (data : List UInt8) (size : UInt16) :
    Option (UInt16 × Queue) :=
  if (size.toNat : ℤ) ≤ (queue.size.toNat : ℤ) - queue.numItems.toNat then do
    let tail := queueTail queue
    let temp := queue.size - tail
    let buff ←
      if size < temp then
        memcpy queue.buff tail.toNat data 0 size.toNat
      else do
        let buff ← memcpy queue.buff tail.toNat data 0 temp.toNat
        memcpy buff 0 data temp.toNat (size - temp).toNat
    pure (size, { queue with numItems := queue.numItems + size, buff := buff })
  else
    some (0, queue)

/-- `queue_peek_consequent`; the result is the count and the caller's block
`data` as the call leaves it.
SOURCE: queue.c:137-164 -/
def queuePeekConsequent (queue : Queue) (data : List UInt8) (size : UInt16) :
    Option (UInt16 × List UInt8) := do
  let size := if size > queue.numItems then queue.numItems else size
  let tail := queue.head + queue.numItems
  let size :=
    if tail > queue.size then
      let temp := queue.size - queue.head
      if size > temp then temp else size
    else size
  let data ← memcpy data 0 queue.buff queue.head.toNat size.toNat
  pure (size, data)

/-- `queue_peek_noncopy`; the result is the count and the pointer `*data`, as
a position in `buff`.
SOURCE: queue.c:166-186 -/
def queuePeekNoncopy (queue : Queue) : UInt16 × ℕ :=
  let tail := queue.head + queue.numItems
  let size := if tail > queue.size then queue.size - queue.head else queue.numItems
  (size, queue.head.toNat)

/-- `queue_release`.
SOURCE: queue.c:188-210 -/
def queueRelease (queue : Queue) (size : UInt16) : UInt16 × Queue :=
  let size := if size > queue.numItems then queue.numItems else size
  let head := queue.head + size
  let head := if head ≥ queue.size then head - queue.size else head
  (size, { queue with head := head, numItems := queue.numItems - size })

/-! ## Sequences of calls -/

/-- A pointer argument with the count the callee may use of it. -/
structure Extent where
  data : List UInt8
  size : UInt16
  size_le : size.toNat ≤ data.length

/-- The calls a queue serves, with their arguments. -/
inductive QueueOp where
  | clear
  | append (item : UInt8)
  | get (item : UInt8)
  | enqueue (arg : Extent)
  | peekConsequent (arg : Extent)
  | peekNoncopy
  | release (size : UInt16)

/-- What a call delivers: its result and what it leaves in its out parameters.
For `queue_peek_noncopy` this is the pointer with the bytes that lie there. -/
inductive QueueOut where
  | flag (ok : Bool)
  | item (ok : Bool) (item : UInt8)
  | count (size : ℕ)
  | copied (size : ℕ) (data : List UInt8)
  | view (size : ℕ) (ptr : ℕ) (cells : List UInt8)
deriving DecidableEq

/-- One call. -/
def queueStep (queue : Queue) : QueueOp → Option (QueueOut × Queue)
  | .clear => let (ok, queue) := queueClear queue; some (.flag ok, queue)
  | .append item => do
      let (ok, queue) ← queueAppend queue item
      pure (.flag ok, queue)
  | .get item => do
      let (ok, item, queue) ← queueGet queue item
      pure (.item ok item, queue)
  | .enqueue arg => do
      let (size, queue) ← queueEnqueue queue arg.data arg.size
      pure (.count size.toNat, queue)
  | .peekConsequent arg => do
      let (size, data) ← queuePeekConsequent queue arg.data arg.size
      pure (.copied size.toNat data, queue)
  | .peekNoncopy => do
      let (size, ptr) := queuePeekNoncopy queue
      let cells ← readCells queue.buff ptr size.toNat
      pure (.view size.toNat ptr cells, queue)
  | .release size =>
      let (size, queue) := queueRelease queue size
      some (.count size.toNat, queue)

/-- A queue under any sequence of calls. -/
def queueMachine : Machine Queue QueueOp QueueOut := ⟨queueStep⟩

end Ctools.Program
