import Ctools.Library.Fifo
import Ctools.Program.Queue

/-!
# What the byte queue is for

The queue's calls on a bounded first-in first-out buffer of bytes.  An append
or an enqueue adds everything it is given or nothing; `get` and `release`
remove from the front; the two peeks show the first bytes, as many as lie in
one piece, and change nothing.
-/

set_option autoImplicit false

namespace Ctools.Interface

open Ctools.Library Ctools.Program

variable {cap : ℕ}

/-- One call on the buffer. -/
def fifoStep (f : Fifo UInt8 cap) : QueueOp → QueueOut × Fifo UInt8 cap
  | .clear => (.flag true, Fifo.empty UInt8 cap)
  | .append item =>
      if h : [item].length ≤ f.room then (.flag true, f.put [item] h) else (.flag false, f)
  | .get item =>
      match f.items with
      | [] => (.item false item, f)
      | first :: _ => (.item true first, f.drop 1)
  | .enqueue arg =>
      if h : (arg.data.take arg.size.toNat).length ≤ f.room then
        (.count arg.size.toNat, f.put (arg.data.take arg.size.toNat) h)
      else (.count 0, f)
  | .peekConsequent arg =>
      let n := min arg.size.toNat f.contiguous
      (.copied n (f.items.take n ++ arg.data.drop n), f)
  | .peekNoncopy => (.view f.contiguous f.pos (f.items.take f.contiguous), f)
  | .release size =>
      let n := min size.toNat f.items.length
      (.count n, f.drop n)

/-- A bounded buffer under any sequence of calls. -/
def fifoMachine (cap : ℕ) : Machine (Fifo UInt8 cap) QueueOp QueueOut :=
  ⟨fun f op => some (fifoStep f op)⟩

end Ctools.Interface
