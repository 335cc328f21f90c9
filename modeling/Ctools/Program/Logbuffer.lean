import Ctools.Library.Machine
import Ctools.Library.Memory

/-!
# The log buffer of `logbuffer.c`

`Logbuffer` is `struct logbuffer`; `mem` is the block its pointer points to.
Sizes and positions are `uint32_t` and lengths are `int`: where the source
compares or adds the two, C converts the `int`, as `toUInt32` does here.  A
data pointer is the list of the bytes from it on.
-/

set_option autoImplicit false

namespace Ctools.Program

open Ctools.Library

/-- `struct logbuffer`.
SOURCE: logbuffer.h:13-18 -/
structure Logbuffer where
  mem : List UInt8
  memSize : UInt32
  tail : UInt32
  roundFlag : Int32
deriving DecidableEq

/-- `logbuffer_init`, with the block `mem` that `malloc(size)` returned.
SOURCE: logbuffer.c:14-21 -/
def logbufferInit (mem : List UInt8) (size : Int32) : Int32 × Logbuffer :=
  (0, { mem := mem, memSize := size.toUInt32, tail := 0, roundFlag := 0 })

/-- The data a put stores: more than the block holds is cut from the front.
SOURCE: logbuffer.c:32-36 -/
def logbufferTrim (obj : Logbuffer) (data : List UInt8) (length : Int32) : List UInt8 × Int32 :=
  if length.toUInt32 > obj.memSize then
    (data.drop (length.toUInt32 - obj.memSize).toNat, obj.memSize.toInt32)
  else (data, length)

/-- The one or two copies of a put.
SOURCE: logbuffer.c:38-46 -/
def logbufferCopy (obj : Logbuffer) (u8dat : List UInt8) (length : Int32) : Option (List UInt8) :=
  let room := obj.memSize - obj.tail
  if room > length.toUInt32 then
    memcpy obj.mem obj.tail.toNat u8dat 0 length.toUInt32.toNat
  else do
    let mem ← memcpy obj.mem obj.tail.toNat u8dat 0 room.toNat
    memcpy mem 0 u8dat room.toNat (length.toUInt32 - room).toNat

/-- The new tail of a put.
SOURCE: logbuffer.c:47-51 -/
def logbufferAdvance (obj : Logbuffer) (length : Int32) : Logbuffer :=
  let tail := obj.tail + length.toUInt32
  if tail ≥ obj.memSize then { obj with tail := tail - obj.memSize, roundFlag := 1 }
  else { obj with tail := tail }

/-- `logbuffer_puts`.
SOURCE: logbuffer.c:28-53 -/
def logbufferPuts (obj : Logbuffer) (data : List UInt8) (length : Int32) :
    Option (Int32 × Logbuffer) := do
  let (u8dat, length) := logbufferTrim obj data length
  let mem ← logbufferCopy obj u8dat length
  pure (length, logbufferAdvance { obj with mem := mem } length)

/-- `logbuffer_gets`; the result is the count, the caller's block `buf` as the
call leaves it, and the log.  `buf_size` is not read.
SOURCE: logbuffer.c:55-68 -/
def logbufferGets (obj : Logbuffer) (buf : List UInt8) (_bufSize : Int32) :
    Option (Int32 × List UInt8 × Logbuffer) :=
  let room := obj.memSize - obj.tail
  if obj.roundFlag ≠ 0 then do
    let buf ← memcpy buf 0 obj.mem obj.tail.toNat room.toNat
    let buf ← memcpy buf room.toNat obj.mem 0 obj.tail.toNat
    pure (obj.memSize.toInt32, buf, obj)
  else do
    let buf ← memcpy buf 0 obj.mem 0 obj.tail.toNat
    pure (obj.tail.toInt32, buf, obj)

/-- What `write(fd, cells, n)` emits when it writes `written` bytes. -/
def emit (cells : List UInt8) (written : ℕ) : List UInt8 := cells.take written

/-- `logbuffer_gets_to_fd`; the result is the count, the bytes emitted to the
descriptor, and the log.  The `k`-th `write`, asked for `n` bytes, writes
`written k n` of them; the source does not look at its result.
SOURCE: logbuffer.c:70-81 -/
def logbufferGetsToFd (obj : Logbuffer) (written : ℕ → ℕ → ℕ) :
    Option (Int32 × List UInt8 × Logbuffer) :=
  let room := obj.memSize - obj.tail
  if obj.roundFlag ≠ 0 then do
    let older ← readCells obj.mem obj.tail.toNat room.toNat
    let newer ← readCells obj.mem 0 obj.tail.toNat
    pure (obj.memSize.toInt32,
      emit older (written 0 older.length) ++ emit newer (written 1 newer.length), obj)
  else do
    let cells ← readCells obj.mem 0 obj.tail.toNat
    pure (obj.tail.toInt32, emit cells (written 0 cells.length), obj)

/-- The arguments of a put: `length` bytes at `data`. -/
structure Put where
  data : List UInt8
  length : Int32
  length_eq : length.toInt = data.length

/-- A log buffer under any sequence of puts. -/
def logbufferMachine : Machine Logbuffer Put Int32 :=
  ⟨fun obj put => logbufferPuts obj put.data put.length⟩

end Ctools.Program
