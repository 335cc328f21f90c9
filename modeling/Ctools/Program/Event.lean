import Ctools.Library.Machine
import Ctools.Program.Errno

/-!
# The event flags of `event1.c`, under threads

One `struct event_t` and any threads that call `event_post`, `event_wait` and
`event_timedwait` on it.  `owner` is the mutex.  A thread inside
`pthread_cond_wait` or `pthread_cond_timedwait` is `parked`; once the wait is
over, by a broadcast or by itself, it is `woken` and must take the mutex again.

An input names the thread that moves and settles what its system call answers.
A step is a lock, or what a thread does between two points at which it gives
the mutex up or may be told to wait: other threads run between any two steps,
but only one of them can hold the mutex.  An output shows the event's value
before and after the step, and the call that returned in it.
-/

set_option autoImplicit false

namespace Ctools.Program

open Ctools.Library

/-- `EVENT_FLAG_AND`.
SOURCE: event1.h:15 -/
def EVENT_FLAG_AND : UInt8 := 0x01

/-- `EVENT_FLAG_OR`.
SOURCE: event1.h:16 -/
def EVENT_FLAG_OR : UInt8 := 0x02

/-- `EVENT_FLAG_CLEAR`.
SOURCE: event1.h:17 -/
def EVENT_FLAG_CLEAR : UInt8 := 0x04

/-- `struct timespec`. -/
structure Timespec where
  sec : ℤ
  nsec : ℤ
deriving DecidableEq

/-- The arguments of `event_wait` (no `timeout`) or `event_timedwait`, and
whether the pointer `recved` is not `NULL`. -/
structure WaitCall where
  set : UInt32
  option : UInt8
  timeout : Option UInt32
  recved : Bool
deriving DecidableEq

/-- A call on the event. -/
inductive EventCall where
  | post (set : UInt32)
  | wait (call : WaitCall)
deriving DecidableEq

/-- The locals of a wait: `match`, `rc` and the deadline `ts`.  `fresh` says
that the call has not yet called the condition wait; the source has no such
variable. -/
structure WaitFrame where
  call : WaitCall
  matched : Bool
  rc : ℤ
  ts : Timespec
  fresh : Bool
deriving DecidableEq

/-- Where a thread is. -/
inductive EventPc where
  | idle
  | postEntry (set : UInt32)
  | posting (set : UInt32)
  | waitEntry (call : WaitCall)
  | clock (call : WaitCall)
  | looping (frame : WaitFrame)
  | parked (frame : WaitFrame)
  | woken (frame : WaitFrame)
  | finishing (frame : WaitFrame)
deriving DecidableEq

/-- The event and its threads. -/
structure EventState (T : Type) where
  value : UInt32
  owner : Option T
  pc : T → EventPc

/-- What a thread does next; `clock_gettime` answers `now`, or fails, and the
condition wait blocks, or fails at once with `reject`. -/
inductive EventAct (T : Type) where
  | call (t : T) (c : EventCall)
  | lock (t : T)
  | post (t : T)
  | clock (t : T) (now : Option Timespec)
  | loop (t : T) (reject : Option ℤ)
  | wake (t : T) (rc : ℤ)
  | finish (t : T)

/-- A return: the thread, its call, the result, and `*recved` if it was written. -/
structure EventRet (T : Type) where
  thread : T
  call : EventCall
  rc : ℤ
  recved : Option UInt32
deriving DecidableEq

/-- What a step shows. -/
structure EventObs (T : Type) where
  before : UInt32
  after : UInt32
  ret : Option (EventRet T)
deriving DecidableEq

/-- The test of both waiting loops: all bits of `set` for `EVENT_FLAG_AND`,
else some bit of it for `EVENT_FLAG_OR`, else never.
SOURCE: event1.c:55-66, event1.c:102-111 -/
def eventMatch (value set : UInt32) (option : UInt8) : Bool :=
  if option &&& EVENT_FLAG_AND ≠ 0 then value &&& set = set
  else if option &&& EVENT_FLAG_OR ≠ 0 then value &&& set ≠ 0
  else false

/-- What a waiting loop does next: leave the loop, or call the condition wait. -/
inductive LoopNext where
  | leave (frame : WaitFrame)
  | block (frame : WaitFrame)
deriving DecidableEq

/-- The loop of `event_wait`: a match breaks out of it.
SOURCE: event1.c:54-69 -/
def eventWaitLoop (value : UInt32) (frame : WaitFrame) : LoopNext :=
  if !frame.matched && frame.rc = 0 then
    if eventMatch value frame.call.set frame.call.option then .leave { frame with matched := true }
    else .block frame
  else .leave frame

/-- The loop of `event_timedwait`: a match is noted, and the condition wait is
called in any case.
SOURCE: event1.c:101-114 -/
def eventTimedwaitLoop (value : UInt32) (frame : WaitFrame) : LoopNext :=
  if !frame.matched && frame.rc = 0 then
    if eventMatch value frame.call.set frame.call.option then .block { frame with matched := true }
    else .block frame
  else .leave frame

/-- The loop of the call a frame belongs to. -/
def waitLoop (value : UInt32) (frame : WaitFrame) : LoopNext :=
  if frame.call.timeout.isSome then eventTimedwaitLoop value frame else eventWaitLoop value frame

/-- `e->value` after the tail of a wait.
SOURCE: event1.c:71-77, event1.c:116-122 -/
def valueAfter (value : UInt32) (frame : WaitFrame) : UInt32 :=
  if frame.matched && frame.call.option &&& EVENT_FLAG_CLEAR ≠ 0 then value &&& ~~~frame.call.set
  else value

/-- The result of a wait and what it writes to `*recved`.
SOURCE: event1.c:71-72, event1.c:81, event1.c:116-117, event1.c:126 -/
def waitResult (value : UInt32) (frame : WaitFrame) : ℤ × Option UInt32 :=
  if frame.matched then (0, some (value &&& frame.call.set)) else (ETIMEDOUT, none)

/-- The deadline, from the clock and a timeout in milliseconds; `timeout` is
`uint32_t`, and `tv_sec + timeout / 1000` is taken to fit in a `time_t`.
SOURCE: event1.c:98-99 -/
def deadline (now : Timespec) (timeout : UInt32) : Timespec :=
  { sec := now.sec + (timeout / 1000).toNat, nsec := now.nsec + (timeout % 1000 * 1000000).toNat }

/-- The locals at the head of the loop for the first time.
SOURCE: event1.c:48, event1.c:86-87 -/
def startFrame (call : WaitCall) (ts : Timespec) : WaitFrame :=
  { call := call, matched := false, rc := 0, ts := ts, fresh := true }

/-- `pthread_cond_broadcast`: every parked thread is woken, its wait returns 0. -/
def broadcast : EventPc → EventPc
  | .parked frame => .woken { frame with rc := 0 }
  | pc => pc

variable {T : Type} [DecidableEq T]

/-- An initialised event with no call in progress; `event_init` sets `value` to 0.
SOURCE: event1.c:13-24 -/
def eventStart (value : UInt32) : EventState T :=
  { value := value, owner := none, pc := fun _ => .idle }

/-- Thread `t` goes to `pc`. -/
def EventState.goto (s : EventState T) (t : T) (pc : EventPc) : EventState T :=
  { s with pc := Function.update s.pc t pc }

/-- A step without a return. -/
def silent (s s' : EventState T) : EventObs T × EventState T := (⟨s.value, s'.value, none⟩, s')

/-- A step in which thread `t` returns from `call`. -/
def returns (s s' : EventState T) (t : T) (call : EventCall) (rc : ℤ) (recved : Option UInt32) :
    EventObs T × EventState T :=
  (⟨s.value, s'.value, some ⟨t, call, rc, recved⟩⟩, s')

/-- One step of one thread.  `event_post`, `event_wait` and `event_timedwait`
run through `lock`, their bodies, and the unlock or the condition wait that
ends each.  When `clock_gettime` fails, `event_timedwait` returns with the
mutex still held.
SOURCE: event1.c:33-127 -/
def eventStep (s : EventState T) : EventAct T → Option (EventObs T × EventState T)
  | .call t c =>
      match s.pc t, c with
      | .idle, .post set => some (silent s (s.goto t (.postEntry set)))
      | .idle, .wait call =>
          if call.recved then some (silent s (s.goto t (.waitEntry call)))
          else some (returns s s t (.wait call) EINVAL none)
      | _, _ => none
  | .lock t =>
      match s.owner, s.pc t with
      | none, .postEntry set => some (silent s { s.goto t (.posting set) with owner := some t })
      | none, .waitEntry call =>
          let pc := if call.timeout.isSome then .clock call else .looping (startFrame call ⟨0, 0⟩)
          some (silent s { s.goto t pc with owner := some t })
      | none, .woken frame => some (silent s { s.goto t (.looping frame) with owner := some t })
      | _, _ => none
  | .post t =>
      match s.pc t with
      | .posting set =>
          let s' : EventState T :=
            { value := s.value ||| set, owner := none,
              pc := Function.update (fun u => broadcast (s.pc u)) t .idle }
          some (returns s s' t (.post set) 0 none)
      | _ => none
  | .clock t now =>
      match s.pc t, now with
      | .clock call, some now =>
          let ts := deadline now (call.timeout.getD 0)
          some (silent s (s.goto t (.looping (startFrame call ts))))
      | .clock call, none => some (returns s (s.goto t .idle) t (.wait call) (-1) none)
      | _, _ => none
  | .loop t reject =>
      match s.pc t with
      | .looping frame =>
          match waitLoop s.value frame, reject with
          | .leave frame, _ => some (silent s (s.goto t (.finishing frame)))
          | .block frame, some rc =>
              some (silent s (s.goto t (.looping { frame with rc := rc, fresh := false })))
          | .block frame, none =>
              some (silent s
                { s.goto t (.parked { frame with fresh := false }) with owner := none })
      | _ => none
  | .wake t rc =>
      match s.pc t with
      | .parked frame => some (silent s (s.goto t (.woken { frame with rc := rc })))
      | _ => none
  | .finish t =>
      match s.pc t with
      | .finishing frame =>
          let (rc, recved) := waitResult s.value frame
          let s' : EventState T :=
            { value := valueAfter s.value frame, owner := none, pc := Function.update s.pc t .idle }
          some (returns s s' t (.wait frame.call) rc recved)
      | _ => none

/-- The event under any threads. -/
def eventMachine (T : Type) [DecidableEq T] : Machine (EventState T) (EventAct T) (EventObs T) :=
  ⟨eventStep⟩

end Ctools.Program
