import Ctools.Program.Event

/-!
# The event with a clock

The event and its threads run beside a clock, in nanoseconds, that other steps let go
on.  What `clock_gettime` last answered a thread and the outcome of its last check of its
condition are recorded.  `kernelAnswers` is what is documented of `clock_gettime` and
`pthread_cond_timedwait`: the first answers the time, the second refuses a `timespec` that
is not valid with `EINVAL` and answers `ETIMEDOUT` at its time or later.
-/

set_option autoImplicit false

namespace Ctools.Interface

open Ctools.Library Ctools.Program

/-- The time that a `timespec` denotes, in nanoseconds. -/
def nanoseconds (ts : Timespec) : ℤ := ts.sec * 10 ^ 9 + ts.nsec

/-- A `timespec` that `pthread_cond_timedwait` takes. -/
def ValidTimespec (ts : Timespec) : Prop := 0 ≤ ts.nsec ∧ ts.nsec < 10 ^ 9

instance (ts : Timespec) : Decidable (ValidTimespec ts) := inferInstanceAs (Decidable (_ ∧ _))

/-- What `clock_gettime` answers. -/
def clockReading (now : ℤ) : Timespec := ⟨now / 10 ^ 9, now % 10 ^ 9⟩

/-- The event, the clock, and of each thread the last reading of the clock and the outcome
of the last check. -/
structure TimedState (T : Type) where
  event : EventState T
  now : ℤ
  reading : T → Timespec
  lastCheck : T → Option Bool

/-- The clock goes on, or a thread moves. -/
inductive TimedAct (T : Type) where
  | tick (later : ℕ)
  | act (a : EventAct T)

variable {T : Type} [DecidableEq T]

/-- The readings of the clock after a step of a thread. -/
def readingAfter (s : TimedState T) : EventAct T → T → Timespec
  | .clock t (some ts) => Function.update s.reading t ts
  | _ => s.reading

/-- The outcomes of the last checks after a step of a thread.
SOURCE: event1.c:101-111 -/
def checkAfter (s : TimedState T) : EventAct T → T → Option Bool
  | .clock t _ => Function.update s.lastCheck t none
  | .loop t _ =>
      match s.event.pc t with
      | .looping frame =>
          if !frame.matched && frame.rc = 0 then
            Function.update s.lastCheck t
              (some (eventMatch s.event.value frame.call.set frame.call.option))
          else s.lastCheck
      | _ => s.lastCheck
  | _ => s.lastCheck

/-- One step of the clock or of a thread. -/
def timedStep (s : TimedState T) : TimedAct T → Option (Option (EventObs T) × TimedState T)
  | .tick later => some (none, { s with now := s.now + later })
  | .act a => (eventStep s.event a).map fun (o, event) =>
      (some o, { s with event := event, reading := readingAfter s a, lastCheck := checkAfter s a })

/-- The event with a clock. -/
def timedMachine (T : Type) [DecidableEq T] :
    Machine (TimedState T) (TimedAct T) (Option (EventObs T)) := ⟨timedStep⟩

/-- No call is in progress, at any time. -/
def timedStart (value : UInt32) (now : ℤ) : TimedState T :=
  ⟨eventStart value, now, fun _ => clockReading now, fun _ => none⟩

/-- `pthread_cond_timedwait` fails at once with `rc`. -/
def waitFails (now : ℤ) (ts : Timespec) (rc : ℤ) : Prop :=
  rc = EINVAL ∧ ¬ ValidTimespec ts ∨ rc = ETIMEDOUT ∧ ValidTimespec ts ∧ nanoseconds ts ≤ now

/-- A condition wait that has blocked ends with `rc`. -/
def waitEnds (now : ℤ) (ts : Timespec) (rc : ℤ) : Prop :=
  rc = 0 ∨ rc = ETIMEDOUT ∧ nanoseconds ts ≤ now

/-- `clock_gettime` and the condition waits of `event_timedwait` answer as documented. -/
def kernelAnswers (s : TimedState T) : TimedAct T → Prop
  | .act (.clock _ (some ts)) => ts = clockReading s.now
  | .act (.loop t reject) => ∀ frame frame', s.event.pc t = .looping frame →
      frame.call.timeout.isSome = true → waitLoop s.event.value frame = .block frame' →
        (reject = none → ValidTimespec frame.ts) ∧
          ∀ rc, reject = some rc → waitFails s.now frame.ts rc
  | .act (.wake t rc) => ∀ frame, s.event.pc t = .parked frame →
      frame.call.timeout.isSome = true → waitEnds s.now frame.ts rc
  | _ => True

/-- The nanoseconds of the reading and of the timeout make less than a second.
SOURCE: event1.c:98-99 -/
def noCarry (now : Timespec) (timeout : UInt32) : Prop :=
  now.nsec + (timeout % 1000 * 1000000).toNat < 10 ^ 9

instance (now : Timespec) (timeout : UInt32) : Decidable (noCarry now timeout) :=
  inferInstanceAs (Decidable (_ < _))

/-- The clock is read for a timeout without a carry. -/
def readsNoCarry (s : TimedState T) : TimedAct T → Prop
  | .act (.clock t (some ts)) => ∀ call timeout, s.event.pc t = .clock call →
      call.timeout = some timeout → noCarry ts timeout
  | _ => True

/-- A timed wait that returns `ETIMEDOUT` does so when its timeout has passed since it read
the clock, and its last check found its condition false. -/
def NotEarly (s : TimedState T) (o : EventObs T) : Prop :=
  ∀ t call timeout recved, o.ret = some ⟨t, .wait call, ETIMEDOUT, recved⟩ →
    call.timeout = some timeout →
      nanoseconds (s.reading t) + timeout.toNat * 10 ^ 6 ≤ s.now ∧ s.lastCheck t = some false

end Ctools.Interface
