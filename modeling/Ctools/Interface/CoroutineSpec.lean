import Ctools.Program.Protothread

/-!
# What protothreads are for: coroutines

A coroutine has the whole of what it still has to do with it: what it is paused at, and the list
of what follows.  There is no local continuation here, and a body means what it means as a
thread of its own: it goes on behind the macro it was paused at.  The line of that is shown, and
nothing goes by it.
-/

set_option autoImplicit false

namespace Ctools.Interface

open Ctools.Library Ctools.Program

variable {σ : Type}

/-- How a call of a protothread ends. -/
inductive PtStatus where
  | waiting
  | yielded
  | exited
  | ended
deriving DecidableEq

/-- What the call returns. -/
def PtStatus.code : PtStatus → ℕ
  | waiting => PT_WAITING
  | yielded => PT_YIELDED
  | exited => PT_EXITED
  | ended => PT_ENDED

/-- What a coroutine is paused at. -/
inductive Pause (σ : Type) where
  | wait (line : ℕ) (condition : σ → Option (Bool × σ))
  | yield (line : ℕ)
  | yieldUntil (line : ℕ) (cond : σ → Option (Bool × σ))

/-- Where it stands. -/
def Pause.line : Pause σ → ℕ
  | wait line _ => line
  | yield line => line
  | yieldUntil line _ => line

/-- What a coroutine has to do when it is called. -/
inductive Coroutine (σ : Type) where
  | fresh
  | paused (pause : Pause σ) (rest : List (PtBody σ))

/-- A coroutine that is being called. -/
inductive CoRun (σ : Type) where
  | resuming (pause : Pause σ) (rest : List (PtBody σ)) (s : σ)
  | going (rest : List (PtBody σ)) (s : σ)
  | back (status : PtStatus) (next : Coroutine σ) (s : σ)

namespace CoRun

/-- One step of a call. -/
def step : CoRun σ → Option (CoRun σ)
  | back _ _ _ => none
  | resuming (.wait line c) rest s =>
      (c s).map fun (met, s) =>
        if met then going rest s else back .waiting (.paused (.wait line c) rest) s
  | resuming (.yield _) rest s => some (going rest s)
  | resuming (.yieldUntil line c) rest s =>
      (c s).map fun (met, s) =>
        if met then going rest s else back .yielded (.paused (.yieldUntil line c) rest) s
  | going [] s => some (back .ended .fresh s)
  | going (.act f :: rest) s => some (going rest (f s))
  | going (.seq a b :: rest) s => some (going (a :: b :: rest) s)
  | going (.ite c a b :: rest) s =>
      (c s).map fun (taken, s) => going ((if taken then a else b) :: rest) s
  | going (.loop c a :: rest) s =>
      (c s).map fun (taken, s) => if taken then going (a :: .loop c a :: rest) s else going rest s
  | going (.waitUntil line c :: rest) s => some (resuming (.wait line c) rest s)
  | going (.yield line :: rest) s => some (back .yielded (.paused (.yield line) rest) s)
  | going (.yieldUntil line c :: rest) s =>
      some (back .yielded (.paused (.yieldUntil line c) rest) s)
  | going (.restart :: _) s => some (back .waiting .fresh s)
  | going (.exit :: _) s => some (back .exited .fresh s)

/-- Where a call begins. -/
def start (body : PtBody σ) : Coroutine σ → σ → CoRun σ
  | .fresh, s => going [body] s
  | .paused pause rest, s => resuming pause rest s

end CoRun

/-- A call of the coroutine. -/
def coCall (fuel : ℕ) (body : PtBody σ) (co : Coroutine σ) (s : σ) :
    Option (PtStatus × Coroutine σ × σ) :=
  match settle CoRun.step fuel (CoRun.start body co s) with
  | some (.back status next s) => some (status, next, s)
  | _ => none

/-- A coroutine in a system: an input is what the rest of the system does before a call, an
output what the call returns, and the state after it. -/
def coroutine (body : PtBody σ) (fuel : ℕ) : Machine (Coroutine σ × σ) (σ → σ) (ℕ × σ) where
  step place before :=
    (coCall fuel body place.1 (before place.2)).map
      fun (status, co, s) => ((status.code, s), (co, s))

end Ctools.Interface
