import Ctools.Library.LabelledCode

/-!
# Protothreads: `pt.h` over `lc-switch.h`, and `pt-sem.h`

A protothread is a function whose body is made of the macros: between `PT_BEGIN` and `PT_END` it
is one `switch` statement over the local continuation, and every macro that blocks sets that to
the number of its line and puts a `case` with that number behind it.  The macros are the
statements they expand to, and `PtBody` is the body as it is written, with the line each
blocking macro stands in.

The state a body reads and writes is `σ`: the static variables, those of other threads, and the
`struct pt` of the threads it spawns.  A condition may change it, as a call of another
protothread does, and comes to nothing if that call does not return.
-/

set_option autoImplicit false

namespace Ctools.Program

open Ctools.Library

/-! ## Local continuations -/

/-- The `lc` in `struct pt`, the local variable `PT_YIELD_FLAG`, and the rest of the state.
SOURCE: lc-switch.h:64, pt.h:54-56, 115 -/
structure PtFrame (σ : Type) where
  lc : BitVec 16
  yieldFlag : Bool
  user : σ

variable {σ : Type}

/-- `LC_INIT`.
SOURCE: lc-switch.h:66 -/
def lcInit : Labelled (PtFrame σ) ℕ := .act fun frame => { frame with lc := 0 }

/-- `LC_RESUME` and `LC_END`, with what is between them.
SOURCE: lc-switch.h:68, 72 -/
def lcSwitch (body : Labelled (PtFrame σ) ℕ) : Labelled (PtFrame σ) ℕ :=
  .switch (fun frame => frame.lc.toNat) (.seq (.label 0) body)

/-- `LC_SET`.
SOURCE: lc-switch.h:70 -/
def lcSet (line : ℕ) : Labelled (PtFrame σ) ℕ :=
  .seq (.act fun frame => { frame with lc := BitVec.ofNat 16 line }) (.label line)

/-! ## The macros of `pt.h` -/

/-- `PT_WAITING`.
SOURCE: pt.h:58 -/
def PT_WAITING : ℕ := 0

/-- `PT_YIELDED`.
SOURCE: pt.h:59 -/
def PT_YIELDED : ℕ := 1

/-- `PT_EXITED`.
SOURCE: pt.h:60 -/
def PT_EXITED : ℕ := 2

/-- `PT_ENDED`.
SOURCE: pt.h:61 -/
def PT_ENDED : ℕ := 3

/-- `PT_SCHEDULE`.
SOURCE: pt.h:271 -/
def ptSchedule (f : ℕ) : Bool := f < PT_EXITED

/-- A condition on the state of the body. -/
def onUser (c : σ → Option (Bool × σ)) (frame : PtFrame σ) : Option (Bool × PtFrame σ) :=
  (c frame.user).map fun (b, s) => (b, { frame with user := s })

/-- `!(c)`. -/
def negated {τ : Type} (c : τ → Option (Bool × τ)) (s : τ) : Option (Bool × τ) :=
  (c s).map fun (b, s) => (!b, s)

/-- The condition of `PT_YIELD`.
SOURCE: pt.h:294 -/
def justYielded (frame : PtFrame σ) : Option (Bool × PtFrame σ) :=
  some (frame.yieldFlag == false, frame)

/-- The condition of `PT_YIELD_UNTIL`.
SOURCE: pt.h:314 -/
def justYieldedOr (c : σ → Option (Bool × σ)) (frame : PtFrame σ) :
    Option (Bool × PtFrame σ) :=
  if frame.yieldFlag == false then some (true, frame) else negated (onUser c) frame

/-- `PT_WAIT_UNTIL`.
SOURCE: pt.h:148-154 -/
def ptWaitUntil (line : ℕ) (condition : σ → Option (Bool × σ)) : Labelled (PtFrame σ) ℕ :=
  .seq (lcSet line) (.ite (negated (onUser condition)) (.ret PT_WAITING) .skip)

/-- `PT_YIELD`.
SOURCE: pt.h:290-297 -/
def ptYield (line : ℕ) : Labelled (PtFrame σ) ℕ :=
  .seq (.act fun frame => { frame with yieldFlag := false })
    (.seq (lcSet line) (.ite justYielded (.ret PT_YIELDED) .skip))

/-- `PT_YIELD_UNTIL`.
SOURCE: pt.h:310-317 -/
def ptYieldUntil (line : ℕ) (cond : σ → Option (Bool × σ)) : Labelled (PtFrame σ) ℕ :=
  .seq (.act fun frame => { frame with yieldFlag := false })
    (.seq (lcSet line) (.ite (justYieldedOr cond) (.ret PT_YIELDED) .skip))

/-- `PT_RESTART`.
SOURCE: pt.h:229-233 -/
def ptRestart : Labelled (PtFrame σ) ℕ := .seq lcInit (.ret PT_WAITING)

/-- `PT_EXIT`.
SOURCE: pt.h:246-250 -/
def ptExit : Labelled (PtFrame σ) ℕ := .seq lcInit (.ret PT_EXITED)

/-- `PT_BEGIN` and `PT_END`, with what is between them.
SOURCE: pt.h:115, 127-128 -/
def ptThread (body : Labelled (PtFrame σ) ℕ) : Labelled (PtFrame σ) ℕ :=
  .seq (.act fun frame => { frame with yieldFlag := true })
    (.seq (lcSwitch body)
      (.seq (.act fun frame => { frame with yieldFlag := false })
        (.seq lcInit (.ret PT_ENDED))))

/-! ## Bodies -/

/-- The body of a protothread, with the line of each macro that blocks. -/
inductive PtBody (σ : Type) where
  | act (f : σ → σ)
  | seq (a b : PtBody σ)
  | ite (c : σ → Option (Bool × σ)) (a b : PtBody σ)
  | loop (c : σ → Option (Bool × σ)) (a : PtBody σ)
  | waitUntil (line : ℕ) (condition : σ → Option (Bool × σ))
  | yield (line : ℕ)
  | yieldUntil (line : ℕ) (cond : σ → Option (Bool × σ))
  | restart
  | exit

namespace PtBody

/-- What the body is compiled from. -/
def text : PtBody σ → Labelled (PtFrame σ) ℕ
  | act f => .act fun frame => { frame with user := f frame.user }
  | seq a b => .seq a.text b.text
  | ite c a b => .ite (onUser c) a.text b.text
  | loop c a => .loop (onUser c) a.text
  | waitUntil line condition => ptWaitUntil line condition
  | yield line => ptYield line
  | yieldUntil line cond => ptYieldUntil line cond
  | restart => ptRestart
  | exit => ptExit

/-- The lines of the macros that block. -/
def lines : PtBody σ → List ℕ
  | act _ => []
  | seq a b => a.lines ++ b.lines
  | ite _ a b => a.lines ++ b.lines
  | loop _ a => a.lines
  | waitUntil line _ => [line]
  | yield line => [line]
  | yieldUntil line _ => [line]
  | restart => []
  | exit => []

/-- `PT_WAIT_WHILE`.
SOURCE: pt.h:167 -/
def waitWhile (line : ℕ) (cond : σ → Option (Bool × σ)) : PtBody σ :=
  waitUntil line (negated cond)

/-- `PT_WAIT_THREAD`; `thread` is the call of the child.
SOURCE: pt.h:192 -/
def waitThread (line : ℕ) (thread : σ → Option (ℕ × σ)) : PtBody σ :=
  waitWhile line fun s => (thread s).map fun (f, s) => (ptSchedule f, s)

/-- `PT_SPAWN`; `initChild` is `PT_INIT((child))`.
SOURCE: pt.h:206-210 -/
def spawn (line : ℕ) (initChild : σ → σ) (thread : σ → Option (ℕ × σ)) : PtBody σ :=
  seq (act initChild) (waitThread line thread)

end PtBody

/-- A call of the protothread: what it returns, the local continuation and the state.
`PT_YIELD_FLAG` is not initialised before `PT_BEGIN`. -/
def ptCall (fuel : ℕ) (body : PtBody σ) (lc : BitVec 16) (s : σ) : Option (ℕ × BitVec 16 × σ) :=
  match settle Control.step fuel (.going [ptThread body.text] ⟨lc, false, s⟩) with
  | some (.returned (some f) frame) => some (f, frame.lc, frame.user)
  | _ => none

/-- A protothread in a system: an input is what the rest of the system does before a call, an
output what the call returns, and the state after it. -/
def protothread (body : PtBody σ) (fuel : ℕ) : Machine (BitVec 16 × σ) (σ → σ) (ℕ × σ) where
  step place before :=
    (ptCall fuel body place.1 (before place.2)).map fun (f, lc, s) => ((f, s), (lc, s))

/-- Several protothreads over one state, called in any order: an input is which is called, an
output what it returns. -/
def protothreads {ι : Type} [DecidableEq ι] (bodies : ι → PtBody σ) (fuel : ℕ) :
    Machine ((ι → BitVec 16) × σ) ι ℕ where
  step place i :=
    (ptCall fuel (bodies i) (place.1 i) place.2).map fun (f, lc, s) =>
      (f, (Function.update place.1 i lc, s))

/-! ## Semaphores: `pt-sem.h` -/

/-- Where the `count` of a semaphore is in the state.
SOURCE: pt-sem.h:163-165 -/
structure PtSem (σ : Type) where
  count : σ → BitVec 32
  setCount : BitVec 32 → σ → σ

/-- `PT_SEM_INIT`.
SOURCE: pt-sem.h:183 -/
def ptSemInit (sem : PtSem σ) (c : BitVec 32) : PtBody σ := .act (sem.setCount c)

/-- `PT_SEM_WAIT`.
SOURCE: pt-sem.h:201-205 -/
def ptSemWait (line : ℕ) (sem : PtSem σ) : PtBody σ :=
  .seq (.waitUntil line fun s => some (decide (sem.count s > 0), s))
    (.act fun s => sem.setCount (sem.count s - 1) s)

/-- `PT_SEM_SIGNAL`.
SOURCE: pt-sem.h:222 -/
def ptSemSignal (sem : PtSem σ) : PtBody σ := .act fun s => sem.setCount (sem.count s + 1) s

end Ctools.Program
