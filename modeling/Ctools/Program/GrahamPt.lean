import Ctools.Program.Protothread

/-!
# Extended protothreads: `graham-pt.h` over `lc-switch.h`

A protothread may have a `struct pt` or a `struct ptx`, which has flags besides the local
continuation; the macros tell them apart by their size.  `PT_WAIT_UNTIL` for a `struct ptx`
exits if the thread is to be killed, notes in the flags whether it waits, and returns if they
say so.  The flags stand beside the rest of the state; for a `struct pt` they are not there,
and nothing reads or writes them.
-/

set_option autoImplicit false

namespace Ctools.Program

open Ctools.Library

/-- The flags of a `struct ptx`, and the rest of the state.
SOURCE: graham-pt.h:62-65 -/
structure Ptx (σ : Type) where
  flags : BitVec 16
  rest : σ

variable {σ : Type}

/-- `PT_THREAD_WAITING`.
SOURCE: graham-pt.h:67 -/
def PT_THREAD_WAITING : ℕ := 0

/-- `PT_THREAD_EXITED`.
SOURCE: graham-pt.h:68 -/
def PT_THREAD_EXITED : ℕ := 1

/-- `PT_F_SLEEPING`.
SOURCE: graham-pt.h:71 -/
def PT_F_SLEEPING : BitVec 16 := 1

/-- `PT_F_KILL`.
SOURCE: graham-pt.h:73 -/
def PT_F_KILL : BitVec 16 := 2

/-- `PT_F_WAITING`.
SOURCE: graham-pt.h:75 -/
def PT_F_WAITING : BitVec 16 := 4

/-- The state of a call. -/
abbrev PtxFrame (σ : Type) := PtFrame (Ptx σ)

/-- A condition on the rest of the state. -/
def onRest (c : σ → Option (Bool × σ)) (p : Ptx σ) : Option (Bool × Ptx σ) :=
  (c p.rest).map fun (b, s) => (b, { p with rest := s })

/-- Whether a flag is set. -/
def flagged (flag : BitVec 16) (frame : PtxFrame σ) : Option (Bool × PtxFrame σ) :=
  some (decide (frame.user.flags &&& flag ≠ 0), frame)

/-- `PT_EXIT`.
SOURCE: graham-pt.h:335-339 -/
def ptxExit : Labelled (PtxFrame σ) ℕ := .seq lcInit (.ret PT_THREAD_EXITED)

/-- `PT_RESTART`.
SOURCE: graham-pt.h:318-322 -/
def ptxRestart : Labelled (PtxFrame σ) ℕ := .seq lcInit (.ret PT_THREAD_WAITING)

/-- What `PT_WAIT_UNTIL` does behind its `case` for a `struct ptx`.
SOURCE: graham-pt.h:188-201 -/
def ptxCheck (condition : PtxFrame σ → Option (Bool × PtxFrame σ)) : Labelled (PtxFrame σ) ℕ :=
  .seq (.ite (flagged PT_F_KILL) ptxExit .skip)
    (.seq
      (.ite condition
        (.act fun frame =>
          { frame with user := { frame.user with flags := frame.user.flags &&& PT_F_WAITING } })
        (.act fun frame =>
          { frame with user := { frame.user with flags := frame.user.flags ||| PT_F_WAITING } }))
      (.ite (flagged PT_F_WAITING) (.ret PT_THREAD_WAITING) .skip))

/-- What `PT_WAIT_UNTIL` does behind its `case` for a `struct pt`.
SOURCE: graham-pt.h:203-205 -/
def plainCheck (condition : PtxFrame σ → Option (Bool × PtxFrame σ)) : Labelled (PtxFrame σ) ℕ :=
  .ite (negated condition) (.ret PT_THREAD_WAITING) .skip

/-- `PT_WAIT_UNTIL`; `extended` says that the sizes of `*(pt)` and `struct ptx` are the same.
SOURCE: graham-pt.h:185-207 -/
def ptxWaitUntil (extended : Bool) (line : ℕ)
    (condition : PtxFrame σ → Option (Bool × PtxFrame σ)) : Labelled (PtxFrame σ) ℕ :=
  .seq (lcSet line) (if extended then ptxCheck condition else plainCheck condition)

/-- `PT_YIELD`.
SOURCE: graham-pt.h:445-449 -/
def ptxYield (extended : Bool) (line : ℕ) : Labelled (PtxFrame σ) ℕ :=
  .seq (.act fun frame => { frame with yieldFlag := false })
    (ptxWaitUntil extended line fun frame => some (frame.yieldFlag, frame))

/-- `PT_SLEEP`.
SOURCE: graham-pt.h:462-466 -/
def ptxSleep (extended : Bool) (line : ℕ) : Labelled (PtxFrame σ) ℕ :=
  .seq (.act fun frame =>
      { frame with user := { frame.user with flags := frame.user.flags ||| PT_F_SLEEPING } })
    (ptxWaitUntil extended line fun frame =>
      some (decide (frame.user.flags &&& PT_F_SLEEPING = 0), frame))

/-- `PT_YIELDING`, `PT_BEGIN` and `PT_END`, with what is between them.
SOURCE: graham-pt.h:409, 160, 351 -/
def ptxThread (body : Labelled (PtxFrame σ) ℕ) : Labelled (PtxFrame σ) ℕ :=
  .seq (.act fun frame => { frame with yieldFlag := true }) (.seq (lcSwitch body) ptxExit)

/-- The body of a protothread, with the line of each macro that blocks. -/
inductive PtxBody (σ : Type) where
  | act (f : σ → σ)
  | seq (a b : PtxBody σ)
  | ite (c : σ → Option (Bool × σ)) (a b : PtxBody σ)
  | loop (c : σ → Option (Bool × σ)) (a : PtxBody σ)
  | waitUntil (line : ℕ) (condition : σ → Option (Bool × σ))
  | yield (line : ℕ)
  | sleep (line : ℕ)
  | restart
  | exit

namespace PtxBody

/-- What the body is compiled from. -/
def text (extended : Bool) : PtxBody σ → Labelled (PtxFrame σ) ℕ
  | act f => .act fun frame =>
      { frame with user := { frame.user with rest := f frame.user.rest } }
  | seq a b => .seq (a.text extended) (b.text extended)
  | ite c a b => .ite (onUser (onRest c)) (a.text extended) (b.text extended)
  | loop c a => .loop (onUser (onRest c)) (a.text extended)
  | waitUntil line condition => ptxWaitUntil extended line (onUser (onRest condition))
  | yield line => ptxYield extended line
  | sleep line => ptxSleep extended line
  | restart => ptxRestart
  | exit => ptxExit

/-- The lines of the macros that block. -/
def lines : PtxBody σ → List ℕ
  | act _ => []
  | seq a b => a.lines ++ b.lines
  | ite _ a b => a.lines ++ b.lines
  | loop _ a => a.lines
  | waitUntil line _ => [line]
  | yield line => [line]
  | sleep line => [line]
  | restart => []
  | exit => []

/-- `PT_WAIT_WHILE`.
SOURCE: graham-pt.h:220 -/
def waitWhile (line : ℕ) (cond : σ → Option (Bool × σ)) : PtxBody σ := waitUntil line (negated cond)

/-- `PT_WAIT_THREAD`, with `PT_SCHEDULE`; `thread` is the call of the child.
SOURCE: graham-pt.h:260, 379 -/
def waitThread (line : ℕ) (thread : σ → Option (ℕ × σ)) : PtxBody σ :=
  waitWhile line fun s => (thread s).map fun (f, s) => (f == PT_THREAD_WAITING, s)

/-- `PT_SPAWN`; `initChild` is `PT_INIT((child))`.
SOURCE: graham-pt.h:302-306 -/
def spawn (line : ℕ) (initChild : σ → σ) (thread : σ → Option (ℕ × σ)) : PtxBody σ :=
  seq (act initChild) (waitThread line thread)

end PtxBody

/-- A call of the protothread: what it returns, the local continuation, and the state. -/
def ptxCall (extended : Bool) (fuel : ℕ) (body : PtxBody σ) (lc : BitVec 16) (p : Ptx σ) :
    Option (ℕ × BitVec 16 × Ptx σ) :=
  match settle Control.step fuel (.going [ptxThread (body.text extended)] ⟨lc, false, p⟩) with
  | some (.returned (some f) frame) => some (f, frame.lc, frame.user)
  | _ => none

/-- `PT_WAKE`.
SOURCE: graham-pt.h:474 -/
def ptWake (p : Ptx σ) : Ptx σ := { p with flags := p.flags &&& ~~~PT_F_SLEEPING }

/-- `PT_KILL`.
SOURCE: graham-pt.h:481 -/
def ptKill (p : Ptx σ) : Ptx σ := { p with flags := p.flags &&& ~~~PT_F_KILL }

/-- `PT_ISBLOCKED`.
SOURCE: graham-pt.h:488 -/
def ptIsBlocked (p : Ptx σ) : Bool := p.flags &&& PT_F_WAITING != 0

/-- What happens to a thread with a `struct ptx`: it is called, `PT_WAKE` or `PT_KILL` is applied
to it, or the rest of the state changes. -/
inductive PtxEvent (σ : Type) where
  | call
  | wake
  | kill
  | other (f : σ → σ)

/-- A thread with a `struct ptx` in a system; an output is what a call returns. -/
def ptxSystem (body : PtxBody σ) (fuel : ℕ) :
    Machine (BitVec 16 × Ptx σ) (PtxEvent σ) (Option ℕ) where
  step place event :=
    match event with
    | .call => (ptxCall true fuel body place.1 place.2).map fun (f, lc, p) => (some f, (lc, p))
    | .wake => some (none, (place.1, ptWake place.2))
    | .kill => some (none, (place.1, ptKill place.2))
    | .other f => some (none, (place.1, { place.2 with rest := f place.2.rest }))

end Ctools.Program
