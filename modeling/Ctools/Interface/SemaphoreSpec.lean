import Ctools.Program.Protothread

/-!
# Sections guarded by a semaphore

A body that uses a semaphore as it is meant to be used waits for it before a section and signals
it behind the section.  The section may block; it may not leave the body.  Everything else leaves
the count as it is.
-/

set_option autoImplicit false

namespace Ctools.Interface

open Ctools.Program

variable {σ : Type}

/-- A body in which a semaphore guards sections. -/
inductive Sectioned (σ : Type) where
  | plain (b : PtBody σ)
  | critical (line : ℕ) (b : PtBody σ)
  | seq (a b : Sectioned σ)
  | ite (c : σ → Option (Bool × σ)) (a b : Sectioned σ)
  | loop (c : σ → Option (Bool × σ)) (a : Sectioned σ)

/-- A condition leaves the count as it is. -/
def SparesCond (sem : PtSem σ) (c : σ → Option (Bool × σ)) : Prop :=
  ∀ s met s', c s = some (met, s') → sem.count s' = sem.count s

/-- A body leaves the count as it is. -/
def Spares (sem : PtSem σ) : PtBody σ → Prop
  | .act f => ∀ s, sem.count (f s) = sem.count s
  | .seq a b => Spares sem a ∧ Spares sem b
  | .ite c a b => SparesCond sem c ∧ Spares sem a ∧ Spares sem b
  | .loop c a => SparesCond sem c ∧ Spares sem a
  | .waitUntil _ c => SparesCond sem c
  | .yield _ => True
  | .yieldUntil _ c => SparesCond sem c
  | .restart => True
  | .exit => True

/-- A body that is not left but at its end. -/
def Straight : PtBody σ → Prop
  | .seq a b => Straight a ∧ Straight b
  | .ite _ a b => Straight a ∧ Straight b
  | .loop _ a => Straight a
  | .restart => False
  | .exit => False
  | _ => True

namespace Sectioned

/-- The body as it is written. -/
def body (sem : PtSem σ) : Sectioned σ → PtBody σ
  | plain b => b
  | critical line b => .seq (ptSemWait line sem) (.seq b (ptSemSignal sem))
  | seq a b => .seq (a.body sem) (b.body sem)
  | ite c a b => .ite c (a.body sem) (b.body sem)
  | loop c a => .loop c (a.body sem)

/-- The lines of the macros in the sections. -/
def inside : Sectioned σ → List ℕ
  | plain _ => []
  | critical _ b => b.lines
  | seq a b => a.inside ++ b.inside
  | ite _ a b => a.inside ++ b.inside
  | loop _ a => a.inside

/-- The lines of all other macros. -/
def outside : Sectioned σ → List ℕ
  | plain b => b.lines
  | critical line _ => [line]
  | seq a b => a.outside ++ b.outside
  | ite _ a b => a.outside ++ b.outside
  | loop _ a => a.outside

/-- Nothing but the sections uses the semaphore, and they are left at their end. -/
def Disciplined (sem : PtSem σ) : Sectioned σ → Prop
  | plain b => Spares sem b
  | critical _ b => Spares sem b ∧ Straight b
  | seq a b => a.Disciplined sem ∧ b.Disciplined sem
  | ite c a b => SparesCond sem c ∧ a.Disciplined sem ∧ b.Disciplined sem
  | loop c a => SparesCond sem c ∧ a.Disciplined sem

end Sectioned

end Ctools.Interface
