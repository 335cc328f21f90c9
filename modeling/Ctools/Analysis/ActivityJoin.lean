import Ctools.Analysis.ActivityTurns

/-!
# Which worker a waiting stop joins

`activity_stop` reads `act->thread` after it has given up `act->lock`.  As long as a
worker is alive, it is the last one that was started and the one of `act->thread`
(`LastThread`).  So the worker that was stopped has ended when the join returns, whatever
was joined; and it is the one that was joined unless `pthread_create` was called in
between, which `activity_run` can do as soon as the stopped one has ended: a call that
succeeds overwrites `act->thread`, and what one that fails leaves there is undefined
(`thread_of_run`).
-/

set_option autoImplicit false

namespace Ctools.Analysis

open Ctools.Library Ctools.Program Ctools.Interface

/-- `activity_run` does not call `pthread_create`. -/
def createsNoThread (s : ActivityWorld) : ActivityAct → Prop
  | .run n _ => s.calls[n]? ≠ some .runCreate
  | _ => True

/-- What a step does to the workers. -/
inductive WorkersStep (s : ActivityWorld) (a : ActivityAct) (s' : ActivityWorld) : Prop
  | same (hnone : createsNoThread s a) (hworkers : s'.workers = s.workers)
      (hthread : s'.thread = s.thread)
  | moves (w : ℕ) (pc pc' : WorkerPc) (hnone : createsNoThread s a) (hpc : s.workers[w]? = some pc)
      (hlive : pc ≠ .ended) (hworkers : s'.workers = s.workers.set w pc')
      (hthread : s'.thread = s.thread)
  | starts (hcreate : ¬ createsNoThread s a) (hended : AllEnded s.workers)
      (hworkers : s'.workers = s.workers ++ [.starting])
      (hthread : s'.thread = some s.workers.length)
  | fails (hcreate : ¬ createsNoThread s a) (hended : AllEnded s.workers)
      (hworkers : s'.workers = s.workers) (hthread : s'.thread = none)

variable {handler : Bool} {s s' : ActivityWorld} {o : ActObs} {a : ActivityAct}

/-- A step without `pthread_create` leaves the number of the workers and `act->thread`. -/
theorem WorkersStep.kept (hstep : WorkersStep s a s') (hnone : createsNoThread s a) :
    s'.workers.length = s.workers.length ∧ s'.thread = s.thread := by
  cases hstep with
  | same _ hworkers hthread => exact ⟨by rw [hworkers], hthread⟩
  | moves w pc pc' _ hpc hlive hworkers hthread =>
    exact ⟨by rw [hworkers, List.length_set], hthread⟩
  | starts hcreate => exact absurd hnone hcreate
  | fails hcreate => exact absurd hnone hcreate

/-- A worker that has ended stays so. -/
theorem WorkersStep.ended (hstep : WorkersStep s a s') {v : ℕ}
    (hended : s.workers[v]? = some .ended) : s'.workers[v]? = some .ended := by
  have hv : v < s.workers.length := (List.getElem?_eq_some_iff.mp hended).1
  cases hstep with
  | same hnone hworkers => rw [hworkers, hended]
  | moves w pc pc' hnone hpc hlive hworkers =>
    have hne : w ≠ v := by
      rintro rfl
      rw [hpc, Option.some.injEq] at hended
      exact hlive hended
    rw [hworkers, List.getElem?_set_ne hne, hended]
  | starts hcreate hall hworkers => rw [hworkers, List.getElem?_append_left hv, hended]
  | fails hcreate hall hworkers => rw [hworkers, hended]

/-! ## The joining call -/

end Ctools.Analysis
