import Ctools.Analysis.EventMoves
import Ctools.Analysis.EventFlags

/-!
# `event_wait` is sound and misses no wake-up

Any threads post to one event and call `event_wait` on it.  The invariant
`WaitOk` ties each thread to the value: a parked thread has no condition that
holds (its own test failed before it slept, a post that could change that wakes
it, and a consumer only takes bits away), and a thread that has left the loop
has one that does, since it has held the mutex from then on.
-/

set_option autoImplicit false

namespace Ctools.Analysis

open Ctools.Library Ctools.Program

variable {T : Type}

/-- Only `event_post` and `event_wait` are called, each wait with exactly one of
`EVENT_FLAG_AND` and `EVENT_FLAG_OR`, and `pthread_cond_wait` answers 0. -/
def waitsOnly (_ : EventState T) : EventAct T → Prop
  | .call _ (.wait call) => call.timeout = none ∧ exactlyOne call.option = true
  | .loop _ (some rc) => rc = 0
  | .wake _ rc => rc = 0
  | _ => True

instance (s : EventState T) : ∀ a, Decidable (waitsOnly s a)
  | .call _ (.wait call) => inferInstanceAs (Decidable (call.timeout = none ∧ _))
  | .loop _ (some rc) | .wake _ rc => inferInstanceAs (Decidable (rc = 0))
  | .call _ (.post _) | .lock _ | .post _ | .clock _ _ | .loop _ none | .finish _ =>
      inferInstanceAs (Decidable True)

/-- A frame of `event_wait` in its loop. -/
structure InLoop (frame : WaitFrame) : Prop where
  untimed : frame.call.timeout = none
  one : exactlyOne frame.call.option = true
  unmatched : frame.matched = false
  zero : frame.rc = 0

/-- After a condition wait that answered 0 the frame is still in its loop. -/
theorem InLoop.rewait {frame : WaitFrame} (hframe : InLoop frame) {rc : ℤ} (hrc : rc = 0)
    (fresh : Bool) : InLoop { frame with rc := rc, fresh := fresh } :=
  ⟨hframe.untimed, hframe.one, hframe.unmatched, hrc⟩

/-- What holds of a thread, given the event's value. -/
def WaitOk (value : UInt32) : EventPc → Prop
  | .waitEntry call => call.timeout = none ∧ exactlyOne call.option = true
  | .clock _ => False
  | .looping frame => InLoop frame
  | .parked frame =>
      InLoop frame ∧ eventMatch value frame.call.set frame.call.option = false
  | .woken frame => InLoop frame
  | .finishing frame =>
      exactlyOne frame.call.option = true ∧ frame.matched = true ∧
        eventMatch value frame.call.set frame.call.option = true
  | _ => True

/-- A post wakes the parked threads, so it keeps `WaitOk` of every thread that
is not in its critical section. -/
theorem WaitOk.post {value : UInt32} {pc : EventPc} (hpc : WaitOk value pc)
    (hout : inSection pc = false) (set : UInt32) : WaitOk (value ||| set) (broadcast pc) := by
  cases pc with
  | parked frame => exact hpc.1.rewait rfl frame.fresh
  | finishing frame => cases hout
  | _ => exact hpc

/-- A consumer only takes bits, so no condition of a parked thread comes true. -/
theorem WaitOk.consume {value : UInt32} {pc : EventPc} (hpc : WaitOk value pc)
    (hout : inSection pc = false) (frame : WaitFrame) : WaitOk (valueAfter value frame) pc := by
  cases pc with
  | parked waiting =>
    obtain ⟨hframe, hfails⟩ := hpc
    refine ⟨hframe, Bool.eq_false_iff.mpr fun hholds => ?_⟩
    rw [eventMatch_of_valueAfter hholds] at hfails
    cases hfails
  | finishing frame => cases hout
  | _ => exact hpc

variable [DecidableEq T]

/-- The thread that moves keeps `WaitOk`. -/
theorem waitOk_actor {s s' : EventState T} {a : EventAct T} {o : EventObs T}
    (hmove : EventMove s a o s') (hguard : waitsOnly s a)
    (hs : WaitOk s.value (s.pc (actor a))) : WaitOk s'.value (s'.pc (actor a)) := by
  cases hmove with
  | callNull t call hpc hrecved => exact hs
  | callPost t set hpc => simp [EventState.goto, actor, WaitOk]
  | callWait t call hpc hrecved =>
    have huntimed : call.timeout = none ∧ exactlyOne call.option = true := hguard
    simpa [EventState.goto, actor, WaitOk] using huntimed
  | lockPost t set hpc hfree => simp [EventState.goto, actor, WaitOk]
  | lockWait t call hpc hfree huntimed =>
    simp only [actor, hpc, WaitOk] at hs
    simpa [EventState.goto, actor, WaitOk] using ⟨huntimed, hs.2, rfl, rfl⟩
  | lockTimedwait t call hpc hfree htimed =>
    simp only [actor, hpc, WaitOk] at hs
    rw [hs.1] at htimed
    cases htimed
  | lockWoken t frame hpc hfree =>
    simp only [actor, hpc, WaitOk] at hs
    simpa [EventState.goto, actor, WaitOk] using hs
  | post t set hpc => simp [actor, WaitOk]
  | clock t call now hpc => simp [actor, hpc, WaitOk] at hs
  | clockFails t call hpc => simp [actor, hpc, WaitOk] at hs
  | leave t reject frame frame' hpc hloop =>
    simp only [actor, hpc, WaitOk] at hs
    rw [waitLoop_untimed hs.untimed hs.unmatched hs.zero] at hloop
    split at hloop
    · rename_i hholds
      cases hloop
      simpa [EventState.goto, actor, WaitOk] using ⟨hs.one, hholds⟩
    · cases hloop
  | reject t rc frame frame' hpc hloop =>
    simp only [actor, hpc, WaitOk] at hs
    rw [waitLoop_untimed hs.untimed hs.unmatched hs.zero] at hloop
    split at hloop
    · cases hloop
    · cases hloop
      have hrc : rc = 0 := hguard
      simpa [EventState.goto, actor, WaitOk] using hs.rewait hrc false
  | park t frame frame' hpc hloop =>
    simp only [actor, hpc, WaitOk] at hs
    rw [waitLoop_untimed hs.untimed hs.unmatched hs.zero] at hloop
    split at hloop
    · cases hloop
    · rename_i hfails
      cases hloop
      simpa [EventState.goto, actor, WaitOk] using
        And.intro (hs.rewait hs.zero false) (Bool.eq_false_iff.mpr hfails)
  | wake t rc frame hpc =>
    simp only [actor, hpc, WaitOk] at hs
    have hrc : rc = 0 := hguard
    simpa [EventState.goto, actor, WaitOk] using hs.1.rewait hrc frame.fresh
  | finish t frame hpc => simp [actor, WaitOk]

/-- Every step keeps `WaitOk` of every thread. -/
theorem waitOk_step {s s' : EventState T} {a : EventAct T} {o : EventObs T}
    (hmove : EventMove s a o s') (hguard : waitsOnly s a) (hheld : MutexHeld s)
    (hs : ∀ t, WaitOk s.value (s.pc t)) (u : T) : WaitOk s'.value (s'.pc u) := by
  by_cases hu : u = actor a
  · rw [hu]
    exact waitOk_actor hmove hguard (hs _)
  · rcases others_step hmove hheld hu with
      ⟨hpc, hval⟩ | ⟨hout, set, hpc, hval⟩ | ⟨hout, t, frame, -, -, hpc, hval⟩
    · rw [hpc, hval]
      exact hs u
    · rw [hpc, hval]
      exact (hs u).post hout set
    · rw [hpc, hval]
      exact (hs u).consume hout frame

/-- A step of `event_wait` that returns 0 returns what it should. -/
def WaitSound (o : EventObs T) : Prop :=
  ∀ t call recved, o.ret = some ⟨t, .wait call, 0, recved⟩ →
    recved = some (o.before &&& call.set) ∧ Reports call (o.before &&& call.set)

/-- **A step** returns 0 from a wait only with flags that are set and that it waited for. -/
theorem waitSound_step {s s' : EventState T} {a : EventAct T} {o : EventObs T}
    (hmove : EventMove s a o s') (hs : ∀ t, WaitOk s.value (s.pc t)) : WaitSound o := by
  intro t call recved hret
  obtain ⟨hbefore, -, hcase⟩ := value_step hmove
  rcases hcase with ⟨u, set, -, hr, -⟩ | ⟨u, frame, -, hpc, hr, -⟩ | ⟨-, hr⟩
  · simp [hret] at hr
  · have hfin := hs u
    rw [hpc] at hfin
    obtain ⟨hone, hmatched, hholds⟩ := hfin
    simp only [hret, waitResult, hmatched, if_true, Option.some.injEq, EventRet.mk.injEq,
      EventCall.wait.injEq] at hr
    obtain ⟨-, rfl, -, rfl⟩ := hr
    rw [hbefore]
    exact ⟨rfl, reports_of_eventMatch hone hholds⟩
  · exact absurd rfl (hr _ hret)

end Ctools.Analysis

open Ctools.Library Ctools.Program Ctools.Analysis in
/-- **`event_wait` is sound and misses no wake-up.**  In every run of posts and
waits, each wait that returns 0 reports `e->value & set` as its tail found it,
which is `set` with `EVENT_FLAG_AND` and not 0 with `EVENT_FLAG_OR`; and no
thread is parked without a pending wake-up while its condition holds.
SOURCE: event1.c:33-43, event1.c:46-82 -/
theorem Ctools.Analysis.event_wait_sound {T : Type} [DecidableEq T] {value : UInt32}
    {h : List (EventAct T × EventObs T)} {s : EventState T}
    (hrun : (eventMachine T).Run waitsOnly (eventStart value) h s) :
    (∀ e ∈ h, WaitSound e.2) ∧
      ∀ t frame, s.pc t = .parked frame →
        eventMatch s.value frame.call.set frame.call.option = false := by
  have hinv := hrun.invariant_shows
    (fun s => MutexHeld s ∧ ∀ t, WaitOk s.value (s.pc t)) WaitSound
    ⟨mutexHeld_start value, fun _ => trivial⟩
    (fun s a o s' hs hguard hstep =>
      ⟨⟨mutexHeld_step (eventMove_of_step hstep) hs.1,
        waitOk_step (eventMove_of_step hstep) hguard hs.1 hs.2⟩,
        waitSound_step (eventMove_of_step hstep) hs.2⟩)
  refine ⟨hinv.2, fun t frame hpc => ?_⟩
  have hparked := hinv.1.2 t
  rw [hpc] at hparked
  exact hparked.2

open Ctools.Library Ctools.Program Ctools.Analysis in
/-- The theorem at a run of three threads: thread 1 waits for bits 0 and 1,
thread 0 posts them one by one, and thread 2 takes bit 0 in between. -/
theorem Ctools.Analysis.event_wait_sound_contended :
    ∃ h s, (eventMachine (Fin 3)).Run waitsOnly (eventStart 0) h s ∧
      s.pc 1 = .parked ⟨⟨3, EVENT_FLAG_AND, none, true⟩, false, 0, ⟨0, 0⟩, false⟩ ∧
      s.value = 2 ∧ (∀ e ∈ h, WaitSound e.2) ∧ eventMatch 2 3 EVENT_FLAG_AND = false := by
  have hrun := Machine.run_of_execUnder (m := eventMachine (Fin 3)) waitsOnly (eventStart 0)
    [.call 1 (.wait ⟨3, EVENT_FLAG_AND, none, true⟩), .lock 1, .loop 1 none,
      .call 0 (.post 1), .lock 0, .post 0,
      .call 2 (.wait ⟨1, EVENT_FLAG_OR ||| EVENT_FLAG_CLEAR, none, true⟩), .lock 2,
      .loop 2 none, .finish 2, .call 0 (.post 2), .lock 0, .post 0, .lock 1, .loop 1 none] rfl
  have hsound := event_wait_sound hrun
  exact ⟨_, _, hrun, rfl, by decide, hsound.1, hsound.2 1 _ rfl⟩
