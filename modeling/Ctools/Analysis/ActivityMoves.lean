import Ctools.Interface.ActivitySpec
import Ctools.Library.Table

/-!
# What one step of an activity can do

`ActMove` lists the branches of `activityStep`, with their guards, once for all
the invariants of an activity; `actMove_of_step` is the inversion, function by
function.
-/

set_option autoImplicit false

namespace Ctools.Analysis

open Ctools.Library Ctools.Program Ctools.Interface

/-- Where a call that is not refused at its start begins.
SOURCE: activity.c:313-319, activity.c:355-358 -/
inductive Enters : ActivityCall → CallPc → Prop
  | sendCopy (a : SendArgs) (hmsg : ¬ a.msg > UINT16_MAX) (hsize : a.argSize ≠ 0) :
      Enters (.send a) (.sendCopy a)
  | sendLock (a : SendArgs) (hmsg : ¬ a.msg > UINT16_MAX) (hsize : a.argSize = 0) :
      Enters (.send a) (.sendLock a (.user a.arg))
  | exec (a : ExecArgs) : Enters (.exec a) (.execItem a)
  | stop (waitFinish : Bool) : Enters (.stop waitFinish) (.stopLock waitFinish)
  | run : Enters .run .runLock

/-- The message of `activity_msg_send`.
SOURCE: activity.c:50-53 -/
def sendMsg (a : SendArgs) (arg : Ptr) (e : ℕ) : ActMsg :=
  ⟨e, arg, a.msg.toUInt32.toUInt16, 0, if a.argSize ≠ 0 then ACT_ATTR_GC else 0⟩

/-- The message of `activity_exec`.
SOURCE: activity.c:50-53 -/
def execMsg (i e : ℕ) : ActMsg := ⟨e, .item i, 2, 0, 0⟩

/-- The message of `activity_stop`.
SOURCE: activity.c:50-53 -/
def stopMsg (e : ℕ) : ActMsg := ⟨e, .null, 1, 0, 0⟩

/-- Element `e` holds `msg` and is the last one of the queue. -/
def enqueued (s : ActivityWorld) (msg : ActMsg) : ActivityWorld :=
  { s with outstanding := .msg msg.elem :: s.outstanding, queue := s.queue ++ [msg] }

/-- The branches of `activityStep`. -/
inductive ActMove (handler : Bool) (s : ActivityWorld) :
    ActivityAct → ActObs → ActivityWorld → Prop
  | refuse (c : ActivityCall) (rc : ℤ) (hrc : rc ≠ 0) :
      ActMove handler s (.call c) { quiet s with ret := some (c, rc) }
        { s with calls := s.calls ++ [.returned rc] }
  | enter (c : ActivityCall) (pc : CallPc) (hpc : Enters c pc) :
      ActMove handler s (.call c) (quiet s) { s with calls := s.calls ++ [pc] }
  | sendNoCopy (n : ℕ) (a : SendArgs) (hpc : s.calls[n]? = some (.sendCopy a)) :
      ActMove handler s (.alloc n none) { quiet s with ret := some (.send a, -ENOMEM) }
        (s.setCall n (.returned (-ENOMEM)))
  | sendCopy (n : ℕ) (a : SendArgs) (c : ℕ) (hpc : s.calls[n]? = some (.sendCopy a))
      (hfresh : .copy c ∉ s.outstanding) :
      ActMove handler s (.alloc n (some c)) { quiet s with took := [.copy c] }
        ({ s with outstanding := .copy c :: s.outstanding }.setCall n (.sendLock a (.copy c)))
  | execNoItem (n : ℕ) (a : ExecArgs) (hpc : s.calls[n]? = some (.execItem a)) :
      ActMove handler s (.alloc n none) { quiet s with ret := some (.exec a, -ENOMEM) }
        (s.setCall n (.returned (-ENOMEM)))
  | execItem (n : ℕ) (a : ExecArgs) (i : ℕ) (hpc : s.calls[n]? = some (.execItem a))
      (hfresh : .item i ∉ s.outstanding) :
      ActMove handler s (.alloc n (some i)) { quiet s with took := [.item i] }
        ({ s with
          outstanding := .item i :: s.outstanding
          items := Function.update s.items i ⟨a.func, .user a.arg, 0⟩ }.setCall n
            (if a.argSize ≠ 0 then .execCopy a i else .execLock a i .null))
  | execNoCopy (n : ℕ) (a : ExecArgs) (i : ℕ) (hpc : s.calls[n]? = some (.execCopy a i)) :
      ActMove handler s (.alloc n none) (quiet s)
        ({ s with
            items := Function.update s.items i { s.items i with attr := ACT_ATTR_GC } }.setCall
          n (.execFreeItem a i (-ENOMEM)))
  | execCopy (n : ℕ) (a : ExecArgs) (i c : ℕ) (hpc : s.calls[n]? = some (.execCopy a i))
      (hfresh : .copy c ∉ s.outstanding) :
      ActMove handler s (.alloc n (some c)) { quiet s with took := [.copy c] }
        ({ s with
          outstanding := .copy c :: s.outstanding
          items := Function.update s.items i
            { s.items i with attr := ACT_ATTR_GC, arg := .copy c } }.setCall n
              (.execLock a i (.copy c)))
  | sendRefused (n : ℕ) (a : SendArgs) (arg : Ptr) (rc : ℤ) (elem : Option ℕ)
      (hpc : s.calls[n]? = some (.sendLock a arg)) (hrc : rc ≠ 0) (hsize : a.argSize = 0) :
      ActMove handler s (.locked n elem) { quiet s with ret := some (.send a, rc) }
        (s.setCall n (.returned rc))
  | sendRefusedFree (n : ℕ) (a : SendArgs) (arg : Ptr) (rc : ℤ) (elem : Option ℕ)
      (hpc : s.calls[n]? = some (.sendLock a arg)) (hrc : rc ≠ 0) (hsize : a.argSize ≠ 0) :
      ActMove handler s (.locked n elem)
        (giveBack { quiet s with ret := some (.send a, rc) } s (wofFree arg)).1
        ((giveBack { quiet s with ret := some (.send a, rc) } s (wofFree arg)).2.setCall n
          (.returned rc))
  | sendAccepted (n : ℕ) (a : SendArgs) (arg : Ptr) (e : ℕ)
      (hpc : s.calls[n]? = some (.sendLock a arg)) (hstate : s.state = .run)
      (hfresh : .msg e ∉ s.outstanding) :
      ActMove handler s (.locked n (some e))
        { quiet s with
          took := [.msg e], enqueued := some (sendMsg a arg e), ret := some (.send a, 0) }
        ((enqueued s (sendMsg a arg e)).setCall n (.returned 0))
  | execRefused (n : ℕ) (a : ExecArgs) (i : ℕ) (newArg : Ptr) (rc : ℤ) (elem : Option ℕ)
      (hpc : s.calls[n]? = some (.execLock a i newArg)) (hrc : rc ≠ 0) :
      ActMove handler s (.locked n elem) (quiet s)
        (s.setCall n
          (if a.argSize ≠ 0 then .execFreeArg a i newArg rc else .execFreeItem a i rc))
  | execAccepted (n : ℕ) (a : ExecArgs) (i : ℕ) (newArg : Ptr) (e : ℕ)
      (hpc : s.calls[n]? = some (.execLock a i newArg)) (hstate : s.state = .run)
      (hfresh : .msg e ∉ s.outstanding) :
      ActMove handler s (.locked n (some e))
        { quiet s with took := [.msg e], enqueued := some (execMsg i e), ret := some (.exec a, 0) }
        ((enqueued s (execMsg i e)).setCall n (.returned 0))
  | stopRefused (n : ℕ) (waitFinish : Bool) (rc : ℤ) (elem : Option ℕ)
      (hpc : s.calls[n]? = some (.stopLock waitFinish)) (hrc : rc ≠ 0) :
      ActMove handler s (.locked n elem) { quiet s with ret := some (.stop waitFinish, rc) }
        (s.setCall n (.returned rc))
  | stopAccepted (n : ℕ) (waitFinish : Bool) (e : ℕ)
      (hpc : s.calls[n]? = some (.stopLock waitFinish)) (hstate : s.state = .run)
      (hfresh : .msg e ∉ s.outstanding) :
      ActMove handler s (.locked n (some e))
        { quiet s with
          took := [.msg e], enqueued := some (stopMsg e)
          ret := if waitFinish then none else some (.stop waitFinish, 0) }
        ({ enqueued s (stopMsg e) with state := .pendingStop }.setCall n
          (if waitFinish then .stopJoin else .returned 0))
  | freeArg (n : ℕ) (a : ExecArgs) (i : ℕ) (newArg : Ptr) (rc : ℤ)
      (hpc : s.calls[n]? = some (.execFreeArg a i newArg rc)) :
      ActMove handler s (.free n) (giveBack (quiet s) s (wofFree newArg)).1
        ((giveBack (quiet s) s (wofFree newArg)).2.setCall n (.execFreeItem a i rc))
  | freeItem (n : ℕ) (a : ExecArgs) (i : ℕ) (rc : ℤ)
      (hpc : s.calls[n]? = some (.execFreeItem a i rc)) :
      ActMove handler s (.free n)
        (giveBack { quiet s with ret := some (.exec a, rc) } s (some [.item i])).1
        ((giveBack { quiet s with ret := some (.exec a, rc) } s (some [.item i])).2.setCall n
          (.returned rc))
  | runLock (n : ℕ) (rc : ℤ) (hpc : s.calls[n]? = some .runLock) (hfree : s.manager = none) :
      ActMove handler s (.run n rc) (quiet s)
        ({ s with manager := some n }.setCall n .runCheck)
  | runBack (n : ℕ) (rc rc' : ℤ) (pc : CallPc) (exited : Bool) (hpc : s.calls[n]? = some pc)
      (hwhere : (pc = .runCheck ∧ exited = s.exited) ∨ (pc = .runInit ∧ exited = s.exited) ∨
        (pc = .runEventInit ∧ exited = true)) :
      ActMove handler s (.run n rc) { quiet s with ret := some (.run, rc') }
        ({ s with exited := exited, manager := none }.setCall n (.returned rc'))
  | runNotCreated (n : ℕ) (rc : ℤ) (hpc : s.calls[n]? = some .runCreate) (hrc : rc ≠ 0) :
      ActMove handler s (.run n rc) { quiet s with ret := some (.run, rc) }
        ({ s with exited := true, thread := none, manager := none }.setCall n (.returned rc))
  | runCheck (n : ℕ) (rc : ℤ) (hpc : s.calls[n]? = some .runCheck) (hstate : s.state = .stop) :
      ActMove handler s (.run n rc) (quiet s) (s.setCall n .runInit)
  | runInit (n : ℕ) (rc : ℤ) (hpc : s.calls[n]? = some .runInit) :
      ActMove handler s (.run n rc) (quiet s) ({ s with exited := false }.setCall n .runEventInit)
  | runEventInit (n : ℕ) (rc : ℤ) (hpc : s.calls[n]? = some .runEventInit) :
      ActMove handler s (.run n rc) (quiet s) (s.setCall n .runCreate)
  | runCreate (n : ℕ) (hpc : s.calls[n]? = some .runCreate) :
      ActMove handler s (.run n 0) (quiet s)
        ({ s with
          workers := s.workers ++ [WorkerPc.starting]
          thread := some s.workers.length }.setCall n .runStarted)
  | runStarted (n : ℕ) (rc : ℤ) (hpc : s.calls[n]? = some .runStarted) :
      ActMove handler s (.run n rc) { quiet s with ret := some (.run, 0) }
        ({ s with state := .run, manager := none }.setCall n (.returned 0))
  | joinRead (n : ℕ) (hpc : s.calls[n]? = some .stopJoin) :
      ActMove handler s (.join n) (quiet s) (s.setCall n (.stopJoining s.thread))
  | joinDone (n : ℕ) (thread : Option ℕ) (hpc : s.calls[n]? = some (.stopJoining thread))
      (hended : ∀ w ∈ thread, s.workers[w]? = some .ended) :
      ActMove handler s (.join n) { quiet s with ret := some (.stop true, 0) }
        (s.setCall n (.returned 0))
  | workerStart (w : ℕ) (hpc : s.workers[w]? = some .starting) :
      ActMove handler s (.worker w) (quiet s) (s.setWorker w .polling)
  | drained (w : ℕ) (hpc : s.workers[w]? = some .draining) (hqueue : s.queue = []) :
      ActMove handler s (.worker w) (quiet s) (s.setWorker w .polling)
  | dequeue (w : ℕ) (msg : ActMsg) (queue : List ActMsg)
      (hpc : s.workers[w]? = some .draining) (hqueue : s.queue = msg :: queue) :
      ActMove handler s (.worker w) (quiet s)
        ({ s with queue := queue }.setWorker w (.holding msg))
  | handle (w : ℕ) (msg : ActMsg) (hpc : s.workers[w]? = some (.holding msg)) :
      ActMove handler s (.worker w) (handleMsg handler s msg).1
        ((handleMsg handler s msg).2.setWorker w .draining)
  | workerEnd (w : ℕ) (hpc : s.workers[w]? = some .leaving) :
      ActMove handler s (.worker w) (quiet s) ({ s with state := .stop }.setWorker w .ended)
  | pollBack (w : ℕ) (hpc : s.workers[w]? = some .polling) (hexited : s.exited = true) :
      ActMove handler s (.poll w true) (quiet s) (s.setWorker w .leaving)
  | pollCall (w : ℕ) (hpc : s.workers[w]? = some .polling) :
      ActMove handler s (.poll w false) (quiet s) (s.setWorker w .draining)

variable {handler : Bool} {s s' : ActivityWorld} {o : ActObs}

/-- SOURCE: activity.c:307-317, activity.c:349-356 -/
theorem actMove_callStart {c : ActivityCall} (h : callStart s c = (o, s')) :
    ActMove handler s (.call c) o s' := by
  cases c with
  | send a =>
    simp only [callStart] at h
    split at h
    · cases h
      exact .refuse _ _ (by decide)
    · rename_i hrange
      have hmsg : ¬ a.msg > UINT16_MAX := fun hgt => hrange (.inl hgt)
      split at h
      · cases h
        exact .refuse _ _ (by decide)
      · split at h
        · rename_i hsize
          cases h
          exact .enter _ _ (.sendCopy a hmsg hsize)
        · rename_i hsize
          cases h
          exact .enter _ _ (.sendLock a hmsg (not_not.mp hsize))
  | exec a =>
    simp only [callStart] at h
    split at h
    · cases h
      exact .refuse _ _ (by decide)
    · cases h
      exact .enter _ _ (.exec a)
  | stop waitFinish =>
    cases h
    exact .enter _ _ (.stop waitFinish)
  | run =>
    cases h
    exact .enter _ _ .run

/-- What is taken was not outstanding, and is so afterwards. -/
theorem take_eq_some {t : ActivityWorld} {x : Obj} (h : s.take x = some t) :
    x ∉ s.outstanding ∧ t = { s with outstanding := x :: s.outstanding } := by
  unfold ActivityWorld.take at h
  split at h
  · cases h
  · rename_i hfresh
    exact ⟨hfresh, (Option.some.inj h).symm⟩

/-- SOURCE: activity.c:319-327, activity.c:358-376 -/
theorem actMove_allocStep {n : ℕ} {block : Option ℕ} (h : allocStep s n block = some (o, s')) :
    ActMove handler s (.alloc n block) o s' := by
  unfold allocStep at h
  split at h
  · rename_i a hpc
    cases h
    exact .sendNoCopy n a hpc
  · rename_i a c hpc
    obtain ⟨t, htake, ht⟩ := Option.map_eq_some_iff.mp h
    obtain ⟨hfresh, rfl⟩ := take_eq_some htake
    cases ht
    exact .sendCopy n a c hpc hfresh
  · rename_i a hpc
    cases h
    exact .execNoItem n a hpc
  · rename_i a i hpc
    obtain ⟨t, htake, ht⟩ := Option.map_eq_some_iff.mp h
    obtain ⟨hfresh, rfl⟩ := take_eq_some htake
    cases ht
    exact .execItem n a i hpc hfresh
  · rename_i a i hpc
    cases h
    exact .execNoCopy n a i hpc
  · rename_i a i c hpc
    obtain ⟨t, htake, ht⟩ := Option.map_eq_some_iff.mp h
    obtain ⟨hfresh, rfl⟩ := take_eq_some htake
    cases ht
    exact .execCopy n a i c hpc hfresh
  · cases h

/-- `msg_enqueue` is out of memory, or enqueues a fresh element.
SOURCE: activity.c:42-58 -/
theorem msgEnqueue_cases {type : Int32} {arg : Ptr} {attr : UInt16} {elem : Option ℕ} {rc : ℤ}
    {msg : Option ActMsg} {t : ActivityWorld}
    (h : msgEnqueue s type arg attr elem = some (rc, msg, t)) :
    (rc = -ENOMEM ∧ msg = none ∧ t = s) ∨
      ∃ e, elem = some e ∧ .msg e ∉ s.outstanding ∧ rc = 0 ∧
        msg = some ⟨e, arg, type.toUInt32.toUInt16, 0, attr⟩ ∧
        t = enqueued s ⟨e, arg, type.toUInt32.toUInt16, 0, attr⟩ := by
  unfold msgEnqueue at h
  split at h
  · cases h
    exact .inl ⟨rfl, rfl, rfl⟩
  · rename_i e
    obtain ⟨t, htake, ht⟩ := Option.map_eq_some_iff.mp h
    obtain ⟨hfresh, rfl⟩ := take_eq_some htake
    cases ht
    exact .inr ⟨e, rfl, hfresh, rfl, rfl, rfl⟩

/-- The critical section of `activity_msg_send` refuses, or the activity runs and
the message is enqueued.
SOURCE: activity.c:330-337 -/
theorem sendSection_cases {m : Int32} {arg : Ptr} {attr : UInt16} {elem : Option ℕ} {rc : ℤ}
    {msg : Option ActMsg} {t : ActivityWorld}
    (h : sendSection s m arg attr elem = some (rc, msg, t)) :
    (rc ≠ 0 ∧ msg = none ∧ t = s) ∨
      ∃ e, elem = some e ∧ s.state = .run ∧ .msg e ∉ s.outstanding ∧ rc = 0 ∧
        msg = some ⟨e, arg, m.toUInt32.toUInt16, 0, attr⟩ ∧
        t = enqueued s ⟨e, arg, m.toUInt32.toUInt16, 0, attr⟩ := by
  unfold sendSection at h
  split at h
  · cases h
    exact .inl ⟨by decide, rfl, rfl⟩
  · rename_i hstate
    obtain ⟨⟨rc', msg', t'⟩, henq, ht⟩ := Option.map_eq_some_iff.mp h
    rcases msgEnqueue_cases henq with ⟨rfl, rfl, rfl⟩ | ⟨e, rfl, hfresh, rfl, rfl, rfl⟩
    · simp only [ENOMEM] at ht
      cases ht
      exact .inl ⟨by decide, rfl, rfl⟩
    · cases ht
      exact .inr ⟨e, rfl, not_not.mp hstate, hfresh, rfl, rfl, rfl⟩

/-- `activity_set_pendding_exit` refuses, or the activity runs and the stop message
is enqueued.
SOURCE: activity.c:71-84 -/
theorem setPenddingExit_cases {elem : Option ℕ} {rc : ℤ} {msg : Option ActMsg} {t : ActivityWorld}
    (h : activitySetPenddingExit s elem = some (rc, msg, t)) :
    (rc ≠ 0 ∧ msg = none ∧ t = s) ∨
      ∃ e, elem = some e ∧ s.state = .run ∧ .msg e ∉ s.outstanding ∧ rc = 0 ∧
        msg = some (stopMsg e) ∧ t = { enqueued s (stopMsg e) with state := .pendingStop } := by
  unfold activitySetPenddingExit at h
  split at h
  · cases h
    exact .inl ⟨by decide, rfl, rfl⟩
  · rename_i hstate
    obtain ⟨⟨rc', msg', t'⟩, henq, ht⟩ := Option.map_eq_some_iff.mp h
    rcases msgEnqueue_cases henq with ⟨rfl, rfl, rfl⟩ | ⟨e, rfl, hfresh, rfl, rfl, rfl⟩
    · simp only [ENOMEM] at ht
      cases ht
      exact .inl ⟨by decide, rfl, rfl⟩
    · cases ht
      exact .inr ⟨e, rfl, not_not.mp hstate, hfresh, rfl, rfl, rfl⟩

/-- SOURCE: activity.c:295-304, activity.c:329-347, activity.c:378-383 -/
theorem actMove_lockedStep {n : ℕ} {elem : Option ℕ} (h : lockedStep s n elem = some (o, s')) :
    ActMove handler s (.locked n elem) o s' := by
  unfold lockedStep at h
  split at h
  · rename_i a arg hpc
    obtain ⟨⟨rc, msg, t⟩, hsection, ht⟩ := Option.map_eq_some_iff.mp h
    rcases sendSection_cases hsection with ⟨hrc, rfl, rfl⟩ | ⟨e, rfl, hstate, hfresh, rfl, rfl, rfl⟩
    · by_cases hsize : a.argSize = 0
      · simp [hsize] at ht
        obtain ⟨rfl, rfl⟩ := ht
        exact .sendRefused n a arg rc elem hpc hrc hsize
      · simp [hrc, hsize] at ht
        obtain ⟨rfl, rfl⟩ := ht
        exact .sendRefusedFree n a arg rc elem hpc hrc hsize
    · simp only [ne_eq, not_true_eq_false, false_and, if_false] at ht
      cases ht
      exact .sendAccepted n a arg e hpc hstate hfresh
  · rename_i a i newArg hpc
    obtain ⟨⟨rc, msg, t⟩, hsection, ht⟩ := Option.map_eq_some_iff.mp h
    rcases sendSection_cases hsection with ⟨hrc, rfl, rfl⟩ | ⟨e, rfl, hstate, hfresh, rfl, rfl, rfl⟩
    · have hmove : ActMove handler _ _ _ _ := .execRefused n a i newArg rc elem hpc hrc
      by_cases hsize : a.argSize = 0
      · simp [hrc, hsize] at ht hmove
        obtain ⟨rfl, rfl⟩ := ht
        exact hmove
      · simp [hrc, hsize] at ht hmove
        obtain ⟨rfl, rfl⟩ := ht
        exact hmove
    · simp at ht
      obtain ⟨rfl, rfl⟩ := ht
      exact .execAccepted n a i newArg e hpc hstate hfresh
  · rename_i waitFinish hpc
    obtain ⟨⟨rc, msg, t⟩, hsection, ht⟩ := Option.map_eq_some_iff.mp h
    rcases setPenddingExit_cases hsection with
      ⟨hrc, rfl, rfl⟩ | ⟨e, rfl, hstate, hfresh, rfl, rfl, rfl⟩
    · simp [hrc] at ht
      obtain ⟨rfl, rfl⟩ := ht
      exact .stopRefused n waitFinish rc elem hpc hrc
    · have hmove : ActMove handler _ _ _ _ := .stopAccepted n waitFinish e hpc hstate hfresh
      cases waitFinish with
      | true =>
        simp at ht
        obtain ⟨rfl, rfl⟩ := ht
        exact hmove
      | false =>
        simp at ht
        obtain ⟨rfl, rfl⟩ := ht
        exact hmove
  · cases h

/-- SOURCE: activity.c:385-392 -/
theorem actMove_freeStep {n : ℕ} (h : freeStep s n = some (o, s')) :
    ActMove handler s (.free n) o s' := by
  unfold freeStep at h
  split at h
  · rename_i a i newArg rc hpc
    cases h
    exact .freeArg n a i newArg rc hpc
  · rename_i a i rc hpc
    cases h
    exact .freeItem n a i rc hpc
  · cases h

/-- SOURCE: activity.c:182-219, activity.c:233-241 -/
theorem actMove_runStep {n : ℕ} {rc : ℤ} (h : runStep s n rc = some (o, s')) :
    ActMove handler s (.run n rc) o s' := by
  unfold runStep at h
  split at h
  · rename_i hpc
    split at h
    · rename_i hfree
      cases h
      exact .runLock n rc hpc hfree
    · cases h
  · rename_i hpc
    split at h
    · cases h
      exact .runBack n rc 0 _ _ hpc (.inl ⟨rfl, rfl⟩)
    · split at h
      · cases h
        exact .runBack n rc (-1) _ _ hpc (.inl ⟨rfl, rfl⟩)
      · rename_i hstate
        cases h
        exact .runCheck n rc hpc (not_not.mp hstate)
  · rename_i hpc
    split at h
    · cases h
      exact .runBack n rc rc _ _ hpc (.inr (.inl ⟨rfl, rfl⟩))
    · cases h
      exact .runInit n rc hpc
  · rename_i hpc
    split at h
    · cases h
      exact .runBack n rc rc _ _ hpc (.inr (.inr ⟨rfl, rfl⟩))
    · cases h
      exact .runEventInit n rc hpc
  · rename_i hpc
    split at h
    · rename_i hfailed
      cases h
      exact .runNotCreated n rc hpc hfailed
    · rename_i hcreated
      obtain rfl := not_not.mp hcreated
      cases h
      exact .runCreate n hpc
  · rename_i hpc
    cases h
    exact .runStarted n rc hpc
  · cases h

/-- SOURCE: activity.c:301-302 -/
theorem actMove_joinStep {n : ℕ} (h : joinStep s n = some (o, s')) :
    ActMove handler s (.join n) o s' := by
  unfold joinStep at h
  split at h
  · rename_i hpc
    cases h
    exact .joinRead n hpc
  · rename_i thread hpc
    split at h
    · rename_i hended
      cases h
      exact .joinDone n thread hpc hended
    · cases h
  · cases h

/-- SOURCE: activity.c:126-180 -/
theorem actMove_workerStep {w : ℕ} (h : workerStep handler s w = some (o, s')) :
    ActMove handler s (.worker w) o s' := by
  unfold workerStep at h
  split at h
  · rename_i hpc
    cases h
    exact .workerStart w hpc
  · rename_i hpc
    split at h
    · rename_i hqueue
      cases h
      exact .drained w hpc hqueue
    · rename_i msg queue hqueue
      cases h
      exact .dequeue w msg queue hpc hqueue
  · rename_i msg hpc
    cases h
    exact .handle w msg hpc
  · rename_i hpc
    cases h
    exact .workerEnd w hpc
  · cases h

/-- SOURCE: activity.c:165 -/
theorem actMove_pollStep {w : ℕ} {back : Bool} (h : pollStep s w back = some (o, s')) :
    ActMove handler s (.poll w back) o s' := by
  unfold pollStep at h
  split at h
  · rename_i hpc
    cases back with
    | true =>
      rw [if_pos rfl] at h
      split at h
      · rename_i hexited
        cases h
        exact .pollBack w hpc hexited
      · cases h
    | false =>
      cases h
      exact .pollCall w hpc
  · cases h

/-- Every step is one of the branches.
SOURCE: activity.c:42-393 -/
theorem actMove_of_step {a : ActivityAct} (h : activityStep handler s a = some (o, s')) :
    ActMove handler s a o s' := by
  cases a with
  | call c => exact actMove_callStart (Option.some.inj h)
  | alloc n block => exact actMove_allocStep h
  | locked n elem => exact actMove_lockedStep h
  | free n => exact actMove_freeStep h
  | run n rc => exact actMove_runStep h
  | join n => exact actMove_joinStep h
  | worker w => exact actMove_workerStep h
  | poll w back => exact actMove_pollStep h

/-! ## What the calls carry -/

/-- Clients that keep to their messages send plain ones. -/
theorem plainMsgs_of_clientMsgs (s : ActivityWorld) (a : ActivityAct) (h : clientMsgs s a) :
    plainMsgs s a := by
  unfold plainMsgs
  split
  · rename_i args
    intro hhigh
    have hlow : ACTIVITY_MSG_GENERAL ≤ args.msg := h
    have hsmall (m : Int32) (hm : m < ACTIVITY_MSG_GENERAL) : args.msg ≠ m := by
      rintro rfl
      exact Int32.not_le.mpr hm hlow
    exact ⟨Int32.le_trans (by decide) hlow, hhigh, hsmall _ (by decide), hsmall _ (by decide)⟩
  · trivial

/-- What a call carries from its start on: a copied argument if `arg_size` is not 0,
and an error once it releases. -/
def CallShape : CallPc → Prop
  | .sendCopy a => IsPlain a.msg ∧ a.argSize ≠ 0
  | .sendLock a arg =>
      IsPlain a.msg ∧ if a.argSize ≠ 0 then ∃ c, arg = .copy c else arg = .user a.arg
  | .execCopy a _ => a.argSize ≠ 0
  | .execLock a _ newArg => if a.argSize ≠ 0 then ∃ c, newArg = .copy c else newArg = .null
  | .execFreeArg _ _ newArg rc => rc ≠ 0 ∧ ∃ c, newArg = .copy c
  | .execFreeItem _ _ rc => rc ≠ 0
  | _ => True

/-- A call begins with the shape that its arguments give it. -/
theorem callShape_enters {c : ActivityCall} {pc : CallPc} (hpc : Enters c pc)
    (hguard : plainMsgs s (.call c)) : CallShape pc := by
  cases hpc with
  | sendCopy a hmsg hsize => exact ⟨hguard (Int32.not_lt.mp hmsg), hsize⟩
  | sendLock a hmsg hsize => exact ⟨hguard (Int32.not_lt.mp hmsg), by simp [hsize]⟩
  | _ => trivial

/-- The calls of a world carry what they should. -/
def CallShapes (s : ActivityWorld) : Prop :=
  ∀ (n : ℕ) (pc : CallPc), s.calls[n]? = some pc → CallShape pc

/-- The shapes of the calls, where one moves. -/
theorem CallShapes.set {calls : List CallPc} {n : ℕ} {pc : CallPc}
    (hs : ∀ (m : ℕ) (q : CallPc), calls[m]? = some q → CallShape q) (hpc : CallShape pc) :
    ∀ (m : ℕ) (q : CallPc), (calls.set n pc)[m]? = some q → CallShape q := by
  intro m q hq
  rcases getElem?_set_cases hq with ⟨-, rfl⟩ | ⟨-, hold⟩
  · exact hpc
  · exact hs m q hold

/-- The shapes of the calls, where one starts. -/
theorem CallShapes.snoc {calls : List CallPc} {pc : CallPc}
    (hs : ∀ (m : ℕ) (q : CallPc), calls[m]? = some q → CallShape q) (hpc : CallShape pc) :
    ∀ (m : ℕ) (q : CallPc), (calls ++ [pc])[m]? = some q → CallShape q := by
  intro m q hq
  rcases getElem?_snoc_cases hq with ⟨-, rfl⟩ | hold
  · exact hpc
  · exact hs m q hold

/-- A release changes only what is outstanding. -/
theorem giveBack_snd (shown : ActObs) (s : ActivityWorld) (objs : Option (List Obj)) :
    (giveBack shown s objs).2 =
      { s with outstanding := (giveBack shown s objs).2.outstanding } := by
  unfold giveBack
  split
  · rfl
  · split <;> rfl

/-- A release shows only what it released, or a fault. -/
theorem giveBack_fst (shown : ActObs) (s : ActivityWorld) (objs : Option (List Obj)) :
    (giveBack shown s objs).1 = { shown with
      gave := (giveBack shown s objs).1.gave
      fault := (giveBack shown s objs).1.fault } := by
  unfold giveBack
  split
  · rfl
  · split <;> rfl

/-- Handling a message changes only what is outstanding and whether the loop was
told to exit. -/
theorem handleMsg_snd (handler : Bool) (s : ActivityWorld) (msg : ActMsg) :
    (handleMsg handler s msg).2 = { s with
      exited := s.exited || msg.type.toUInt32.toInt32 = ACTIVITY_MSG_STOP
      outstanding := (handleMsg handler s msg).2.outstanding } :=
  giveBack_snd _ _ (handleReleases s.items msg)

/-- Handling a message shows the message and no return. -/
theorem handleMsg_fst (handler : Bool) (s : ActivityWorld) (msg : ActMsg) :
    (handleMsg handler s msg).1 = { quiet s with
      handled := some msg
      called := handlerCall handler s.items msg
      gave := (handleMsg handler s msg).1.gave
      fault := (handleMsg handler s msg).1.fault } :=
  giveBack_fst _ _ (handleReleases s.items msg)

/-- Every step keeps what the calls carry. -/
theorem callShapes_step {a : ActivityAct} (hmove : ActMove handler s a o s')
    (hguard : plainMsgs s a) (hs : CallShapes s) : CallShapes s' := by
  cases hmove with
  | refuse c rc hrc => exact CallShapes.snoc hs trivial
  | enter c pc hpc => exact CallShapes.snoc hs (callShape_enters hpc hguard)
  | sendCopy n a c hpc hfresh =>
    have hshape := hs n _ hpc
    exact CallShapes.set hs ⟨hshape.1, by simp [hshape.2]⟩
  | execItem n a i hpc hfresh =>
    refine CallShapes.set hs ?_
    split
    · assumption
    · rename_i hsize
      simp [CallShape, hsize]
  | execNoCopy n a i hpc => exact CallShapes.set hs (by simp [CallShape, ENOMEM])
  | execCopy n a i c hpc hfresh =>
    have hsize : a.argSize ≠ 0 := hs n _ hpc
    exact CallShapes.set hs (by simp [CallShape, hsize])
  | execRefused n a i newArg rc elem hpc hrc =>
    have hshape := hs n _ hpc
    refine CallShapes.set hs ?_
    split
    · rename_i hsize
      simp only [CallShape, if_pos hsize] at hshape
      exact ⟨hrc, hshape⟩
    · exact hrc
  | sendRefusedFree | freeItem =>
    rw [giveBack_snd]
    exact CallShapes.set hs trivial
  | freeArg n a i newArg rc hpc =>
    rw [giveBack_snd]
    exact CallShapes.set hs (hs n _ hpc).1
  | handle =>
    rw [handleMsg_snd]
    exact hs
  | stopAccepted n waitFinish e hpc hstate hfresh =>
    refine CallShapes.set hs ?_
    split <;> trivial
  | workerStart w hpc => exact hs
  | drained w hpc hqueue => exact hs
  | dequeue w msg queue hpc hqueue => exact hs
  | workerEnd w hpc => exact hs
  | pollBack w hpc hexited => exact hs
  | pollCall w hpc => exact hs
  | _ => exact CallShapes.set hs trivial

end Ctools.Analysis
