import Ctools.Analysis.ActivityLife

/-!
# Every accepted message is handled once, in order

The client's messages in the hand of the worker and in the queue are those
accepted and not handled yet (`pipeline`).  A step that accepts a message puts it
at the end, one that handles a message takes it from the front (`pipeline_step`),
so after any run what was accepted is what was handled and the pipeline.  A
stopped activity has an empty pipeline by its phase.
-/

set_option autoImplicit false

namespace Ctools.Analysis

open Ctools.Library Ctools.Program Ctools.Interface

/-- The client's messages on their way to the handler. -/
def pipeline (s : ActivityWorld) : List ActMsg :=
  (hands s).filter IsClient ++ s.queue.filter IsClient

variable {handler : Bool} {s s' : ActivityWorld} {o : ActObs}

/-- Only the worker that has not ended has something in its hand. -/
theorem hands_of_alone {workers : List WorkerPc} {w : ℕ} (h : Alone workers w) :
    workers.flatMap held = held (pcAt workers w) := by
  induction workers generalizing w with
  | nil => rfl
  | cons first workers ih =>
    rw [List.flatMap_cons]
    cases w with
    | zero =>
      have hrest : AllEnded workers := fun v => h (v + 1) (Nat.succ_ne_zero v)
      have hnone : workers.flatMap held = [] := by rw [ih (w := 0) fun v _ => hrest v, hrest 0]; rfl
      rw [hnone, List.append_nil]
      rfl
    | succ w =>
      have hfirst : first = .ended := h 0 (Nat.succ_ne_zero w).symm
      have hrest : Alone workers w := fun v hv => h (v + 1) (by omega)
      rw [ih hrest, hfirst]
      rfl

/-- The worker that is alive is the one whose hand counts, before and after it
moves. -/
theorem Life.hands_eq (h : Life s) {w : ℕ} {pc : WorkerPc} (hpc : s.workers[w]? = some pc)
    (hlive : pc ≠ .ended) (pc' : WorkerPc) :
    hands s = held pc ∧ (s.workers.set w pc').flatMap held = held pc' := by
  have halone := (h.worker hpc hlive).1
  refine ⟨?_, ?_⟩
  · rw [hands, hands_of_alone halone, pcAt_eq hpc]
  · rw [hands_of_alone (halone.set pc'), pcAt_set hpc]

/-- A stopped activity has no message. -/
theorem Life.stopped (h : Life s) (hstop : s.state = .stop) : hands s = [] ∧ s.queue = [] := by
  obtain ⟨w, halone, hphase⟩ := h.phase
  rw [hstop] at hphase
  obtain ⟨hqueue, hpc⟩ := hphase.of_stop
  refine ⟨?_, hqueue⟩
  rw [hands, hands_of_alone halone]
  generalize pcAt s.workers w = pc at hpc
  rcases hpc with rfl | hidle
  · rfl
  · cases pc <;> first | rfl | exact hidle.elim

/-- A step that is not a step of the worker leaves the hands alone. -/
theorem pipeline_enqueued {msg : ActMsg} (hmsg : IsClient msg) (hhands : hands s' = hands s)
    (hqueue : s'.queue = s.queue ++ [msg]) : pipeline s ++ [msg] = pipeline s' := by
  rw [pipeline, pipeline, hhands, hqueue, List.filter_append, List.append_assoc]
  simp [hmsg]

/-- A step of the worker, by what it has in its hand before and after. -/
theorem pipeline_worker (h : Life s) {w : ℕ} {pc : WorkerPc} (hpc : s.workers[w]? = some pc)
    (hlive : pc ≠ .ended) (pc' : WorkerPc) (hworkers : s'.workers = s.workers.set w pc')
    (done : List ActMsg)
    (hmoved : (held pc ++ s.queue).filter IsClient =
      done ++ (held pc' ++ s'.queue).filter IsClient) :
    pipeline s ++ [] = done ++ pipeline s' := by
  obtain ⟨hbefore, hafter⟩ := h.hands_eq hpc hlive pc'
  have hhands : hands s' = held pc' := by rw [hands, hworkers, hafter]
  rw [List.append_nil, pipeline, pipeline, hbefore, hhands, ← List.filter_append,
    ← List.filter_append, hmoved]

/-- A call that returns an error accepts nothing. -/
theorem accepts_of_error {c : ActivityCall} {rc : ℤ} (hret : o.ret = some (c, rc)) (hrc : rc ≠ 0) :
    accepts o = [] := by
  rw [accepts, hret]
  cases c <;> simp [hrc]

/-- A step that neither accepts nor handles a message. -/
theorem pipeline_quiet (haccepts : accepts o = []) (hhandles : handles o = [] := by rfl)
    (hsame : pipeline s' = pipeline s := by rfl) :
    pipeline s ++ accepts o = handles o ++ pipeline s' := by
  rw [haccepts, hhandles, hsame, List.append_nil, List.nil_append]

/-- **A step of an activity** takes handled messages from the front of the pipeline
and puts accepted ones at its end. -/
theorem pipeline_step {a : ActivityAct} (hmove : ActMove handler s a o s') (hshape : CallShapes s)
    (h : Life s) : pipeline s ++ accepts o = handles o ++ pipeline s' := by
  cases hmove with
  | refuse c rc hrc => exact pipeline_quiet (accepts_of_error rfl hrc)
  | enter | execItem | execNoCopy | execCopy | sendCopy | sendNoCopy | execNoItem | execRefused
  | runLock | runBack | runNotCreated | runCheck | runInit | runEventInit | runStarted
  | joinRead | joinDone
  | stopRefused =>
    exact pipeline_quiet rfl
  | sendRefused n a arg rc elem hpc hrc hsize => exact pipeline_quiet (accepts_of_error rfl hrc)
  | sendRefusedFree n a arg rc elem hpc hrc hsize =>
    rw [giveBack_fst, giveBack_snd]
    exact pipeline_quiet (accepts_of_error rfl hrc)
  | freeArg =>
    rw [giveBack_fst, giveBack_snd]
    exact pipeline_quiet rfl
  | freeItem n a i rc hpc =>
    rw [giveBack_fst, giveBack_snd]
    exact pipeline_quiet (accepts_of_error rfl (hshape n _ hpc))
  | sendAccepted n a arg e hpc hrun hfresh =>
    exact pipeline_enqueued (isClient_sendMsg (hshape n _ hpc).1 arg e) rfl rfl
  | execAccepted n a i newArg e hpc hrun hfresh =>
    exact pipeline_enqueued (isClient_execMsg i e) rfl rfl
  | stopAccepted n waitFinish e hpc hrun hfresh =>
    -- the stop message is no client's message
    refine pipeline_quiet ?_ rfl ?_
    · cases waitFinish <;> rfl
    · simp [pipeline, hands, enqueued, ActivityWorld.setCall, not_isClient_stopMsg]
  | runCreate n hpc =>
    refine pipeline_quiet rfl rfl ?_
    simp [pipeline, hands, ActivityWorld.setCall, held]
  | workerStart w hpc => exact pipeline_worker h hpc (by simp) .polling rfl [] rfl
  | drained w hpc hqueue => exact pipeline_worker h hpc (by simp) .polling rfl [] rfl
  | dequeue w msg queue hpc hqueue =>
    exact pipeline_worker h hpc (by simp) (.holding msg) rfl []
      (by simp [hqueue, held, ActivityWorld.setWorker])
  | handle w msg hpc =>
    rw [handleMsg_fst, handleMsg_snd]
    refine pipeline_worker h hpc (by simp) .draining rfl _ ?_
    simp only [held, handles, List.nil_append, List.singleton_append, Option.toList_some]
    exact List.filter_append [msg] s.queue
  | workerEnd w hpc => exact pipeline_worker h hpc (by simp) .ended rfl [] rfl
  | pollBack w hpc hexited => exact pipeline_worker h hpc (by simp) .leaving rfl [] rfl
  | pollCall w hpc => exact pipeline_worker h hpc (by simp) .draining rfl [] rfl

/-- Nothing is appended and no call returns. -/
theorem answers_of_silent (henq : o.enqueued = none := by rfl) (hret : o.ret = none := by rfl) :
    Answers o where
  enqueued_run msg hmsg := by rw [henq] at hmsg; cases hmsg
  accepted_msg c rc hc := by rw [hret] at hc; cases hc
  msg_accepted msg hmsg := by rw [henq] at hmsg; cases hmsg

/-- A call returns without a message, and with an error if it is to send one. -/
theorem answers_of_error {c : ActivityCall} {rc : ℤ} (hrc : IsSender c → rc ≠ 0)
    (henq : o.enqueued = none := by rfl) (hret : o.ret = some (c, rc) := by rfl) : Answers o where
  enqueued_run msg hmsg := by rw [henq] at hmsg; cases hmsg
  accepted_msg c' rc' hc hsender := by
    rw [hret] at hc
    cases hc
    simp [henq, hrc hsender]
  msg_accepted msg hmsg := by rw [henq] at hmsg; cases hmsg

/-- A call returns with 0, and its message is appended. -/
theorem answers_of_accepted {c : ActivityCall} {msg : ActMsg} (hrun : o.before = .run)
    (henq : o.enqueued = some msg) (hret : o.ret = some (c, 0)) (hmsg : MsgOf c msg) :
    Answers o where
  enqueued_run _ _ := hrun
  accepted_msg c' rc hc _ := by
    rw [hret] at hc
    cases hc
    exact ⟨fun _ => ⟨msg, henq, hmsg⟩, fun _ => rfl⟩
  msg_accepted msg' hmsg' _ := by
    rw [henq] at hmsg'
    cases hmsg'
    exact ⟨c, hret, hmsg⟩

/-- Every step answers as its call is told. -/
theorem answers_step {a : ActivityAct} (hmove : ActMove handler s a o s') (hshape : CallShapes s) :
    Answers o := by
  cases hmove with
  | refuse c rc hrc => exact answers_of_error fun _ => hrc
  | sendNoCopy | execNoItem =>
    have hrc : -ENOMEM ≠ (0 : ℤ) := by decide
    exact answers_of_error fun _ => hrc
  | sendRefused n a arg rc elem hpc hrc hsize => exact answers_of_error fun _ => hrc
  | sendRefusedFree n a arg rc elem hpc hrc hsize =>
    rw [giveBack_fst]
    exact answers_of_error fun _ => hrc
  | freeItem n a i rc hpc =>
    rw [giveBack_fst]
    exact answers_of_error fun _ => hshape n _ hpc
  | sendAccepted n a arg e hpc hrun hfresh =>
    have hrange : IsPlain a.msg := (hshape n _ hpc).1
    exact answers_of_accepted hrun rfl rfl
      ⟨type_of_isPlain hrange arg e, isClient_sendMsg hrange arg e⟩
  | execAccepted n a i newArg e hpc hrun hfresh =>
    exact answers_of_accepted hrun rfl rfl ⟨rfl, isClient_execMsg i e⟩
  | stopAccepted n waitFinish e hpc hrun hfresh =>
    refine ⟨fun _ _ => hrun, fun c rc hret hsender => ?_, fun msg hmsg hclient => ?_⟩
    · cases waitFinish <;> cases hret
      exact hsender.elim
    · cases hmsg
      exact absurd hclient (not_isClient_stopMsg e)
  | stopRefused | runBack | runNotCreated | runStarted | joinDone =>
      exact answers_of_error False.elim
  | freeArg =>
    rw [giveBack_fst]
    exact answers_of_silent
  | handle =>
    rw [handleMsg_fst]
    exact answers_of_silent
  | _ => exact answers_of_silent

/-- What holds between two steps of an activity whose clients keep to their
messages. -/
structure Living (s : ActivityWorld) : Prop where
  shape : CallShapes s
  life : Life s

/-- An activity that was never run. -/
theorem living_start : Living activityStart where
  shape n pc hpc := by cases hpc
  life := life_start

/-- **A step of an activity** keeps what is known of it. -/
theorem living_step {a : ActivityAct} (h : Living s) (hguard : plainMsgs s a)
    (hmove : ActMove handler s a o s') : Living s' where
  shape := callShapes_step hmove hguard h.shape
  life := life_step hmove h.shape h.life

/-- What was accepted is what was handled, and then the pipeline. -/
theorem accepted_eq {h : List (ActivityAct × ActObs)}
    (hrun : (activityMachine handler).Run plainMsgs activityStart h s) :
    Living s ∧ accepted h = handled h ++ pipeline s := by
  refine hrun.invariant (fun h s => Living s ∧ accepted h = handled h ++ pipeline s)
    ⟨living_start, rfl⟩ ?_
  rintro h s a o s' ⟨hliving, heq⟩ hguard hstep
  have hmove := actMove_of_step hstep
  refine ⟨living_step hliving hguard hmove, ?_⟩
  have hpipeline := pipeline_step hmove hliving.shape hliving.life
  calc accepted (h ++ [(a, o)])
      = accepted h ++ accepts o := by simp [accepted]
    _ = handled h ++ (pipeline s ++ accepts o) := by rw [heq, List.append_assoc]
    _ = (handled h ++ handles o) ++ pipeline s' := by rw [hpipeline, List.append_assoc]
    _ = handled (h ++ [(a, o)]) ++ pipeline s' := by simp [handled]

/-- One message at most is in the hands of the workers. -/
theorem Life.hands_length (h : Life s) : (hands s).length ≤ 1 := by
  obtain ⟨w, halone, -⟩ := h.phase
  rw [hands, hands_of_alone halone]
  cases pcAt s.workers w <;> simp [held]

end Ctools.Analysis
