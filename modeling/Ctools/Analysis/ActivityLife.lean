import Ctools.Analysis.ActivityTurns

/-!
# The life of an activity

At any time one worker thread at most has not ended, and `Phase` says what it may
be doing under each state of the activity: a stop message is in the queue or in
its hand exactly from the change to `ACTIVITY_STATE_PENDING_STOP` to `uev_exit`,
and it is the last message.  `Life` adds what the calls of `activity_run` rely on,
which is their turn and that a worker they have just started is alive.
-/

set_option autoImplicit false

namespace Ctools.Analysis

open Ctools.Library Ctools.Program Ctools.Interface

/-- `msg->type` keeps what fits in 16 bits.
SOURCE: activity.c:50 -/
theorem type_of_isPlain {a : SendArgs} (h : IsPlain a.msg) (arg : Ptr) (e : ℕ) :
    (sendMsg a arg e).type.toUInt32.toInt32 = a.msg := by
  obtain ⟨hlow, hhigh, -⟩ := h
  have hlow' : (0 : ℤ) ≤ a.msg.toInt := Int32.le_iff_toInt_le.mp hlow
  have hhigh' : a.msg.toInt ≤ 65535 := Int32.le_iff_toInt_le.mp hhigh
  have hnat : (a.msg.toUInt32.toNat : ℤ) = a.msg.toInt := by
    have hbits : a.msg.toInt = a.msg.toBitVec.toInt := rfl
    have hword : a.msg.toUInt32.toNat = a.msg.toBitVec.toNat := rfl
    rw [BitVec.toInt_eq_toNat_cond] at hbits
    split at hbits <;> omega
  have hround : a.msg.toUInt32.toUInt16.toUInt32 = a.msg.toUInt32 := by
    apply UInt32.toNat_inj.mp
    rw [UInt16.toNat_toUInt32, UInt32.toNat_toUInt16]
    omega
  simp only [sendMsg, hround]
  rfl

/-- What `activity_msg_send` enqueues for a type in range is a client's message. -/
theorem isClient_sendMsg {a : SendArgs} (h : IsPlain a.msg) (arg : Ptr) (e : ℕ) :
    IsClient (sendMsg a arg e) := by
  intro hstop
  exact h.2.2.1 ((type_of_isPlain h arg e).symm.trans hstop)

/-- What `activity_exec` enqueues is a client's message. -/
theorem isClient_execMsg (i e : ℕ) : IsClient (execMsg i e) := by
  simp [IsClient, execMsg, ACTIVITY_MSG_STOP]

/-- What `activity_stop` enqueues is none. -/
theorem not_isClient_stopMsg (e : ℕ) : ¬ IsClient (stopMsg e) := fun h => h rfl

/-! ## The phases -/

/-- What a worker does before the first message. -/
def Idle : WorkerPc → Prop
  | .starting | .polling | .draining => True
  | _ => False

/-- What a worker does before it is told to exit. -/
def Serving : WorkerPc → Prop
  | .starting | .polling | .draining => True
  | .holding msg => IsClient msg
  | _ => False

/-- What a worker does once it was told to exit. -/
def Exiting : WorkerPc → Prop
  | .draining | .polling | .leaving => True
  | _ => False

/-- The state, whether `uev_exit` was called, the queue, and where the only worker
that may not have ended is. -/
inductive Phase : ActivityState → Bool → List ActMsg → WorkerPc → Prop
  | stopped (exited : Bool) : Phase .stop exited [] .ended
  | starting (pc : WorkerPc) (hidle : Idle pc) : Phase .stop false [] pc
  | running (queue : List ActMsg) (pc : WorkerPc) (hserving : Serving pc)
      (hclient : ∀ msg ∈ queue, IsClient msg) : Phase .run false queue pc
  | pending (queue : List ActMsg) (e : ℕ) (pc : WorkerPc) (hserving : Serving pc)
      (hclient : ∀ msg ∈ queue, IsClient msg) :
      Phase .pendingStop false (queue ++ [stopMsg e]) pc
  | stopping (e : ℕ) : Phase .pendingStop false [] (.holding (stopMsg e))
  | exiting (pc : WorkerPc) (hexiting : Exiting pc) : Phase .pendingStop true [] pc

section Phase

variable {state : ActivityState} {exited : Bool} {queue : List ActMsg} {pc : WorkerPc}

/-- The worker goes on without a message. -/
theorem Phase.goto {pc' : WorkerPc} (h : Phase state exited queue pc) (hidle : Idle pc)
    (hidle' : Idle pc') (hexiting : Exiting pc → Exiting pc') : Phase state exited queue pc' := by
  have hserving : Serving pc' := by cases pc' <;> trivial
  cases h with
  | stopped => exact hidle.elim
  | starting => exact .starting pc' hidle'
  | running _ _ _ hclient => exact .running queue pc' hserving hclient
  | pending queue e _ _ hclient => exact .pending queue e pc' hserving hclient
  | stopping e => exact hidle.elim
  | exiting _ hpc => exact .exiting pc' (hexiting hpc)

/-- The worker takes the first message. -/
theorem Phase.dequeue {msg : ActMsg} (h : Phase state exited (msg :: queue) .draining) :
    Phase state exited queue (.holding msg) := by
  generalize hqueue : msg :: queue = whole at h
  cases h with
  | starting | exiting => cases hqueue
  | running _ _ _ hclient =>
    subst hqueue
    exact .running queue _ (hclient msg (by simp)) (fun m hm => hclient m (by simp [hm]))
  | pending front e _ _ hclient =>
    -- the stop message is the last one: either it is the one taken, or it stays last
    cases front with
    | nil =>
      cases hqueue
      exact .stopping e
    | cons first front =>
      cases hqueue
      exact .pending front e _ (hclient msg (by simp)) (fun m hm => hclient m (by simp [hm]))

/-- The worker handles the message it holds; a stop makes it exit. -/
theorem Phase.handle {msg : ActMsg} (h : Phase state exited queue (.holding msg)) :
    Phase state (exited || msg.type.toUInt32.toInt32 = ACTIVITY_MSG_STOP) queue .draining := by
  cases h with
  | starting _ hidle => exact hidle.elim
  | running _ _ hserving hclient =>
    rw [decide_eq_false hserving]
    exact .running queue _ trivial hclient
  | pending queue e _ hserving hclient =>
    rw [decide_eq_false hserving]
    exact .pending queue e _ trivial hclient
  | stopping e => exact .exiting _ trivial
  | exiting _ hexiting => exact hexiting.elim

/-- `uev_run` returns behind `uev_exit`. -/
theorem Phase.back (h : Phase state true queue .polling) : Phase state true queue .leaving := by
  cases h with
  | exiting => exact .exiting _ trivial

/-- The worker ends in `ACT_PENDING_STOP` and leaves `ACT_STOP` behind. -/
theorem Phase.finish (h : Phase state exited queue .leaving) :
    state = .pendingStop ∧ Phase .stop exited queue .ended := by
  cases h with
  | starting _ hidle => exact hidle.elim
  | running _ _ hserving => exact hserving.elim
  | pending _ _ _ hserving => exact hserving.elim
  | exiting => exact ⟨rfl, .stopped _⟩

/-- A client's message is put behind the others. -/
theorem Phase.enqueue (h : Phase .run exited queue pc) {msg : ActMsg} (hmsg : IsClient msg) :
    Phase .run exited (queue ++ [msg]) pc := by
  cases h with
  | running _ _ hserving hclient =>
    refine .running _ _ hserving fun m hm => ?_
    rcases List.mem_append.mp hm with hin | hlast
    · exact hclient m hin
    · rw [List.mem_singleton.mp hlast]
      exact hmsg

/-- The stop message is put behind the others, and `ACT_PENDING_STOP` entered. -/
theorem Phase.stop (h : Phase .run exited queue pc) (e : ℕ) :
    Phase .pendingStop exited (queue ++ [stopMsg e]) pc := by
  cases h with
  | running _ _ hserving hclient => exact .pending queue e pc hserving hclient

/-- A started worker enters `ACT_RUN`. -/
theorem Phase.run (h : Phase .stop exited queue pc) (hlive : pc ≠ .ended) :
    Phase .run exited queue pc := by
  cases h with
  | stopped => exact absurd rfl hlive
  | starting _ hidle =>
    have hserving : Serving pc := by cases pc <;> trivial
    exact .running [] pc hserving (by simp)

/-- Outside `ACT_STOP` the worker has not ended. -/
theorem Phase.live (h : Phase state exited queue pc) (hstate : state ≠ .stop) : pc ≠ .ended := by
  rintro rfl
  cases h with
  | stopped | starting => exact hstate rfl
  | running _ _ hserving => exact hserving
  | pending _ _ _ hserving => exact hserving
  | exiting _ hexiting => exact hexiting

/-- In `ACT_STOP` the queue is empty, and the worker has ended or handled nothing yet. -/
theorem Phase.of_stop (h : Phase .stop exited queue pc) : queue = [] ∧ (pc = .ended ∨ Idle pc) := by
  cases h with
  | stopped => exact ⟨rfl, .inl rfl⟩
  | starting _ hidle => exact ⟨rfl, .inr hidle⟩

end Phase

/-! ## The invariant -/

/-- What a call of `activity_run` relies on between its check and its end. -/
def Sees (s : ActivityWorld) : CallPc → Prop
  | .runInit => Rests s
  | .runEventInit | .runCreate => Rests s ∧ s.exited = false
  | .runStarted => s.state = .stop ∧ ¬ AllEnded s.workers
  | _ => True

/-- The worker that may not have ended, and what it does. -/
def InPhase (s : ActivityWorld) : Prop :=
  ∃ w, Alone s.workers w ∧ Phase s.state s.exited s.queue (pcAt s.workers w)

/-- The life of an activity: the phase of its only live worker, the holder of
`act_manager_lock`, what each call has seen, and that a worker under `ACT_STOP` was just
started. -/
structure Life (s : ActivityWorld) : Prop where
  phase : InPhase s
  managed : ∀ (n : ℕ) (pc : CallPc), s.calls[n]? = some pc → Manages pc → s.manager = some n
  sees : ∀ (n : ℕ) (pc : CallPc), s.calls[n]? = some pc → Sees s pc
  started : s.state = .stop → ¬ AllEnded s.workers → ∃ n : ℕ, s.calls[n]? = some .runStarted

variable {handler : Bool} {s s' : ActivityWorld} {o : ActObs}

/-- A registered activity that was not started. -/
theorem life_start : Life activityStart where
  phase := ⟨0, fun _ _ => rfl, .stopped _⟩
  managed n pc hpc := by cases hpc
  sees n pc hpc := by cases hpc
  started _ hlive := absurd (fun _ => rfl) hlive

/-- A live worker is the only one, and the phase is its phase. -/
theorem Life.worker (h : Life s) {w : ℕ} {pc : WorkerPc} (hpc : s.workers[w]? = some pc)
    (hlive : pc ≠ .ended) : Alone s.workers w ∧ Phase s.state s.exited s.queue pc := by
  obtain ⟨v, halone, hphase⟩ := h.phase
  obtain rfl := halone.eq hpc hlive
  rw [pcAt_eq hpc] at hphase
  exact ⟨halone, hphase⟩

/-- A stopped activity has nothing in its queue. -/
theorem Life.queue_nil (h : Life s) (hstop : s.state = .stop) : s.queue = [] := by
  obtain ⟨w, -, hphase⟩ := h.phase
  rw [hstop] at hphase
  exact hphase.of_stop.1

/-- The turns of an activity, whose phase adds what the messages are to them. -/
theorem Life.turns (h : Life s) : Turns s where
  alone := by
    obtain ⟨w, halone, -⟩ := h.phase
    exact ⟨w, halone⟩
  managed := h.managed
  turn n pc hpc := by
    have hsees := h.sees n pc hpc
    cases pc with
    | runStarted => exact hsees.1
    | _ => exact hsees
  started := h.started

/-- What a call sees is what its turn says, and the worker it has started. -/
theorem sees_of_turn {pc : CallPc} (h : Turn s pc)
    (hlive : pc = .runStarted → ¬ AllEnded s.workers) :
    Sees s pc := by
  cases pc with
  | runStarted => exact ⟨h, hlive rfl⟩
  | _ => exact h

/-- The call that has started a worker finds it alive. -/
def StartsLive (s : ActivityWorld) : Prop :=
  ∀ n : ℕ, s.calls[n]? = some .runStarted → ¬ AllEnded s.workers

/-- A call that is about to enter `ACT_RUN` has a live worker. -/
theorem Life.startsLive (h : Life s) : StartsLive s := fun n hn => (h.sees n _ hn).2

/-- The phase of an activity at rest. -/
theorem Life.phase_of_rests (h : Life s) (hrests : Rests s) (exited : Bool) :
    InPhase { s with exited := exited } := by
  refine ⟨0, fun v _ => hrests.2 v, ?_⟩
  simp only [hrests.1, hrests.2 0, h.queue_nil hrests.1]
  exact .stopped exited

/-- A message is enqueued while the activity runs.
SOURCE: activity.c:330-337 -/
theorem inPhase_enqueued (h : Life s) (hrun : s.state = .run) {msg : ActMsg}
    (hmsg : IsClient msg) : InPhase (enqueued s msg) := by
  obtain ⟨w, halone, hphase⟩ := h.phase
  rw [hrun] at hphase
  exact ⟨w, halone, hrun.symm ▸ hphase.enqueue hmsg⟩

/-- `pthread_create` starts a worker of an activity at rest.
SOURCE: activity.c:206 -/
theorem inPhase_runCreate (h : Life s) {n : ℕ} (hpc : s.calls[n]? = some .runCreate) :
    InPhase ({ s with
      workers := s.workers ++ [WorkerPc.starting]
      thread := some s.workers.length }.setCall n .runStarted) := by
  obtain ⟨⟨hstop, hended⟩, hexited⟩ := h.sees n _ hpc
  obtain ⟨halone, hat⟩ := hended.snoc .starting
  refine ⟨s.workers.length, halone, ?_⟩
  simp only [ActivityWorld.setCall, hat, hstop, hexited, h.queue_nil hstop]
  exact .starting _ trivial

/-- The worker that is alive goes from `pc` to `pc'`. -/
theorem Life.workerPhase (h : Life s) {w : ℕ} {pc pc' : WorkerPc} (hpc : s.workers[w]? = some pc)
    (hlive : pc ≠ .ended) (hworkers : s'.workers = s.workers.set w pc')
    (hphase : Phase s.state s.exited s.queue pc → Phase s'.state s'.exited s'.queue pc') :
    InPhase s' := by
  obtain ⟨halone, hold⟩ := h.worker hpc hlive
  refine ⟨w, ?_, ?_⟩
  · rw [hworkers]
    exact halone.set pc'
  · rw [hworkers, pcAt_set hpc]
    exact hphase hold

/-- Every step keeps the phase. -/
theorem inPhase_step {a : ActivityAct} (hmove : ActMove handler s a o s') (hshape : CallShapes s)
    (h : Life s) : InPhase s' := by
  cases hmove with
  | sendRefusedFree | freeArg | freeItem =>
    rw [giveBack_snd]
    exact h.phase
  | sendAccepted n a arg e hpc hrun hfresh =>
    exact inPhase_enqueued h hrun (isClient_sendMsg (hshape n _ hpc).1 arg e)
  | execAccepted n a i newArg e hpc hrun hfresh =>
    exact inPhase_enqueued h hrun (isClient_execMsg i e)
  | stopAccepted n waitFinish e hpc hrun hfresh =>
    obtain ⟨w, halone, hphase⟩ := h.phase
    rw [hrun] at hphase
    exact ⟨w, halone, hphase.stop e⟩
  | runBack n rc rc' pc exited hpc hwhere =>
    have hsees := h.sees n pc hpc
    rcases hwhere with ⟨-, rfl⟩ | ⟨-, rfl⟩ | ⟨rfl, -⟩
    · exact h.phase
    · exact h.phase
    · exact h.phase_of_rests hsees.1 exited
  | runNotCreated n rc hpc hrc => exact h.phase_of_rests (h.sees n _ hpc).1 true
  | runInit n rc hpc => exact h.phase_of_rests (h.sees n _ hpc) false
  | runCreate n hpc => exact inPhase_runCreate h hpc
  | runStarted n rc hpc =>
    obtain ⟨hstop, hlive⟩ := h.sees n _ hpc
    obtain ⟨w, halone, hphase⟩ := h.phase
    rw [hstop] at hphase
    exact ⟨w, halone, hphase.run fun hended => hlive (allEnded_of_ended halone hended)⟩
  | workerStart w hpc =>
    exact h.workerPhase hpc (by simp) rfl fun hphase =>
      hphase.goto trivial trivial fun hf => hf.elim
  | drained w hpc hqueue =>
    exact h.workerPhase hpc (by simp) rfl fun hphase => hphase.goto trivial trivial id
  | dequeue w msg queue hpc hqueue =>
    refine h.workerPhase hpc (by simp) rfl fun hphase => ?_
    rw [hqueue] at hphase
    exact hphase.dequeue
  | handle w msg hpc =>
    rw [handleMsg_snd]
    exact h.workerPhase hpc (by simp) rfl fun hphase => hphase.handle
  | workerEnd w hpc => exact h.workerPhase hpc (by simp) rfl fun hphase => hphase.finish.2
  | pollBack w hpc hexited =>
    refine h.workerPhase hpc (by simp) rfl fun hphase => ?_
    rw [hexited] at hphase
    exact hexited.symm ▸ hphase.back
  | pollCall w hpc =>
    exact h.workerPhase hpc (by simp) rfl fun hphase => hphase.goto trivial trivial id
  | _ => exact h.phase

/-- A call moves, and has not just started a worker. -/
theorem StartsLive.set (h : StartsLive s) {n : ℕ} {pc' : CallPc} (hpc' : pc' ≠ .runStarted)
    (hcalls : s'.calls = s.calls.set n pc') (hworkers : s'.workers = s.workers) :
    StartsLive s' := by
  intro m hm
  rw [hcalls] at hm
  rw [hworkers]
  rcases getElem?_set_cases hm with ⟨-, heq⟩ | ⟨-, hold⟩
  · exact absurd heq.symm hpc'
  · exact h m hold

/-- A call starts. -/
theorem StartsLive.snoc (h : StartsLive s) {pc : CallPc} (hpc : pc ≠ .runStarted) :
    StartsLive { s with calls := s.calls ++ [pc] } := by
  intro m hm
  rcases getElem?_snoc_cases hm with ⟨-, heq⟩ | hold
  · exact absurd heq.symm hpc
  · exact h m hold

/-- A worker that goes on is alive. -/
theorem startsLive_worker {w : ℕ} {pc : WorkerPc} (pc' : WorkerPc)
    (hpc : s.workers[w]? = some pc) (hlive : pc' ≠ .ended)
    (hworkers : s'.workers = s.workers.set w pc') : StartsLive s' := by
  intro m hm hall
  have hw := hall w
  rw [hworkers, pcAt_set hpc] at hw
  exact hlive hw

/-- Every step keeps alive the worker that a call has just started. -/
theorem startsLive_step {a : ActivityAct} (hmove : ActMove handler s a o s') (h : Life s) :
    StartsLive s' := by
  have hlive := h.startsLive
  cases hmove with
  | refuse c rc hrc => exact hlive.snoc (by simp)
  | enter c pc hpc =>
    have hne : pc ≠ .runStarted := by cases hpc <;> simp
    exact hlive.snoc hne
  | execItem | execRefused | stopAccepted =>
    refine hlive.set ?_ rfl rfl
    split <;> simp
  | sendRefusedFree | freeArg | freeItem =>
    rw [giveBack_snd]
    exact hlive.set (by simp) rfl rfl
  | runCreate n hpc =>
    intro m hm hall
    have hlast := hall s.workers.length
    rw [ActivityWorld.setCall, (AllEnded.snoc (h.sees n _ hpc).1.2 .starting).2] at hlast
    cases hlast
  | workerStart w hpc => exact startsLive_worker .polling hpc (by simp) rfl
  | drained w hpc hqueue => exact startsLive_worker .polling hpc (by simp) rfl
  | dequeue w msg queue hpc hqueue => exact startsLive_worker (.holding msg) hpc (by simp) rfl
  | handle w msg hpc =>
    rw [handleMsg_snd]
    exact startsLive_worker .draining hpc (by simp) rfl
  | workerEnd w hpc =>
    -- the activity is to stop, so no call has just started a worker
    intro m hm
    have hpending := (h.worker hpc (by simp)).2.finish.1
    rw [(h.sees m _ hm).1] at hpending
    cases hpending
  | pollBack w hpc hexited => exact startsLive_worker .leaving hpc (by simp) rfl
  | pollCall w hpc => exact startsLive_worker .draining hpc (by simp) rfl
  | _ => exact hlive.set (by simp) rfl rfl

/-- Every step keeps the life of the activity. -/
theorem life_step {a : ActivityAct} (hmove : ActMove handler s a o s') (hshape : CallShapes s)
    (h : Life s) : Life s' := by
  have hturns := turns_step hmove h.turns
  have hlive := startsLive_step hmove h
  refine ⟨inPhase_step hmove hshape h, hturns.managed, ?_, hturns.started⟩
  intro n pc hpc
  refine sees_of_turn (hturns.turn n pc hpc) ?_
  rintro rfl
  exact hlive n hpc

end Ctools.Analysis
