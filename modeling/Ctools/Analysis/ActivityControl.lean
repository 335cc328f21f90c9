import Ctools.Analysis.ActivityFifo

/-!
# Which messages are taken for control messages

`activity_msg_send` checks the upper end of `msg` only and stores it in 16 bits, where
the worker looks for `ACTIVITY_MSG_STOP` and `ACTIVITY_MSG_EXEC` first.  So a message is
handled as what it is exactly if it is plain (`handledAs_iff`): a negative one is
handled as another one, and 1 and 2 go to the worker's own branches.  Where all
messages are plain, the worker is told to exit by `activity_stop` only: the message
that does so is the one that came with `ACTIVITY_STATE_PENDING_STOP`
(`Phase.handles_stop`).
-/

set_option autoImplicit false

namespace Ctools.Analysis

open Ctools.Library Ctools.Program Ctools.Interface

/-- The worker takes `arg` for an exec item.
SOURCE: activity.c:95-96 -/
def EntersExec (msg : ActMsg) : Prop := msg.type.toUInt32.toInt32 = ACTIVITY_MSG_EXEC

/-- The worker handles the message of a send as the value sent: it passes it to
`user_msg_handler` if it is one for it, does not take its argument for an exec item,
and does not call `uev_exit`. -/
structure HandledAs (handler : Bool) (a : SendArgs) (msg : ActMsg) : Prop where
  type_eq : msg.type.toUInt32.toInt32 = a.msg
  called : ∀ items, handlerCall handler items msg =
    if a.msg ≥ ACTIVITY_MSG_GENERAL ∧ handler then some (.user msg.type msg.arg) else none
  no_exec : ¬ EntersExec msg
  no_exit : ∀ s, (handleMsg handler s msg).2.exited = s.exited

/-- `msg->type` in an `int`. -/
theorem toInt_type (type : UInt16) : type.toUInt32.toInt32.toInt = type.toNat := by
  have hlt := type.toNat_lt
  have hword : type.toUInt32.toInt32.toBitVec.toNat = type.toNat := rfl
  have hbits : type.toUInt32.toInt32.toInt = type.toUInt32.toInt32.toBitVec.toInt := rfl
  rw [hbits, BitVec.toInt_eq_toNat_cond, hword]
  split <;> omega

/-- The message of a send is handled as what it is exactly if it is plain.
SOURCE: activity.c:42-58, activity.c:87-124, activity.c:307-339 -/
theorem handledAs_iff (handler : Bool) (a : SendArgs) (arg : Ptr) (e : ℕ) :
    HandledAs handler a (sendMsg a arg e) ↔ IsPlain a.msg := by
  constructor
  · intro h
    have hint := toInt_type (sendMsg a arg e).type
    have hlt := (sendMsg a arg e).type.toNat_lt
    rw [h.type_eq] at hint
    refine ⟨?_, ?_, ?_, ?_⟩
    · rw [Int32.le_iff_toInt_le, hint]
      exact Int.natCast_nonneg _
    · rw [Int32.le_iff_toInt_le, hint]
      have hmax : UINT16_MAX.toInt = 65535 := by decide
      omega
    · intro hstop
      have hexited : (activityStart.exited ||
          (sendMsg a arg e).type.toUInt32.toInt32 = ACTIVITY_MSG_STOP) = activityStart.exited := by
        have hsame := h.no_exit activityStart
        rwa [handleMsg_snd] at hsame
      rw [h.type_eq, hstop] at hexited
      exact absurd hexited (by decide)
    · intro hexec
      exact h.no_exec (h.type_eq.trans hexec)
  · intro h
    have htype := type_of_isPlain h arg e
    refine ⟨htype, ?_, ?_, ?_⟩
    · intro items
      rw [handlerCall, htype, if_neg h.2.2.1, if_neg h.2.2.2]
    · intro hexec
      exact h.2.2.2 (htype.symm.trans hexec)
    · intro s
      have hnever : decide (a.msg = ACTIVITY_MSG_STOP) = false := decide_eq_false h.2.2.1
      rw [handleMsg_snd, htype, hnever]
      exact Bool.or_false _

variable {handler : Bool} {s s' : ActivityWorld} {o : ActObs}

/-- A send that returns 0 is one that was enqueued.
SOURCE: activity.c:329-339 -/
theorem sendAccepted_of_ret {act : ActivityAct} {a : SendArgs} (hmove : ActMove handler s act o s')
    (hret : o.ret = some (.send a, 0)) :
    ∃ (n : ℕ) (arg : Ptr) (e : ℕ), s.calls[n]? = some (.sendLock a arg) ∧
      o.enqueued = some (sendMsg a arg e) := by
  cases hmove with
  | refuse c rc hrc =>
    cases hret
    exact absurd rfl hrc
  | sendNoCopy =>
    cases hret
  | sendRefused n a arg rc elem hpc hrc hsize =>
    cases hret
    exact absurd rfl hrc
  | sendRefusedFree n a arg rc elem hpc hrc hsize =>
    rw [giveBack_fst] at hret
    cases hret
    exact absurd rfl hrc
  | sendAccepted n a arg e hpc hrun hfresh =>
    cases hret
    exact ⟨n, arg, e, hpc, rfl⟩
  | stopAccepted n waitFinish =>
    cases waitFinish <;> cases hret
  | freeArg | freeItem =>
    rw [giveBack_fst] at hret
    cases hret
  | handle =>
    rw [handleMsg_fst] at hret
    cases hret
  | _ => cases hret

/-- A message that tells the loop to exit is handled after the change to
`ACTIVITY_STATE_PENDING_STOP`. -/
theorem Phase.handles_stop {state : ActivityState} {exited : Bool} {queue : List ActMsg}
    {msg : ActMsg} (h : Phase state exited queue (.holding msg)) (hstop : ¬ IsClient msg) :
    state = .pendingStop := by
  cases h with
  | starting _ hidle => exact hidle.elim
  | running _ _ hserving => exact absurd hserving hstop
  | pending => rfl
  | stopping => rfl
  | exiting _ hexiting => exact hexiting.elim

/-- A worker that was told to exit is one that was to stop. -/
theorem Phase.exited_pending {state : ActivityState} {queue : List ActMsg} {pc : WorkerPc}
    (h : Phase state true queue pc) (hlive : pc ≠ .ended) : state = .pendingStop := by
  cases h with
  | stopped => exact absurd rfl hlive
  | exiting => rfl

/-- A step keeps messages and control messages apart: a send that returns 0 has
enqueued a message that is handled as what it is, and `uev_exit` is called only in
`ACTIVITY_STATE_PENDING_STOP`. -/
structure KeepsApart (handler : Bool) (o : ActObs) : Prop where
  sent : ∀ a, o.ret = some (.send a, 0) →
    ∃ msg, o.enqueued = some msg ∧ accepts o = [msg] ∧ HandledAs handler a msg
  exits : ∀ msg, o.handled = some msg → ¬ IsClient msg → o.before = .pendingStop

/-- **A step of an activity** keeps control messages and those of clients apart. -/
theorem keepsApart_step {act : ActivityAct} (hliving : Living s)
    (hmove : ActMove handler s act o s') : KeepsApart handler o := by
  constructor
  · intro a hret
    obtain ⟨n, arg, e, hpc, henq⟩ := sendAccepted_of_ret hmove hret
    have hplain : IsPlain a.msg := (hliving.shape n _ hpc).1
    refine ⟨sendMsg a arg e, henq, ?_, (handledAs_iff handler a arg e).mpr hplain⟩
    rw [accepts, hret, henq]
    rfl
  · intro msg hhandled hstop
    cases hmove with
    | handle w msg' hpc =>
      rw [handleMsg_fst] at hhandled ⊢
      cases hhandled
      exact (hliving.life.worker hpc (by simp)).2.handles_stop hstop
    | sendRefusedFree | freeArg | freeItem =>
      rw [giveBack_fst] at hhandled
      cases hhandled
    | _ => cases hhandled

/-- Every step of a run with plain messages keeps them apart. -/
theorem keepsApart_of_run {h : List (ActivityAct × ActObs)}
    (hrun : (activityMachine handler).Run plainMsgs activityStart h s) :
    ∀ e ∈ h, KeepsApart handler e.2 := by
  refine (hrun.invariant_shows Living (KeepsApart handler) living_start ?_).2
  intro s a o s' hliving hguard hstep
  have hmove := actMove_of_step hstep
  exact ⟨living_step hliving hguard hmove, keepsApart_step hliving hmove⟩

end Ctools.Analysis

open Ctools.Library Ctools.Program Ctools.Interface Ctools.Analysis in
/-- **When a message is no control message.**  In every state, the message of an
`activity_msg_send` that returns 0 is handled as the value sent, without `uev_exit`
and without an exec item, if and only if that value is plain.  In every run whose
messages are plain, each is handled so, at its place in the order of their enqueue, and
the worker's loop is told to exit only once the state is `ACTIVITY_STATE_PENDING_STOP`,
to which `activity_set_pendding_exit` alone moves it.
SOURCE: activity.c:42-58, activity.c:87-124, activity.c:307-339 -/
theorem Ctools.Analysis.client_msg_kept_iff (handler : Bool) :
    (∀ s act o s' a, activityStep handler s act = some (o, s') → o.ret = some (.send a, 0) →
      ∃ msg, o.enqueued = some msg ∧ (HandledAs handler a msg ↔ IsPlain a.msg)) ∧
    ∀ h s, (activityMachine handler).Run plainMsgs activityStart h s →
      accepted h = handled h ++ (hands s).filter IsClient ++ s.queue.filter IsClient ∧
      (s.state = .stop → accepted h = handled h) ∧
      (∀ e ∈ h, KeepsApart handler e.2) ∧
      ∀ (w : ℕ) (pc : WorkerPc), s.workers[w]? = some pc → pc ≠ .ended → s.exited = true →
        s.state = .pendingStop := by
  constructor
  · intro s act o s' a hstep hret
    obtain ⟨n, arg, e, -, henq⟩ := sendAccepted_of_ret (actMove_of_step hstep) hret
    exact ⟨sendMsg a arg e, henq, handledAs_iff handler a arg e⟩
  · intro h s hrun
    obtain ⟨hliving, heq⟩ := accepted_eq hrun
    refine ⟨heq.trans (List.append_assoc _ _ _).symm, ?_, keepsApart_of_run hrun, ?_⟩
    · intro hstop
      obtain ⟨hhands, hqueue⟩ := hliving.life.stopped hstop
      rw [heq, pipeline, hhands, hqueue, List.filter_nil, List.append_nil, List.append_nil]
    · intro w pc hpc hlive hexited
      have hphase := (hliving.life.worker hpc hlive).2
      rw [hexited] at hphase
      exact hphase.exited_pending hlive

open Ctools.Library Ctools.Program Ctools.Interface Ctools.Analysis in
/-- A run that sends the plain messages 0, 3 and 50 and stops. -/
theorem Ctools.Analysis.client_msg_kept_stopped :
    ∃ h s, (activityMachine true).Run plainMsgs activityStart h s ∧ s.state = .stop ∧
      (accepted h).map (·.type) = [0, 3, 50] ∧ accepted h = handled h := by
  have hrun := Machine.run_of_execUnder (m := activityMachine true) plainMsgs activityStart
    [.call .run, .run 0 0, .run 0 0, .run 0 0, .run 0 0, .run 0 0, .run 0 0,
      .call (.send ⟨0, 7, 0, 0⟩), .locked 1 (some 0), .call (.send ⟨3, 7, 0, 0⟩),
      .locked 2 (some 1),
      .call (.send ⟨50, 8, 0, 0⟩), .locked 3 (some 2), .call (.stop false), .locked 4 (some 3),
      .worker 0, .poll 0 false, .worker 0, .worker 0, .worker 0, .worker 0, .worker 0, .worker 0,
      .worker 0, .worker 0, .worker 0, .poll 0 true, .worker 0] rfl
  have hkept := (client_msg_kept_iff true).2 _ _ hrun
  exact ⟨_, _, hrun, rfl, by decide, hkept.2.1 rfl⟩

open Ctools.Library Ctools.Program Ctools.Interface Ctools.Analysis in
/-- Message -65535 is accepted and ends the worker's loop: it is handled as 1, while the
activity runs and nobody has called `activity_stop`.
SOURCE: activity.c:50, activity.c:91-93, activity.c:313 -/
theorem Ctools.Analysis.client_msg_exits :
    ∃ h s, (activityMachine true).Run Machine.anyStep activityStart h s ∧
      (∀ e ∈ h, ∀ waitFinish, e.1 ≠ .call (.stop waitFinish)) ∧
      (∃ e ∈ h, e.2.ret = some (.send ⟨-65535, 7, 0, 0⟩, 0) ∧
        ∃ msg, e.2.enqueued = some msg ∧ ¬ HandledAs true ⟨-65535, 7, 0, 0⟩ msg) ∧
      s.exited = true ∧ s.state = .run := by
  have hrun := Machine.run_of_exec (m := activityMachine true) activityStart
    [.call .run, .run 0 0, .run 0 0, .run 0 0, .run 0 0, .run 0 0, .run 0 0,
      .call (.send ⟨-65535, 7, 0, 0⟩), .locked 1 (some 0),
      .worker 0, .poll 0 false, .worker 0, .worker 0] rfl
  refine ⟨_, _, hrun, ?_, ?_, rfl, rfl⟩
  · intro e he waitFinish
    simp only [List.mem_cons, List.not_mem_nil, or_false] at he
    rcases he with rfl | rfl | rfl | rfl | rfl | rfl | rfl | rfl | rfl | rfl | rfl | rfl | rfl <;>
      simp
  · refine ⟨_, List.mem_of_getElem? (i := 8) rfl, rfl, ⟨0, .user 7, 1, 0, 0⟩, rfl, ?_⟩
    intro hkept
    exact absurd hkept.type_eq (by decide)
