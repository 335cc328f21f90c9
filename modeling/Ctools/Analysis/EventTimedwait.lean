import Ctools.Analysis.EventMoves
import Ctools.Analysis.EventFlags

/-!
# When `event_timedwait` is as good as `event_wait`

The loop of `event_wait` breaks on a match, the loop of `event_timedwait` notes
it and calls the condition wait all the same, which gives the mutex up.  So a
timed wait may block although its condition holds, and a consumer may take the
bits before the result is read.

`noStolenMatch` says that neither happens: a timed wait that finds its condition
true at the first check is refused by the condition wait, and no tail of a wait
makes false the condition of a thread that has noted a match.  In every run
under it a timed wait that returns 0 reports its condition, and one that finds
it true at the first check returns as `event_wait` would.  A step outside it
breaks one of the two: `blocks_of_not_noStolenMatch`,
`misreports_of_not_noStolenMatch`.
-/

set_option autoImplicit false

namespace Ctools.Analysis

open Ctools.Library Ctools.Program

variable {T : Type}

/-- The condition of a wait. -/
def holds (value : UInt32) (call : WaitCall) : Bool := eventMatch value call.set call.option

/-- A thread that has noted a match and gave the mutex up finds its condition
true. -/
def keepsMatch (value : UInt32) : EventPc → Prop
  | .parked frame | .woken frame => frame.matched = true → holds value frame.call = true
  | _ => True

/-- At the first check of a timed wait whose condition holds. -/
def firstCheckHolds (value : UInt32) : EventPc → Bool
  | .looping frame => frame.fresh && frame.call.timeout.isSome && holds value frame.call
  | _ => false

instance (value : UInt32) : ∀ pc, Decidable (keepsMatch value pc)
  | .parked _ | .woken _ => inferInstanceAs (Decidable (_ → _))
  | .idle | .postEntry _ | .posting _ | .waitEntry _ | .clock _ | .looping _ | .finishing _ =>
      inferInstanceAs (Decidable True)

/-- The tail of a wait leaves every noted match true. -/
def tailKeepsMatches (s : EventState T) : EventPc → Prop
  | .finishing frame => ∀ u, keepsMatch (valueAfter s.value frame) (s.pc u)
  | _ => True

instance [Fintype T] (s : EventState T) : ∀ pc, Decidable (tailKeepsMatches s pc)
  | .finishing _ => inferInstanceAs (Decidable (∀ _, keepsMatch _ _))
  | .idle | .postEntry _ | .posting _ | .waitEntry _ | .clock _ | .looping _ | .parked _
  | .woken _ => inferInstanceAs (Decidable True)

/-- The condition wait does not block a timed wait that found its condition true
at the first check, and the tail of a wait leaves every noted match true. -/
def noStolenMatch (s : EventState T) : EventAct T → Prop
  | .loop t none => firstCheckHolds s.value (s.pc t) = false
  | .finish t => tailKeepsMatches s (s.pc t)
  | _ => True

instance [Fintype T] (s : EventState T) : ∀ a, Decidable (noStolenMatch s a)
  | .loop _ none => inferInstanceAs (Decidable (_ = false))
  | .finish t => inferInstanceAs (Decidable (tailKeepsMatches s (s.pc t)))
  | .call _ _ | .lock _ | .post _ | .clock _ _ | .loop _ (some _) | .wake _ _ =>
      inferInstanceAs (Decidable True)

/-- A timed wait that returns 0 reports its condition. -/
def TimedwaitReports (o : EventObs T) : Prop :=
  ∀ t call recved, o.ret = some ⟨t, .wait call, 0, recved⟩ → call.timeout.isSome = true →
    exactlyOne call.option = true → ∃ r, recved = some r ∧ Reports call r

/-- The result and `*recved` of the last step of a history. -/
def lastReturn (h : List (EventAct T × EventObs T)) : Option (ℤ × Option UInt32) :=
  (h.getLast?.bind fun e => e.2.ret).map fun r => (r.rc, r.recved)

variable [DecidableEq T]

/-- The state with thread `t` at the first check of `event_wait` instead. -/
def asEventWait (s : EventState T) (t : T) (call : WaitCall) : EventState T :=
  s.goto t (.looping (startFrame { call with timeout := none } ⟨0, 0⟩))

/-- By its own steps alone, none of them a condition wait, `t` returns from `s`,
with the result, `*recved` and value that `event_wait` has from `w`. -/
def ReturnsLike (s w : EventState T) (t : T) : Prop :=
  ∃ acts h s' hw w' r, (∀ a ∈ acts, a = .loop t none ∨ a = .finish t) ∧
    (eventMachine T).exec s acts = some (h, s') ∧
    (eventMachine T).exec w [.loop t none, .finish t] = some (hw, w') ∧
    lastReturn h = some r ∧ lastReturn hw = some r ∧ s'.value = w'.value

/-- A timed wait that finds its condition true at the first check returns without
blocking: from then on, whatever the other threads do, it has returned or can
return by its own steps, as `event_wait` would have from the first check. -/
def AnswersAtOnce (guard : EventState T → EventAct T → Prop) (s : EventState T) : Prop :=
  ∀ t frame reject o s₁ h s', s.pc t = .looping frame → frame.fresh = true →
    frame.call.timeout.isSome = true → holds s.value frame.call = true →
    guard s (.loop t reject) → eventStep s (.loop t reject) = some (o, s₁) →
    (eventMachine T).Run guard s₁ h s' → NotReturned t h →
    ReturnsLike s' (asEventWait s t frame.call) t

/-! ## Noted matches -/

/-- What holds of a thread, given the event's value: it has noted a match only if
its condition holds, and a frame that is fresh is as `startFrame` made it. -/
def MatchOk (value : UInt32) : EventPc → Prop
  | .looping frame =>
      (frame.fresh = true → frame.matched = false ∧ frame.rc = 0) ∧
        (frame.matched = true → holds value frame.call = true)
  | .parked frame | .woken frame =>
      frame.fresh = false ∧ (frame.matched = true → holds value frame.call = true)
  | .finishing frame => frame.matched = true → holds value frame.call = true
  | _ => True

omit [DecidableEq T] in
/-- What a loop leaves in the frame: a match is noted only if it was or is one.
SOURCE: event1.c:54-69, event1.c:101-114 -/
theorem waitLoop_matched {value : UInt32} {frame frame' : WaitFrame}
    (hloop : waitLoop value frame = .leave frame' ∨ waitLoop value frame = .block frame') :
    frame'.call = frame.call ∧
      (frame'.matched = true → frame.matched = true ∨ holds value frame.call = true) := by
  rcases hloop with hloop | hloop
  · rcases waitLoop_leave hloop with ⟨-, rfl⟩ | ⟨-, hholds, rfl⟩
    · exact ⟨rfl, .inl⟩
    · exact ⟨rfl, fun _ => .inr hholds⟩
  · obtain ⟨-, -, rfl⟩ := waitLoop_block hloop
    exact ⟨rfl, .inr⟩

/-- A post keeps `MatchOk`. -/
theorem MatchOk.post {value : UInt32} {pc : EventPc} (hpc : MatchOk value pc) (set : UInt32) :
    MatchOk (value ||| set) (broadcast pc) := by
  cases pc with
  | parked frame => exact ⟨hpc.1, fun h => eventMatch_post set (hpc.2 h)⟩
  | woken frame => exact ⟨hpc.1, fun h => eventMatch_post set (hpc.2 h)⟩
  | looping frame => exact ⟨hpc.1, fun h => eventMatch_post set (hpc.2 h)⟩
  | finishing frame => exact fun h => eventMatch_post set (hpc h)
  | _ => exact hpc

/-- A change of the value that keeps the noted matches of the threads outside
their critical section keeps `MatchOk` of these. -/
theorem MatchOk.keep {value value' : UInt32} {pc : EventPc} (hpc : MatchOk value pc)
    (hout : inSection pc = false) (hkeep : keepsMatch value' pc) : MatchOk value' pc := by
  cases pc with
  | parked frame => exact ⟨hpc.1, hkeep⟩
  | woken frame => exact ⟨hpc.1, hkeep⟩
  | looping frame => cases hout
  | finishing frame => cases hout
  | _ => exact hpc

/-- The thread that moves keeps `MatchOk`. -/
theorem matchOk_actor {s s' : EventState T} {a : EventAct T} {o : EventObs T}
    (hmove : EventMove s a o s') (hs : MatchOk s.value (s.pc (actor a))) :
    MatchOk s'.value (s'.pc (actor a)) := by
  cases hmove with
  | callNull t call hpc hrecved => exact hs
  | lockWoken t frame hpc hfree =>
    simp only [actor, hpc, MatchOk] at hs
    simpa [EventState.goto, actor, MatchOk, hs.1] using hs.2
  | leave t reject frame frame' hpc hloop =>
    simp only [actor, hpc, MatchOk] at hs
    obtain ⟨hcall, hmatched⟩ := waitLoop_matched (.inl hloop)
    simp only [EventState.goto, actor, MatchOk, Function.update_self, hcall]
    exact fun h => (hmatched h).elim hs.2 id
  | reject t rc frame frame' hpc hloop =>
    simp only [actor, hpc, MatchOk] at hs
    obtain ⟨hcall, hmatched⟩ := waitLoop_matched (.inr hloop)
    simp only [EventState.goto, actor, MatchOk, Function.update_self, hcall]
    exact ⟨fun h => absurd h Bool.false_ne_true, fun h => (hmatched h).elim hs.2 id⟩
  | park t frame frame' hpc hloop =>
    simp only [actor, hpc, MatchOk] at hs
    obtain ⟨hcall, hmatched⟩ := waitLoop_matched (.inr hloop)
    simp only [EventState.goto, actor, MatchOk, Function.update_self, hcall]
    exact ⟨trivial, fun h => (hmatched h).elim hs.2 id⟩
  | wake t rc frame hpc =>
    simp only [actor, hpc, MatchOk] at hs
    simpa [EventState.goto, actor, MatchOk] using hs
  | _ => simp [EventState.goto, actor, MatchOk, startFrame]

/-- Every step under `noStolenMatch` keeps `MatchOk` of every thread. -/
theorem matchOk_step {s s' : EventState T} {a : EventAct T} {o : EventObs T}
    (hmove : EventMove s a o s') (hguard : noStolenMatch s a) (hheld : MutexHeld s)
    (hs : ∀ t, MatchOk s.value (s.pc t)) (u : T) : MatchOk s'.value (s'.pc u) := by
  by_cases hu : u = actor a
  · rw [hu]
    exact matchOk_actor hmove (hs _)
  · rcases others_step hmove hheld hu with
      ⟨hpc, hval⟩ | ⟨-, set, hpc, hval⟩ | ⟨hout, t, frame, rfl, hfin, hpc, hval⟩
    · rw [hpc, hval]
      exact hs u
    · rw [hpc, hval]
      exact (hs u).post set
    · simp only [noStolenMatch, hfin, tailKeepsMatches] at hguard
      rw [hpc, hval]
      exact (hs u).keep hout (hguard u)

/-- With `MatchOk` of every thread, a step shows no timed wait that misreports. -/
theorem timedwaitReports_step {s s' : EventState T} {a : EventAct T} {o : EventObs T}
    (hmove : EventMove s a o s') (hs : ∀ t, MatchOk s.value (s.pc t)) : TimedwaitReports o := by
  intro t call recved hret _ hone
  obtain ⟨-, -, hcase⟩ := value_step hmove
  rcases hcase with ⟨u, set, -, hr, -⟩ | ⟨u, frame, -, hpc, hr, -⟩ | ⟨-, hr⟩
  · simp [hret] at hr
  · have hok := hs u
    rw [hpc] at hok
    cases hmatched : frame.matched with
    | false => simp [hret, waitResult, hmatched, ETIMEDOUT] at hr
    | true =>
      simp only [hret, waitResult, hmatched, if_true, Option.some.injEq, EventRet.mk.injEq,
        EventCall.wait.injEq] at hr
      obtain ⟨-, rfl, -, rfl⟩ := hr
      exact ⟨_, rfl, reports_of_eventMatch hone (hok hmatched)⟩
  · exact absurd rfl (hr _ hret)

/-! ## Returning at once -/

/-- The tail of a wait that has a match: the result and the value it leaves. -/
def answer (value : UInt32) (call : WaitCall) : (ℤ × Option UInt32) × UInt32 :=
  ((0, some (value &&& call.set)),
    if call.option &&& EVENT_FLAG_CLEAR ≠ 0 then value &&& ~~~call.set else value)

omit [DecidableEq T] in
/-- A step before a history that ends with a return does not change the return. -/
theorem lastReturn_cons {e : EventAct T × EventObs T} {h : List (EventAct T × EventObs T)}
    (hret : (lastReturn h).isSome = true) : lastReturn (e :: h) = lastReturn h := by
  cases h with
  | nil => cases hret
  | cons f h => rfl

/-- From the tail with a match, one own step returns. -/
theorem exec_finish {s : EventState T} {t : T} {frame : WaitFrame}
    (hpc : s.pc t = .finishing frame) (hmatched : frame.matched = true) :
    ∃ h s', (eventMachine T).exec s [.finish t] = some (h, s') ∧
      lastReturn h = some (answer s.value frame.call).1 ∧
      s'.value = (answer s.value frame.call).2 := by
  have hstep : ∃ o s', eventStep s (.finish t) = some (o, s') ∧
      o.ret = some ⟨t, .wait frame.call, 0, some (s.value &&& frame.call.set)⟩ ∧
      s'.value = valueAfter s.value frame := by
    simp [eventStep, hpc, returns, waitResult, hmatched]
  obtain ⟨o, s', hstep, hret, hval⟩ := hstep
  refine ⟨_, _, (eventMachine T).exec_cons hstep (Machine.exec_nil _ _), ?_, ?_⟩
  · simp [lastReturn, hret, answer]
  · simp [hval, valueAfter, hmatched, answer]

/-- From a loop that leaves with a match, two own steps return. -/
theorem exec_loop_finish {s : EventState T} {t : T} {frame frame' : WaitFrame}
    (hpc : s.pc t = .looping frame) (hloop : waitLoop s.value frame = .leave frame')
    (hmatched : frame'.matched = true) :
    ∃ h s', (eventMachine T).exec s [.loop t none, .finish t] = some (h, s') ∧
      lastReturn h = some (answer s.value frame'.call).1 ∧
      s'.value = (answer s.value frame'.call).2 := by
  have hstep : ∃ o, eventStep s (.loop t none) = some (o, s.goto t (.finishing frame')) := by
    simp [eventStep, hpc, hloop, silent]
  obtain ⟨o, hstep⟩ := hstep
  obtain ⟨h, s', hexec, hret, hval⟩ :=
    exec_finish (s := s.goto t (.finishing frame')) (t := t) (by simp [EventState.goto]) hmatched
  refine ⟨_, s', (eventMachine T).exec_cons hstep hexec, ?_, hval⟩
  rw [lastReturn_cons (by rw [hret]; rfl), hret]
  rfl

/-- `event_wait` returns at its first check when its condition holds.
SOURCE: event1.c:54-81 -/
theorem asEventWait_returns {s : EventState T} {t : T} {call : WaitCall}
    (hholds : holds s.value call = true) :
    ∃ h s', (eventMachine T).exec (asEventWait s t call) [.loop t none, .finish t] = some (h, s') ∧
      lastReturn h = some (answer s.value call).1 ∧ s'.value = (answer s.value call).2 := by
  have htest : eventMatch s.value call.set call.option = true := hholds
  have hpc : (asEventWait s t call).pc t =
      .looping (startFrame { call with timeout := none } ⟨0, 0⟩) := by
    simp [asEventWait, EventState.goto]
  have hloop : waitLoop s.value (startFrame { call with timeout := none } ⟨0, 0⟩) =
      .leave { startFrame { call with timeout := none } ⟨0, 0⟩ with matched := true } := by
    rw [waitLoop_untimed rfl rfl rfl]
    simp [startFrame, htest]
  exact exec_loop_finish hpc hloop rfl

/-- Thread `t` has a match for `call` at `value` and holds the mutex from then on. -/
structure Settled (value : UInt32) (call : WaitCall) (t : T) (s : EventState T) : Prop where
  held : MutexHeld s
  same : s.value = value
  at_tail : ∃ frame, frame.matched = true ∧ frame.call = call ∧
    (s.pc t = .looping frame ∨ s.pc t = .finishing frame)

/-- Until it returns, a settled thread stays settled. -/
theorem Settled.step {value : UInt32} {call : WaitCall} {t : T} {s s' : EventState T}
    {a : EventAct T} {o : EventObs T} (hs : Settled value call t s) (hmove : EventMove s a o s')
    (hret : ∀ r, o.ret = some r → r.thread ≠ t) : Settled value call t s' := by
  obtain ⟨hheld, hsame, frame, hmatched, hcall, hpc⟩ := hs
  have hin : inSection (s.pc t) = true := by
    rcases hpc with hpc | hpc <;> rw [hpc] <;> rfl
  by_cases ht : t = actor a
  · have hheld' := mutexHeld_step hmove hheld
    subst ht
    cases hmove with
    | leave t reject inner frame' hpc' hloop =>
      simp only [actor, hpc', EventPc.looping.injEq, reduceCtorEq, or_false] at hpc
      subst hpc
      simp only [waitLoop_over (.inl hmatched), LoopNext.leave.injEq] at hloop
      subst hloop
      exact ⟨hheld', hsame, inner, hmatched, hcall, .inr (by simp [EventState.goto, actor])⟩
    | reject t rc inner frame' hpc' hloop =>
      simp only [actor, hpc', EventPc.looping.injEq, reduceCtorEq, or_false] at hpc
      subst hpc
      simp [waitLoop_over (.inl hmatched)] at hloop
    | park t inner frame' hpc' hloop =>
      simp only [actor, hpc', EventPc.looping.injEq, reduceCtorEq, or_false] at hpc
      subst hpc
      simp [waitLoop_over (.inl hmatched)] at hloop
    | finish t inner hpc' => exact absurd rfl (hret _ rfl)
    | callNull t call hpc' hrecved => exact absurd rfl (hret _ rfl)
    | clockFails t call hpc' => exact absurd rfl (hret _ rfl)
    | post t set hpc' => exact absurd rfl (hret _ rfl)
    | callPost t set hpc' => simp [actor, hpc'] at hpc
    | callWait t call hpc' hrecved => simp [actor, hpc'] at hpc
    | lockPost t set hpc' hfree => simp [actor, hpc'] at hpc
    | lockWait t call hpc' hfree huntimed => simp [actor, hpc'] at hpc
    | lockTimedwait t call hpc' hfree htimed => simp [actor, hpc'] at hpc
    | lockWoken t inner hpc' hfree => simp [actor, hpc'] at hpc
    | clock t call now hpc' => simp [actor, hpc'] at hpc
    | wake t rc inner hpc' => simp [actor, hpc'] at hpc
  · rcases others_step hmove hheld ht with ⟨hpc', hval⟩ | ⟨hout, -⟩ | ⟨hout, -⟩
    · exact ⟨mutexHeld_step hmove hheld, by rw [hval, hsame], frame, hmatched, hcall, by rwa [hpc']⟩
    · rw [hin] at hout
      cases hout
    · rw [hin] at hout
      cases hout

/-- A settled thread returns by its own steps, as `event_wait` would have. -/
theorem Settled.returns {s w : EventState T} {call : WaitCall} {t : T}
    (hs : Settled w.value call t s) (hholds : holds w.value call = true) :
    ReturnsLike s (asEventWait w t call) t := by
  obtain ⟨hw, w', hwexec, hwret, hwval⟩ := asEventWait_returns (t := t) hholds
  obtain ⟨-, hsame, frame, hmatched, rfl, hpc | hpc⟩ := hs
  · obtain ⟨h, s', hexec, hret, hval⟩ :=
        exec_loop_finish hpc (waitLoop_over (.inl hmatched)) hmatched
    refine ⟨_, h, s', hw, w', _, by simp, hexec, hwexec, ?_, hwret, ?_⟩
    · rw [hret, hsame]
    · rw [hval, hwval, hsame]
  · obtain ⟨h, s', hexec, hret, hval⟩ := exec_finish hpc hmatched
    refine ⟨_, h, s', hw, w', _, by simp, hexec, hwexec, ?_, hwret, ?_⟩
    · rw [hret, hsame]
    · rw [hval, hwval, hsame]

/-- A timed wait that finds its condition true at the first check notes the match and calls the
condition wait.
SOURCE: event1.c:101-113 -/
theorem MatchOk.firstCheck {value : UInt32} {frame : WaitFrame}
    (hok : MatchOk value (.looping frame)) (hfresh : frame.fresh = true)
    (htimed : frame.call.timeout.isSome = true) (hholds : holds value frame.call = true) :
    waitLoop value frame = .block { frame with matched := true } := by
  obtain ⟨hmatched, hrc⟩ := hok.1 hfresh
  have htest : eventMatch value frame.call.set frame.call.option = true := hholds
  rw [waitLoop_timed htimed hmatched hrc, htest]

/-- A timed wait that finds its condition true at the first check, and is not
blocked there, is settled. -/
theorem settled_of_firstCheck {s s' : EventState T} {t : T} {reject : Option ℤ} {o : EventObs T}
    {frame : WaitFrame} (hheld : MutexHeld s) (hok : MatchOk s.value (s.pc t))
    (hpc : s.pc t = .looping frame) (hfresh : frame.fresh = true)
    (htimed : frame.call.timeout.isSome = true) (hholds : holds s.value frame.call = true)
    (hguard : noStolenMatch s (.loop t reject))
    (hstep : eventStep s (.loop t reject) = some (o, s')) :
    Settled s.value frame.call t s' := by
  have hheld' := mutexHeld_step (eventMove_of_step hstep) hheld
  cases reject with
  | none => simp [noStolenMatch, firstCheckHolds, hpc, hfresh, htimed, hholds] at hguard
  | some rc =>
    rw [hpc] at hok
    have hloop := hok.firstCheck hfresh htimed hholds
    simp only [eventStep, hpc, hloop, silent, Option.some.injEq, Prod.mk.injEq] at hstep
    obtain ⟨-, rfl⟩ := hstep
    exact ⟨hheld', rfl, { frame with matched := true, rc := rc, fresh := false }, rfl, rfl,
      .inl (by simp [EventState.goto])⟩

/-- In a state where `MatchOk` holds of every thread, timed waits answer at once. -/
theorem answersAtOnce_of_matchOk {s : EventState T} (hheld : MutexHeld s)
    (hok : ∀ t, MatchOk s.value (s.pc t)) : AnswersAtOnce noStolenMatch s := by
  intro t frame reject o s₁ h s' hpc hfresh htimed hholds hguard hstep hrun hret
  have hstart := settled_of_firstCheck hheld (hok t) hpc hfresh htimed hholds hguard hstep
  have hsettled : NotReturned t h → Settled s.value frame.call t s' := by
    refine hrun.invariant (fun h s' => NotReturned t h → Settled s.value frame.call t s')
      (fun _ => hstart) ?_
    intro h u a o u' ih _ hmoved hquiet
    have hbefore : NotReturned t h := fun e he => hquiet e (List.mem_append_left _ he)
    exact (ih hbefore).step (eventMove_of_step hmoved) (hquiet (a, o) (by simp))
  exact (hsettled hret).returns hholds

/-! ## Outside the condition -/

/-- A timed wait that finds its condition true at the first check may block, and
then it does not return by its own steps. -/
theorem blocks_of_not_noStolenMatch {s : EventState T} {t : T} (hok : MatchOk s.value (s.pc t))
    (hguard : ¬ noStolenMatch s (.loop t none)) : ¬ AnswersAtOnce Machine.anyStep s := by
  intro hanswers
  simp only [noStolenMatch, Bool.not_eq_false] at hguard
  cases hpc : s.pc t with
  | looping frame =>
    simp only [hpc, firstCheckHolds, Bool.and_eq_true] at hguard
    obtain ⟨⟨hfresh, htimed⟩, hholds⟩ := hguard
    rw [hpc] at hok
    have hloop := hok.firstCheck hfresh htimed hholds
    have hstep : ∃ o s₁ parked, eventStep s (.loop t none) = some (o, s₁) ∧
        s₁.pc t = .parked parked := by
      simp [eventStep, hpc, hloop, silent, EventState.goto]
    obtain ⟨o, s₁, parked, hstep, hparked⟩ := hstep
    obtain ⟨acts, h, s', _, _, r, hown, hexec, -, hret, -⟩ :=
      hanswers t frame none o s₁ [] s₁ hpc hfresh htimed hholds trivial hstep .start
        (by simp [NotReturned])
    -- the first own step of a parked thread is none of these
    cases acts with
    | nil =>
      simp only [Machine.exec_nil, Option.some.injEq, Prod.mk.injEq] at hexec
      simp [← hexec.1, lastReturn] at hret
    | cons a acts =>
      rcases hown a (by simp) with rfl | rfl <;>
        simp [Machine.exec, eventMachine, eventStep, hparked] at hexec
  | _ => simp [hpc, firstCheckHolds] at hguard

omit [DecidableEq T] in
/-- Where the match is lost, the thread had seen its flags and they are gone. -/
theorem not_keepsMatch {value : UInt32} {pc : EventPc} (h : ¬ keepsMatch value pc) :
    ∃ frame, (pc = .parked frame ∨ pc = .woken frame) ∧ frame.matched = true ∧
      holds value frame.call = false := by
  cases pc with
  | parked frame => exact ⟨frame, .inl rfl, by simpa [keepsMatch] using h⟩
  | woken frame => exact ⟨frame, .inr rfl, by simpa [keepsMatch] using h⟩
  | _ => exact absurd trivial h

/-- A woken thread with a noted match returns 0, whatever its condition is by then. -/
theorem woken_returns {s : EventState T} {t : T} {frame : WaitFrame} (hpc : s.pc t = .woken frame)
    (hfree : s.owner = none) (hmatched : frame.matched = true) :
    ∃ h s', (eventMachine T).exec s [.lock t, .loop t none, .finish t] = some (h, s') ∧
      lastReturn h = some (0, some (s.value &&& frame.call.set)) := by
  have hstep : ∃ o s₁, eventStep s (.lock t) = some (o, s₁) ∧ s₁.pc t = .looping frame ∧
      s₁.value = s.value := by
    simp [eventStep, hpc, hfree, silent, EventState.goto]
  obtain ⟨o, s₁, hstep, hpc₁, hval⟩ := hstep
  obtain ⟨h, s', hexec, hret, -⟩ := exec_loop_finish hpc₁ (waitLoop_over (.inl hmatched)) hmatched
  refine ⟨_, s', (eventMachine T).exec_cons hstep hexec, ?_⟩
  rw [lastReturn_cons (by rw [hret]; rfl), hret, hval]
  rfl

/-- So does a parked one, whose condition wait ends with `ETIMEDOUT`. -/
theorem parked_returns {s : EventState T} {t : T} {frame : WaitFrame} (hpc : s.pc t = .parked frame)
    (hfree : s.owner = none) (hmatched : frame.matched = true) :
    ∃ h s', (eventMachine T).exec s [.wake t ETIMEDOUT, .lock t, .loop t none, .finish t] =
        some (h, s') ∧ lastReturn h = some (0, some (s.value &&& frame.call.set)) := by
  have hstep : ∃ o s₁, eventStep s (.wake t ETIMEDOUT) = some (o, s₁) ∧
      s₁.pc t = .woken { frame with rc := ETIMEDOUT } ∧ s₁.owner = none ∧ s₁.value = s.value := by
    simp [eventStep, hpc, silent, EventState.goto, hfree]
  obtain ⟨o, s₁, hstep, hpc₁, hfree₁, hval⟩ := hstep
  obtain ⟨h, s', hexec, hret⟩ := woken_returns hpc₁ hfree₁ hmatched
  refine ⟨_, s', (eventMachine T).exec_cons hstep hexec, ?_⟩
  rw [lastReturn_cons (by rw [hret]; rfl), hret, hval]

/-- A noted match that the tail of another wait makes false is still returned: its
thread can return 0 with bits for which its condition is false. -/
theorem misreports_of_not_noStolenMatch {s s' : EventState T} {u : T} {o : EventObs T}
    (hguard : ¬ noStolenMatch s (.finish u)) (hstep : eventStep s (.finish u) = some (o, s')) :
    ∃ t frame acts h s'', (s'.pc t = .parked frame ∨ s'.pc t = .woken frame) ∧
      holds s'.value frame.call = false ∧ (∀ a ∈ acts, actor a = t) ∧
      (eventMachine T).exec s' acts = some (h, s'') ∧
      lastReturn h = some (0, some (s'.value &&& frame.call.set)) := by
  cases hpc : s.pc u with
  | finishing taker =>
    simp only [noStolenMatch, hpc, tailKeepsMatches, not_forall] at hguard
    obtain ⟨t, hnot⟩ := hguard
    obtain ⟨frame, hwhere, hmatched, hfails⟩ := not_keepsMatch hnot
    have hne : t ≠ u := by
      rintro rfl
      simp [hpc] at hwhere
    simp only [eventStep, hpc, returns, Option.some.injEq, Prod.mk.injEq] at hstep
    obtain ⟨-, rfl⟩ := hstep
    rcases hwhere with hparked | hwoken
    · have hpc' : Function.update s.pc u .idle t = .parked frame := by simp [hne, hparked]
      obtain ⟨h, s'', hexec, hret⟩ := parked_returns
        (s := ⟨valueAfter s.value taker, none, Function.update s.pc u .idle⟩) hpc' rfl hmatched
      exact ⟨t, frame, _, h, s'', .inl hpc', hfails, by simp [actor], hexec, hret⟩
    · have hpc' : Function.update s.pc u .idle t = .woken frame := by simp [hne, hwoken]
      obtain ⟨h, s'', hexec, hret⟩ := woken_returns
        (s := ⟨valueAfter s.value taker, none, Function.update s.pc u .idle⟩) hpc' rfl hmatched
      exact ⟨t, frame, _, h, s'', .inr hpc', hfails, by simp [actor], hexec, hret⟩
  | _ => simp [noStolenMatch, tailKeepsMatches, hpc] at hguard

end Ctools.Analysis

open Ctools.Library Ctools.Program Ctools.Analysis in
/-- **When `event_timedwait` is as trustworthy as `event_wait`.**  In every run
under `noStolenMatch`, a timed wait that returns 0 reports its condition, and one
that finds its condition true at the first check returns without blocking, with
the `*recved` and the value of `event_wait`.
SOURCE: event1.c:84-127 -/
theorem Ctools.Analysis.event_timedwait_trustworthy {T : Type} [DecidableEq T] {value : UInt32}
    {h : List (EventAct T × EventObs T)} {s : EventState T}
    (hrun : (eventMachine T).Run noStolenMatch (eventStart value) h s) :
    (∀ e ∈ h, TimedwaitReports e.2) ∧ AnswersAtOnce noStolenMatch s := by
  have hinv := hrun.invariant_shows
    (fun s => MutexHeld s ∧ ∀ t, MatchOk s.value (s.pc t)) TimedwaitReports
    ⟨mutexHeld_start value, fun _ => trivial⟩
    (fun s a o s' hs hguard hstep =>
      ⟨⟨mutexHeld_step (eventMove_of_step hstep) hs.1,
        matchOk_step (eventMove_of_step hstep) hguard hs.1 hs.2⟩,
        timedwaitReports_step (eventMove_of_step hstep) hs.2⟩)
  exact ⟨hinv.2, answersAtOnce_of_matchOk hinv.1.1 hinv.1.2⟩

open Ctools.Library Ctools.Program Ctools.Analysis in
/-- The theorem at a run of two threads: bit 0 is posted, and a timed wait for it
is refused by the condition wait at the first check. -/
theorem Ctools.Analysis.event_timedwait_trustworthy_refused :
    ∃ h s, (eventMachine (Fin 2)).Run noStolenMatch (eventStart 0) h s ∧
      (∃ e ∈ h, e.2.ret = some ⟨1, .wait ⟨1, EVENT_FLAG_AND, some 10, true⟩, 0, some 1⟩) ∧
      (∀ e ∈ h, TimedwaitReports e.2) ∧ AnswersAtOnce noStolenMatch s := by
  have hrun := Machine.run_of_execUnder (m := eventMachine (Fin 2)) noStolenMatch (eventStart 0)
    [.call 0 (.post 1), .lock 0, .post 0,
      .call 1 (.wait ⟨1, EVENT_FLAG_AND, some 10, true⟩), .lock 1, .clock 1 (some ⟨0, 999999999⟩),
      .loop 1 (some EINVAL), .loop 1 none, .finish 1] rfl
  have htrust := event_timedwait_trustworthy hrun
  exact ⟨_, _, hrun, by decide, htrust.1, htrust.2⟩

open Ctools.Library Ctools.Program Ctools.Analysis in
/-- Bit 0 is posted, and thread 1 in `event_timedwait` finds it at the first check
and blocks all the same; thread 2 takes it, and thread 1 returns 0 with no bit. -/
theorem Ctools.Analysis.event_timedwait_steals :
    (¬ ∀ (h : List (EventAct (Fin 3) × EventObs (Fin 3))) (s : EventState (Fin 3)),
      (eventMachine (Fin 3)).Run Machine.anyStep (eventStart 0) h s →
        ∀ e ∈ h, TimedwaitReports e.2) ∧
    (¬ ∀ (h : List (EventAct (Fin 3) × EventObs (Fin 3))) (s : EventState (Fin 3)),
      (eventMachine (Fin 3)).Run Machine.anyStep (eventStart 0) h s →
        AnswersAtOnce Machine.anyStep s) := by
  constructor
  · intro hreportAll
    have hrun : ∃ h s, (eventMachine (Fin 3)).Run Machine.anyStep (eventStart 0) h s ∧
        ∃ e ∈ h, e.2.ret = some ⟨1, .wait ⟨1, EVENT_FLAG_AND, some 10, true⟩, 0, some 0⟩ :=
      ⟨_, _, Machine.run_of_exec (m := eventMachine (Fin 3)) (eventStart 0)
        [.call 0 (.post 1), .lock 0, .post 0,
          .call 1 (.wait ⟨1, EVENT_FLAG_AND, some 10, true⟩), .lock 1, .clock 1 (some ⟨0, 0⟩),
          .loop 1 none,
          .call 2 (.wait ⟨1, EVENT_FLAG_AND ||| EVENT_FLAG_CLEAR, none, true⟩), .lock 2,
          .loop 2 none, .finish 2, .wake 1 ETIMEDOUT, .lock 1, .loop 1 none, .finish 1] rfl,
        by decide⟩
    obtain ⟨h, s, hrun, e, he, hret⟩ := hrun
    obtain ⟨r, hr, hreports⟩ := hreportAll h s hrun e he _ _ _ hret rfl (by decide)
    cases hr
    exact absurd (hreports.1 (by decide)) (by decide)
  · intro hanswerAll
    have hrun : ∃ h s, (eventMachine (Fin 3)).Run Machine.anyStep (eventStart 0) h s ∧
        s.value = 1 ∧
        s.pc 1 = .looping (startFrame ⟨1, EVENT_FLAG_AND, some 10, true⟩ ⟨0, 10000000⟩) :=
      ⟨_, _, Machine.run_of_exec (m := eventMachine (Fin 3)) (eventStart 0)
        [.call 0 (.post 1), .lock 0, .post 0,
          .call 1 (.wait ⟨1, EVENT_FLAG_AND, some 10, true⟩), .lock 1, .clock 1 (some ⟨0, 0⟩)] rfl,
        by decide, by decide⟩
    obtain ⟨h, s, hrun, hval, hpc⟩ := hrun
    have hok : MatchOk s.value (s.pc 1) := by
      rw [hpc]
      exact ⟨fun _ => ⟨rfl, rfl⟩, nofun⟩
    have hguard : ¬ noStolenMatch s (.loop 1 none) := by
      simp only [noStolenMatch, hpc, hval]
      decide
    exact blocks_of_not_noStolenMatch hok hguard (hanswerAll h s hrun)
