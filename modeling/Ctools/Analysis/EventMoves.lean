import Ctools.Program.Event

/-!
# What one step of a thread on the event can do

The two waiting loops by cases: over before (`waitLoop_over`), and from a frame
still in them (`waitLoop_untimed`, `waitLoop_timed`).  `EventMove` lists the
branches of `eventStep`, with their guards, once for all the invariants of the
event, and no others (`eventMove_of_step`, `eventStep_of_move`).  From it:
only the holder of the mutex is in a critical section (`mutexHeld_step`),
`e->value` changes only at a post and at the tail of a wait (`value_step`), and
what a step means to a thread that does not take it (`others_step`).
-/

set_option autoImplicit false

namespace Ctools.Analysis

open Ctools.Library Ctools.Program

/-! ## The waiting loops -/

/-- A loop that has noted a match, or whose condition wait has answered, is left.
SOURCE: event1.c:54, event1.c:101 -/
theorem waitLoop_over {value : UInt32} {frame : WaitFrame}
    (hover : frame.matched = true ∨ frame.rc ≠ 0) : waitLoop value frame = .leave frame := by
  have hbusy : (!frame.matched && decide (frame.rc = 0)) = false := by
    rw [Bool.and_eq_false_iff]
    simpa using hover
  simp [waitLoop, eventTimedwaitLoop, eventWaitLoop, hbusy]

/-- The loop of `event_wait`, from a frame that is still in it.
SOURCE: event1.c:54-69 -/
theorem waitLoop_untimed {value : UInt32} {frame : WaitFrame} (huntimed : frame.call.timeout = none)
    (hunmatched : frame.matched = false) (hzero : frame.rc = 0) :
    waitLoop value frame =
      if eventMatch value frame.call.set frame.call.option
      then .leave { frame with matched := true } else .block frame := by
  simp [waitLoop, eventWaitLoop, huntimed, hunmatched, hzero]

/-- The loop of `event_timedwait` calls the condition wait, whatever its check says.
SOURCE: event1.c:101-114 -/
theorem waitLoop_timed {value : UInt32} {frame : WaitFrame}
    (htimed : frame.call.timeout.isSome = true) (hunmatched : frame.matched = false)
    (hzero : frame.rc = 0) :
    waitLoop value frame =
      .block { frame with matched := eventMatch value frame.call.set frame.call.option } := by
  cases hmatch : eventMatch value frame.call.set frame.call.option with
  | true => simp [waitLoop, eventTimedwaitLoop, htimed, hunmatched, hzero, hmatch]
  | false =>
    have hsame : { frame with matched := false } = frame := by rw [← hunmatched]
    rw [hsame]
    simp [waitLoop, eventTimedwaitLoop, htimed, hunmatched, hzero, hmatch]

/-- A loop that calls the condition wait has noted its check.
SOURCE: event1.c:54-69, event1.c:101-114 -/
theorem waitLoop_block {value : UInt32} {frame frame' : WaitFrame}
    (hloop : waitLoop value frame = .block frame') : frame.matched = false ∧ frame.rc = 0 ∧
      frame' = { frame with matched := eventMatch value frame.call.set frame.call.option } := by
  by_cases hover : frame.matched = true ∨ frame.rc ≠ 0
  · rw [waitLoop_over hover] at hloop
    cases hloop
  · obtain ⟨hunmatched, hzero⟩ : frame.matched = false ∧ frame.rc = 0 := by simpa using hover
    refine ⟨hunmatched, hzero, ?_⟩
    cases htimed : frame.call.timeout with
    | some timeout =>
      rw [waitLoop_timed (Option.isSome_of_eq_some htimed) hunmatched hzero] at hloop
      exact (LoopNext.block.inj hloop).symm
    | none =>
      rw [waitLoop_untimed htimed hunmatched hzero] at hloop
      split at hloop
      · cases hloop
      · rename_i hmatch
        rw [← LoopNext.block.inj hloop, Bool.eq_false_iff.mpr hmatch, ← hunmatched]

/-- A loop is left when it was over before, or at a match.
SOURCE: event1.c:54-69, event1.c:101-114 -/
theorem waitLoop_leave {value : UInt32} {frame frame' : WaitFrame}
    (hloop : waitLoop value frame = .leave frame') :
    ((frame.matched = true ∨ frame.rc ≠ 0) ∧ frame' = frame) ∨
      (frame.matched = false ∧ frame.rc = 0) ∧
        eventMatch value frame.call.set frame.call.option = true ∧
        frame' = { frame with matched := true } := by
  by_cases hover : frame.matched = true ∨ frame.rc ≠ 0
  · rw [waitLoop_over hover] at hloop
    exact .inl ⟨hover, (LoopNext.leave.inj hloop).symm⟩
  · have hin : frame.matched = false ∧ frame.rc = 0 := by simpa using hover
    refine .inr ⟨hin, ?_⟩
    cases htimed : frame.call.timeout with
    | some timeout =>
      rw [waitLoop_timed (Option.isSome_of_eq_some htimed) hin.1 hin.2] at hloop
      cases hloop
    | none =>
      rw [waitLoop_untimed htimed hin.1 hin.2] at hloop
      split at hloop
      · rename_i hmatch
        exact ⟨hmatch, (LoopNext.leave.inj hloop).symm⟩
      · cases hloop

/-! ## Steps -/

variable {T : Type} [DecidableEq T]

/-- The branches of `eventStep`. -/
inductive EventMove (s : EventState T) : EventAct T → EventObs T → EventState T → Prop
  | callPost (t : T) (set : UInt32) (hpc : s.pc t = .idle) :
      EventMove s (.call t (.post set)) ⟨s.value, s.value, none⟩ (s.goto t (.postEntry set))
  | callWait (t : T) (call : WaitCall) (hpc : s.pc t = .idle) (hrecved : call.recved = true) :
      EventMove s (.call t (.wait call)) ⟨s.value, s.value, none⟩ (s.goto t (.waitEntry call))
  | callNull (t : T) (call : WaitCall) (hpc : s.pc t = .idle) (hrecved : call.recved = false) :
      EventMove s (.call t (.wait call))
        ⟨s.value, s.value, some ⟨t, .wait call, EINVAL, none⟩⟩ s
  | lockPost (t : T) (set : UInt32) (hpc : s.pc t = .postEntry set) (hfree : s.owner = none) :
      EventMove s (.lock t) ⟨s.value, s.value, none⟩
        { s.goto t (.posting set) with owner := some t }
  | lockWait (t : T) (call : WaitCall) (hpc : s.pc t = .waitEntry call) (hfree : s.owner = none)
      (huntimed : call.timeout = none) :
      EventMove s (.lock t) ⟨s.value, s.value, none⟩
        { s.goto t (.looping (startFrame call ⟨0, 0⟩)) with owner := some t }
  | lockTimedwait (t : T) (call : WaitCall) (hpc : s.pc t = .waitEntry call)
      (hfree : s.owner = none) (htimed : call.timeout.isSome = true) :
      EventMove s (.lock t) ⟨s.value, s.value, none⟩
        { s.goto t (.clock call) with owner := some t }
  | lockWoken (t : T) (frame : WaitFrame) (hpc : s.pc t = .woken frame) (hfree : s.owner = none) :
      EventMove s (.lock t) ⟨s.value, s.value, none⟩
        { s.goto t (.looping frame) with owner := some t }
  | post (t : T) (set : UInt32) (hpc : s.pc t = .posting set) :
      EventMove s (.post t) ⟨s.value, s.value ||| set, some ⟨t, .post set, 0, none⟩⟩
        { value := s.value ||| set, owner := none,
          pc := Function.update (fun u => broadcast (s.pc u)) t .idle }
  | clock (t : T) (call : WaitCall) (now : Timespec) (hpc : s.pc t = .clock call) :
      EventMove s (.clock t (some now)) ⟨s.value, s.value, none⟩
        (s.goto t (.looping (startFrame call (deadline now (call.timeout.getD 0)))))
  | clockFails (t : T) (call : WaitCall) (hpc : s.pc t = .clock call) :
      EventMove s (.clock t none) ⟨s.value, s.value, some ⟨t, .wait call, -1, none⟩⟩
        (s.goto t .idle)
  | leave (t : T) (reject : Option ℤ) (frame frame' : WaitFrame) (hpc : s.pc t = .looping frame)
      (hloop : waitLoop s.value frame = .leave frame') :
      EventMove s (.loop t reject) ⟨s.value, s.value, none⟩ (s.goto t (.finishing frame'))
  | reject (t : T) (rc : ℤ) (frame frame' : WaitFrame) (hpc : s.pc t = .looping frame)
      (hloop : waitLoop s.value frame = .block frame') :
      EventMove s (.loop t (some rc)) ⟨s.value, s.value, none⟩
        (s.goto t (.looping { frame' with rc := rc, fresh := false }))
  | park (t : T) (frame frame' : WaitFrame) (hpc : s.pc t = .looping frame)
      (hloop : waitLoop s.value frame = .block frame') :
      EventMove s (.loop t none) ⟨s.value, s.value, none⟩
        { s.goto t (.parked { frame' with fresh := false }) with owner := none }
  | wake (t : T) (rc : ℤ) (frame : WaitFrame) (hpc : s.pc t = .parked frame) :
      EventMove s (.wake t rc) ⟨s.value, s.value, none⟩ (s.goto t (.woken { frame with rc := rc }))
  | finish (t : T) (frame : WaitFrame) (hpc : s.pc t = .finishing frame) :
      EventMove s (.finish t)
        ⟨s.value, valueAfter s.value frame,
          some ⟨t, .wait frame.call, (waitResult s.value frame).1, (waitResult s.value frame).2⟩⟩
        { value := valueAfter s.value frame, owner := none, pc := Function.update s.pc t .idle }

/-- Every step is one of the branches.
SOURCE: event1.c:33-127 -/
theorem eventMove_of_step {s s' : EventState T} {a : EventAct T} {o : EventObs T}
    (h : eventStep s a = some (o, s')) : EventMove s a o s' := by
  cases a with
  | call t c =>
    cases hpc : s.pc t <;> cases c with
    | post set =>
      simp only [eventStep, hpc, silent, Option.some.injEq, Prod.mk.injEq, reduceCtorEq] at h
      try (obtain ⟨rfl, rfl⟩ := h; exact .callPost t set hpc)
    | wait call =>
      simp only [eventStep, hpc, reduceCtorEq] at h
      try
        cases hrecved : call.recved <;>
          simp only [hrecved, silent, returns, if_true, Bool.false_eq_true, if_false,
            Option.some.injEq, Prod.mk.injEq] at h <;> obtain ⟨rfl, rfl⟩ := h
        · exact .callNull t call hpc hrecved
        · exact .callWait t call hpc hrecved
  | lock t =>
    cases hfree : s.owner with
    | some u => simp [eventStep, hfree] at h
    | none =>
      cases hpc : s.pc t with
      | postEntry set =>
        simp only [eventStep, hpc, hfree, silent, Option.some.injEq, Prod.mk.injEq] at h
        obtain ⟨rfl, rfl⟩ := h
        exact .lockPost t set hpc hfree
      | waitEntry call =>
        simp only [eventStep, hpc, hfree, silent, Option.some.injEq, Prod.mk.injEq] at h
        obtain ⟨rfl, rfl⟩ := h
        cases htimed : call.timeout with
        | none => exact .lockWait t call hpc hfree htimed
        | some timeout => exact .lockTimedwait t call hpc hfree (by rw [htimed]; rfl)
      | woken frame =>
        simp only [eventStep, hpc, hfree, silent, Option.some.injEq, Prod.mk.injEq] at h
        obtain ⟨rfl, rfl⟩ := h
        exact .lockWoken t frame hpc hfree
      | _ => simp [eventStep, hpc, hfree] at h
  | post t =>
    cases hpc : s.pc t with
    | posting set =>
      simp only [eventStep, hpc, returns, Option.some.injEq, Prod.mk.injEq] at h
      obtain ⟨rfl, rfl⟩ := h
      exact .post t set hpc
    | _ => simp [eventStep, hpc] at h
  | clock t now =>
    cases hpc : s.pc t with
    | clock call =>
      cases now with
      | none =>
        simp only [eventStep, hpc, returns, Option.some.injEq, Prod.mk.injEq] at h
        obtain ⟨rfl, rfl⟩ := h
        exact .clockFails t call hpc
      | some now =>
        simp only [eventStep, hpc, silent, Option.some.injEq, Prod.mk.injEq] at h
        obtain ⟨rfl, rfl⟩ := h
        exact .clock t call now hpc
    | _ => simp [eventStep, hpc] at h
  | loop t reject =>
    cases hpc : s.pc t with
    | looping frame =>
      cases hloop : waitLoop s.value frame with
      | leave frame' =>
        simp only [eventStep, hpc, hloop, silent, Option.some.injEq, Prod.mk.injEq] at h
        obtain ⟨rfl, rfl⟩ := h
        exact .leave t reject frame frame' hpc hloop
      | block frame' =>
        cases reject with
        | none =>
          simp only [eventStep, hpc, hloop, silent, Option.some.injEq, Prod.mk.injEq] at h
          obtain ⟨rfl, rfl⟩ := h
          exact .park t frame frame' hpc hloop
        | some rc =>
          simp only [eventStep, hpc, hloop, silent, Option.some.injEq, Prod.mk.injEq] at h
          obtain ⟨rfl, rfl⟩ := h
          exact .reject t rc frame frame' hpc hloop
    | _ => simp [eventStep, hpc] at h
  | wake t rc =>
    cases hpc : s.pc t with
    | parked frame =>
      simp only [eventStep, hpc, silent, Option.some.injEq, Prod.mk.injEq] at h
      obtain ⟨rfl, rfl⟩ := h
      exact .wake t rc frame hpc
    | _ => simp [eventStep, hpc] at h
  | finish t =>
    cases hpc : s.pc t with
    | finishing frame =>
      simp only [eventStep, hpc, returns, Option.some.injEq, Prod.mk.injEq] at h
      obtain ⟨rfl, rfl⟩ := h
      exact .finish t frame hpc
    | _ => simp [eventStep, hpc] at h

/-- Every branch is a step. -/
theorem eventStep_of_move {s s' : EventState T} {a : EventAct T} {o : EventObs T}
    (hmove : EventMove s a o s') : eventStep s a = some (o, s') := by
  cases hmove with
  | callPost t set hpc => simp [eventStep, hpc, silent, EventState.goto]
  | callWait t call hpc hrecved => simp [eventStep, hpc, hrecved, silent, EventState.goto]
  | callNull t call hpc hrecved => simp [eventStep, hpc, hrecved, returns]
  | lockPost t set hpc hfree => simp [eventStep, hpc, hfree, silent, EventState.goto]
  | lockWait t call hpc hfree huntimed =>
    simp [eventStep, hpc, hfree, huntimed, silent, EventState.goto]
  | lockTimedwait t call hpc hfree htimed =>
    simp [eventStep, hpc, hfree, htimed, silent, EventState.goto]
  | lockWoken t frame hpc hfree => simp [eventStep, hpc, hfree, silent, EventState.goto]
  | post t set hpc => simp [eventStep, hpc, returns]
  | clock t call now hpc => simp [eventStep, hpc, silent, EventState.goto]
  | clockFails t call hpc => simp [eventStep, hpc, returns, EventState.goto]
  | leave t reject frame frame' hpc hloop =>
    simp [eventStep, hpc, hloop, silent, EventState.goto]
  | reject t rc frame frame' hpc hloop => simp [eventStep, hpc, hloop, silent, EventState.goto]
  | park t frame frame' hpc hloop => simp [eventStep, hpc, hloop, silent, EventState.goto]
  | wake t rc frame hpc => simp [eventStep, hpc, silent, EventState.goto]
  | finish t frame hpc => simp [eventStep, hpc, returns]

/-! ## The mutex -/

/-- In a critical section. -/
def inSection : EventPc → Bool
  | .posting _ | .clock _ | .looping _ | .finishing _ => true
  | _ => false

/-- A broadcast moves no thread into or out of a critical section. -/
@[simp] theorem inSection_broadcast (pc : EventPc) : inSection (broadcast pc) = inSection pc := by
  cases pc <;> rfl

/-- A thread in a critical section holds the mutex. -/
def MutexHeld (s : EventState T) : Prop := ∀ t, inSection (s.pc t) = true → s.owner = some t

omit [DecidableEq T] in
/-- Nobody is in a critical section at the start. -/
theorem mutexHeld_start (value : UInt32) : MutexHeld (eventStart (T := T) value) := by
  intro t ht
  cases ht

omit [DecidableEq T] in
/-- With one thread in a critical section, no other is. -/
theorem MutexHeld.alone {s : EventState T} (hs : MutexHeld s) {t u : T}
    (ht : inSection (s.pc t) = true) (hu : inSection (s.pc u) = true) : u = t :=
  Option.some.inj ((hs u hu).symm.trans (hs t ht))

/-- A thread that moves without the mutex changing hands is in a critical
section only if it was in one. -/
theorem MutexHeld.goto {s : EventState T} (hs : MutexHeld s) {t : T} {pc : EventPc}
    (hpc : inSection pc = true → inSection (s.pc t) = true) : MutexHeld (s.goto t pc) := by
  intro u hu
  by_cases hut : u = t
  · subst hut
    exact hs u (hpc (by simpa [EventState.goto] using hu))
  · exact hs u (by simpa [EventState.goto, hut] using hu)

/-- A thread may take the mutex when it is free. -/
theorem MutexHeld.take {s : EventState T} (hs : MutexHeld s) (hfree : s.owner = none) {t : T}
    {pc : EventPc} : MutexHeld { s.goto t pc with owner := some t } := by
  intro u hu
  by_cases hut : u = t
  · subst hut
    rfl
  · have hold := hs u (by simpa [EventState.goto, hut] using hu)
    rw [hfree] at hold
    cases hold

/-- The holder may give the mutex up on leaving its critical section, whatever
it does to the value and to the parked threads. -/
theorem MutexHeld.give {s : EventState T} (hs : MutexHeld s) {t : T} {pc : EventPc}
    {others : T → EventPc} {value : UInt32} (ht : inSection (s.pc t) = true)
    (hpc : inSection pc = false) (hothers : ∀ u, inSection (others u) = inSection (s.pc u)) :
    MutexHeld { value := value, owner := none, pc := Function.update others t pc } := by
  intro u hu
  by_cases hut : u = t
  · subst hut
    simp [hpc] at hu
  · have hsec : inSection (s.pc u) = true := by
      simpa [hut, hothers] using hu
    exact (hut (hs.alone ht hsec)).elim

/-- Every step keeps the mutex. -/
theorem mutexHeld_step {s s' : EventState T} {a : EventAct T} {o : EventObs T}
    (hmove : EventMove s a o s') (hs : MutexHeld s) : MutexHeld s' := by
  cases hmove with
  | callNull t call hpc hrecved => exact hs
  | callPost t set hpc => exact hs.goto (by simp [inSection])
  | callWait t call hpc hrecved => exact hs.goto (by simp [inSection])
  | wake t rc frame hpc => exact hs.goto (by simp [inSection])
  | clockFails t call hpc => exact hs.goto (by simp [inSection])
  | clock t call now hpc => exact hs.goto (by simp [hpc, inSection])
  | leave t reject frame frame' hpc hloop => exact hs.goto (by simp [hpc, inSection])
  | reject t rc frame frame' hpc hloop => exact hs.goto (by simp [hpc, inSection])
  | lockPost t set hpc hfree => exact hs.take hfree
  | lockWait t call hpc hfree huntimed => exact hs.take hfree
  | lockTimedwait t call hpc hfree htimed => exact hs.take hfree
  | lockWoken t frame hpc hfree => exact hs.take hfree
  | post t set hpc => exact hs.give (by simp [hpc, inSection]) rfl (by simp)
  | park t frame frame' hpc hloop =>
    exact hs.give (by simp [hpc, inSection]) rfl (fun _ => rfl)
  | finish t frame hpc => exact hs.give (by simp [hpc, inSection]) rfl (fun _ => rfl)

/-! ## The value -/

/-- `e->value` changes only at a post, which adds the posted bits, and at the
tail of a wait. -/
theorem value_step {s s' : EventState T} {a : EventAct T} {o : EventObs T}
    (hmove : EventMove s a o s') : o.before = s.value ∧ o.after = s'.value ∧
      ((∃ t set, a = .post t ∧ o.ret = some ⟨t, .post set, 0, none⟩ ∧
          s'.value = s.value ||| set) ∨
        (∃ t frame, a = .finish t ∧ s.pc t = .finishing frame ∧
          o.ret = some ⟨t, .wait frame.call, (waitResult s.value frame).1,
            (waitResult s.value frame).2⟩ ∧ s'.value = valueAfter s.value frame) ∨
        (s'.value = s.value ∧ ∀ r, o.ret = some r → r.rc ≠ 0)) := by
  cases hmove with
  | post t set hpc => exact ⟨rfl, rfl, .inl ⟨t, set, rfl, rfl, rfl⟩⟩
  | finish t frame hpc => exact ⟨rfl, rfl, .inr (.inl ⟨t, frame, rfl, hpc, rfl, rfl⟩)⟩
  | callNull t call hpc hrecved =>
    refine ⟨rfl, rfl, .inr (.inr ⟨rfl, ?_⟩)⟩
    rintro r ⟨rfl⟩
    simp [EINVAL]
  | clockFails t call hpc =>
    refine ⟨rfl, rfl, .inr (.inr ⟨rfl, ?_⟩)⟩
    rintro r ⟨rfl⟩
    simp
  | _ => exact ⟨rfl, rfl, .inr (.inr ⟨rfl, by simp⟩)⟩

/-! ## The other threads -/

/-- The thread that moves. -/
def actor : EventAct T → T
  | .call t _ | .lock t | .post t | .clock t _ | .loop t _ | .wake t _ | .finish t => t

/-- Thread `t` does not return in a history. -/
def NotReturned (t : T) (h : List (EventAct T × EventObs T)) : Prop :=
  ∀ e ∈ h, ∀ r, e.2.ret = some r → r.thread ≠ t

/-- What a step means to a thread that does not take it: nothing, or it is
outside its critical section and the value gains the posted bits and the post
wakes it, or loses the bits that a wait takes. -/
theorem others_step {s s' : EventState T} {a : EventAct T} {o : EventObs T}
    (hmove : EventMove s a o s') (hs : MutexHeld s) {u : T} (hu : u ≠ actor a) :
    (s'.pc u = s.pc u ∧ s'.value = s.value) ∨
      (inSection (s.pc u) = false ∧ ∃ set, s'.pc u = broadcast (s.pc u) ∧
        s'.value = s.value ||| set) ∨
      (inSection (s.pc u) = false ∧ ∃ t frame, a = .finish t ∧ s.pc t = .finishing frame ∧
        s'.pc u = s.pc u ∧ s'.value = valueAfter s.value frame) := by
  cases hmove with
  | callNull t call hpc hrecved => exact .inl ⟨rfl, rfl⟩
  | post t set hpc =>
    have hout : inSection (s.pc u) = false :=
      Bool.eq_false_iff.mpr fun hin => hu (hs.alone (t := t) (by rw [hpc]; rfl) hin)
    exact .inr (.inl ⟨hout, set, by simp [show u ≠ t from hu], rfl⟩)
  | finish t frame hpc =>
    have hout : inSection (s.pc u) = false :=
      Bool.eq_false_iff.mpr fun hin => hu (hs.alone (t := t) (by rw [hpc]; rfl) hin)
    exact .inr (.inr ⟨hout, t, frame, rfl, hpc, Function.update_of_ne hu _ _, rfl⟩)
  | _ => exact .inl ⟨Function.update_of_ne hu _ _, rfl⟩

end Ctools.Analysis
