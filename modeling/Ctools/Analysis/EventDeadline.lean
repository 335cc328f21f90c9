import Ctools.Analysis.EventMoves
import Ctools.Interface.TimedEvent

/-!
# The deadline of `event_timedwait`

The deadline denotes the time of the reading and the timeout after it, but its nanoseconds
are a sum without a carry: it is valid only where the sum stays below a second
(`deadline_valid_iff`).  Where it is, what a frame holds of the deadline and of its last
check (`OnTime`) carries a timed wait to its return, not before its time
(`onTime_step`).  Where it is not, the first condition wait refuses it and the wait
returns `ETIMEDOUT` at once (`early_of_carry`).
-/

set_option autoImplicit false

namespace Ctools.Analysis

open Ctools.Library Ctools.Program Ctools.Interface

/-- The parts of a timeout in milliseconds. -/
theorem timeout_parts (timeout : UInt32) :
    ((timeout / 1000).toNat : ℤ) * 10 ^ 9 + (timeout % 1000 * 1000000).toNat =
      timeout.toNat * 10 ^ 6 := by
  have hlt := timeout.toNat_lt
  have hsec : (timeout / 1000).toNat = timeout.toNat / 1000 := UInt32.toNat_div _ _
  have hmod : (timeout % 1000).toNat = timeout.toNat % 1000 := UInt32.toNat_mod _ _
  have hnsec : (timeout % 1000 * 1000000).toNat = timeout.toNat % 1000 * 1000000 := by
    rw [UInt32.toNat_mul, hmod]
    exact Nat.mod_eq_of_lt (show timeout.toNat % 1000 * 1000000 < 2 ^ 32 by omega)
  rw [hsec, hnsec]
  push_cast
  omega

/-- The deadline denotes the time of the reading and the timeout after it.
SOURCE: event1.c:98-99 -/
theorem nanoseconds_deadline (now : Timespec) (timeout : UInt32) :
    nanoseconds (deadline now timeout) = nanoseconds now + timeout.toNat * 10 ^ 6 := by
  have hparts := timeout_parts timeout
  unfold nanoseconds deadline
  simp only
  linarith

/-- The deadline is valid if there is no carry.
SOURCE: event1.c:98-99 -/
theorem deadline_valid_iff {now : Timespec} (hnow : ValidTimespec now) (timeout : UInt32) :
    ValidTimespec (deadline now timeout) ↔ noCarry now timeout := by
  have hpos := hnow.1
  unfold ValidTimespec deadline noCarry
  simp only
  omega

/-- No timeout carries nothing. -/
theorem noCarry_zero {now : Timespec} (hnow : ValidTimespec now) : noCarry now 0 := by
  have hnsec : ((0 : UInt32) % 1000 * 1000000).toNat = 0 := rfl
  rw [noCarry, hnsec, Nat.cast_zero, add_zero]
  exact hnow.2

/-- A reading of the clock is a valid time. -/
theorem clockReading_valid (now : ℤ) : ValidTimespec (clockReading now) :=
  ⟨Int.emod_nonneg _ (by norm_num), Int.emod_lt_of_pos _ (by norm_num)⟩

/-- A reading of the clock is its time. -/
theorem nanoseconds_clockReading (now : ℤ) : nanoseconds (clockReading now) = now :=
  Int.ediv_mul_add_emod now (10 ^ 9)

/-! ## Frames on time -/

/-- The deadline of a timed frame is that of the last reading, it is valid, and its condition
wait has not failed before. -/
def OnTime (now : ℤ) (reading : Timespec) (frame : WaitFrame) : Prop :=
  ∀ timeout, frame.call.timeout = some timeout → frame.ts = deadline reading timeout ∧
    ValidTimespec frame.ts ∧ (frame.rc ≠ 0 → nanoseconds frame.ts ≤ now)

/-- What holds of a thread, given the time, its last reading and its last check: its frame is
on time, and `match` is the outcome of the last check; behind the loop without a match, the
condition wait has failed. -/
def Punctual (now : ℤ) (reading : Timespec) (lastCheck : Option Bool) : EventPc → Prop
  | .looping frame => OnTime now reading frame ∧
      (frame.matched = true ∨ frame.rc ≠ 0 → lastCheck = some frame.matched)
  | .parked frame | .woken frame => OnTime now reading frame ∧ lastCheck = some frame.matched
  | .finishing frame => OnTime now reading frame ∧ lastCheck = some frame.matched ∧
      (frame.matched = false → frame.rc ≠ 0)
  | _ => True

/-- What is on time is so later on. -/
theorem OnTime.later {now : ℤ} {reading : Timespec} {frame : WaitFrame}
    (h : OnTime now reading frame) (later : ℕ) : OnTime (now + later) reading frame := by
  intro timeout htimeout
  obtain ⟨hts, hvalid, hpassed⟩ := h timeout htimeout
  exact ⟨hts, hvalid, fun hrc => by have := hpassed hrc; omega⟩

/-- The clock goes on. -/
theorem Punctual.later {now : ℤ} {reading : Timespec} {lastCheck : Option Bool} {pc : EventPc}
    (h : Punctual now reading lastCheck pc) (later : ℕ) :
    Punctual (now + later) reading lastCheck pc := by
  cases pc with
  | looping frame | parked frame | woken frame | finishing frame => exact ⟨h.1.later later, h.2⟩
  | _ => trivial

/-- A condition wait that answers `rc`. -/
theorem OnTime.answered {now : ℤ} {reading : Timespec} {frame : WaitFrame}
    (h : OnTime now reading frame) {rc : ℤ}
    (hrc : frame.call.timeout.isSome = true → rc ≠ 0 → nanoseconds frame.ts ≤ now)
    (matched fresh : Bool) :
    OnTime now reading { frame with matched := matched, rc := rc, fresh := fresh } := by
  intro timeout htimeout
  obtain ⟨hts, hvalid, -⟩ := h timeout htimeout
  exact ⟨hts, hvalid, hrc (Option.isSome_of_eq_some htimeout)⟩

/-- A post wakes a parked thread. -/
theorem Punctual.broadcast {now : ℤ} {reading : Timespec} {lastCheck : Option Bool} {pc : EventPc}
    (h : Punctual now reading lastCheck pc) :
    Punctual now reading lastCheck (Program.broadcast pc) := by
  cases pc with
  | parked frame =>
      exact ⟨h.1.answered (fun _ hne => absurd rfl hne) frame.matched frame.fresh, h.2⟩
  | _ => exact h

variable {T : Type} [DecidableEq T] {s s' : TimedState T} {a : EventAct T} {o : EventObs T}

/-- The step of a thread reads the clock and checks for no other thread. -/
theorem readingAfter_other {u : T} (hu : u ≠ actor a) : readingAfter s a u = s.reading u := by
  cases a with
  | clock t now =>
    cases now with
    | none => rfl
    | some ts => exact Function.update_of_ne hu ..
  | _ => rfl

/-- A step checks no flags for another thread. -/
theorem checkAfter_other {u : T} (hu : u ≠ actor a) : checkAfter s a u = s.lastCheck u := by
  cases a with
  | clock t now => exact Function.update_of_ne hu ..
  | loop t reject =>
    cases hpc : s.event.pc t with
    | looping frame =>
      simp only [checkAfter, hpc]
      split
      · exact Function.update_of_ne hu ..
      · rfl
    | _ => simp only [checkAfter, hpc]
  | _ => rfl

/-- What the check of a loop notes. -/
theorem checkAfter_loop {t : T} {reject : Option ℤ} {frame : WaitFrame}
    (hpc : s.event.pc t = .looping frame) : checkAfter s (.loop t reject) t =
      if frame.matched = false ∧ frame.rc = 0 then
        some (eventMatch s.event.value frame.call.set frame.call.option)
      else s.lastCheck t := by
  unfold checkAfter
  simp only [hpc]
  by_cases hin : frame.matched = false ∧ frame.rc = 0
  · simp [hin.1, hin.2]
  · rw [if_neg hin, if_neg (by simpa using hin)]

/-- The thread that moves stays punctual.
SOURCE: event1.c:84-127 -/
theorem punctual_actor {event : EventState T} (hmove : EventMove s.event a o event)
    (hkernel : kernelAnswers s (.act a)) (hcarry : readsNoCarry s (.act a))
    (hs : Punctual s.now (s.reading (actor a)) (s.lastCheck (actor a)) (s.event.pc (actor a))) :
    Punctual s.now (readingAfter s a (actor a)) (checkAfter s a (actor a))
        (event.pc (actor a)) := by
  have hself : ∀ (t : T) (pc : EventPc), (s.event.goto t pc).pc t = pc :=
    fun t pc => Function.update_self ..
  cases hmove with
  | callNull t call => exact hs
  | callPost | callWait | lockPost | lockTimedwait | clockFails =>
    simp only [actor, hself]
    trivial
  | post | finish =>
    simp only [actor, Function.update_self]
    trivial
  | lockWait t call hpc hfree huntimed =>
    simp only [actor, hself]
    exact ⟨fun timeout htimeout => absurd (huntimed.symm.trans htimeout) (by simp),
      fun hbusy => absurd hbusy (by simp [startFrame])⟩
  | lockWoken t frame hpc =>
    simp only [actor, hself, hpc] at hs ⊢
    exact ⟨hs.1, fun _ => hs.2⟩
  | clock t call now hpc =>
    simp only [actor, hself]
    refine ⟨fun timeout htimeout => ?_, fun hbusy => absurd hbusy (by simp [startFrame])⟩
    have hnow : now = clockReading s.now := hkernel
    have hvalid : ValidTimespec now := by
      rw [hnow]
      exact clockReading_valid s.now
    have hdeadline := (deadline_valid_iff hvalid timeout).mpr (hcarry call timeout hpc htimeout)
    have hreading : readingAfter s (.clock t (some now)) t = now := Function.update_self ..
    have hcall : call.timeout = some timeout := htimeout
    rw [hreading, startFrame, hcall]
    exact ⟨rfl, hdeadline, fun hrc => absurd rfl hrc⟩
  | leave t reject frame frame' hpc hloop =>
    simp only [actor, hself, hpc] at hs ⊢
    rw [checkAfter_loop hpc]
    rcases waitLoop_leave hloop with ⟨hover, rfl⟩ | ⟨hin, hmatch, rfl⟩
    · have hout : ¬ (frame'.matched = false ∧ frame'.rc = 0) := by
        rintro ⟨hmatched, hrc⟩
        rcases hover with hmatch | hfailed
        · exact absurd (hmatched.symm.trans hmatch) Bool.false_ne_true
        · exact hfailed hrc
      rw [if_neg hout]
      refine ⟨hs.1, hs.2 hover, fun hmatched => hover.resolve_left ?_⟩
      rw [hmatched]
      exact Bool.false_ne_true
    · rw [if_pos hin, hmatch]
      exact ⟨hs.1, rfl, fun hmatched => absurd hmatched (by simp)⟩
  | reject t rc frame frame' hpc hloop =>
    simp only [actor, hself, hpc] at hs ⊢
    rw [checkAfter_loop hpc]
    obtain ⟨hmatched, hrc, rfl⟩ := waitLoop_block hloop
    rw [if_pos ⟨hmatched, hrc⟩]
    refine ⟨hs.1.answered (fun htimed hne => ?_) _ _, fun _ => rfl⟩
    obtain ⟨timeout, htimeout⟩ := Option.isSome_iff_exists.mp htimed
    obtain ⟨-, hvalid, -⟩ := hs.1 timeout htimeout
    -- a valid deadline is not refused
    rcases (hkernel frame _ hpc htimed hloop).2 rc rfl with ⟨-, hinvalid⟩ | ⟨-, -, hpassed⟩
    · exact absurd hvalid hinvalid
    · exact hpassed
  | park t frame frame' hpc hloop =>
    show Punctual _ _ _ ((s.event.goto t _).pc t)
    simp only [actor, hpc] at hs
    rw [hself, actor, checkAfter_loop hpc]
    obtain ⟨hmatched, hrc, rfl⟩ := waitLoop_block hloop
    rw [if_pos ⟨hmatched, hrc⟩]
    exact ⟨hs.1, rfl⟩
  | wake t rc frame hpc =>
    simp only [actor, hself, hpc] at hs ⊢
    refine ⟨hs.1.answered (fun htimed hne => ?_) frame.matched frame.fresh, hs.2⟩
    rcases hkernel frame hpc htimed with hzero | ⟨-, hpassed⟩
    · exact absurd hzero hne
    · exact hpassed

/-- What holds in every state of a run. -/
structure TimedOk (s : TimedState T) : Prop where
  held : MutexHeld s.event
  punctual : ∀ t, Punctual s.now (s.reading t) (s.lastCheck t) (s.event.pc t)

omit [DecidableEq T] in
/-- No thread waits at the start. -/
theorem timedOk_start (value : UInt32) (now : ℤ) : TimedOk (T := T) (timedStart value now) :=
  ⟨mutexHeld_start value, fun _ => trivial⟩

/-- The others stay punctual too. -/
theorem timedOk_step {i : TimedAct T} {out : Option (EventObs T)} (hs : TimedOk s)
    (hkernel : kernelAnswers s i) (hcarry : readsNoCarry s i)
    (hstep : timedStep s i = some (out, s')) : TimedOk s' := by
  cases i with
  | tick later =>
    obtain ⟨-, rfl⟩ := Prod.mk.inj (Option.some.inj hstep)
    exact ⟨hs.held, fun t => (hs.punctual t).later later⟩
  | act a =>
    obtain ⟨⟨o, event⟩, hevent, hout⟩ := Option.map_eq_some_iff.mp hstep
    obtain ⟨-, rfl⟩ := Prod.mk.inj hout
    have hmove := eventMove_of_step hevent
    refine ⟨mutexHeld_step hmove hs.held, fun u => ?_⟩
    by_cases hu : u = actor a
    · subst hu
      exact punctual_actor hmove hkernel hcarry (hs.punctual _)
    · show Punctual s.now (readingAfter s a u) (checkAfter s a u) (event.pc u)
      rw [readingAfter_other hu, checkAfter_other hu]
      have hold := hs.punctual u
      rcases others_step hmove hs.held hu with
        ⟨hpc, -⟩ | ⟨-, set, hpc, -⟩ | ⟨-, t, frame, -, -, hpc, -⟩
      · rw [hpc]
        exact hold
      · rw [hpc]
        exact hold.broadcast
      · rw [hpc]
        exact hold

/-- A timed wait that returns `ETIMEDOUT` was behind its loop without a match.
SOURCE: event1.c:116-126 -/
theorem notEarly_step {event : EventState T} (hs : TimedOk s)
    (hmove : EventMove s.event a o event) :
    NotEarly ⟨event, s.now, readingAfter s a, checkAfter s a⟩ o := by
  intro t call timeout recved hret htimeout
  cases hmove with
  | finish u frame hpc =>
    have hok := hs.punctual u
    rw [hpc] at hok
    obtain ⟨hontime, hcheck, hover⟩ := hok
    cases hmatched : frame.matched with
    | true => simp [waitResult, hmatched, ETIMEDOUT] at hret
    | false =>
      simp only [waitResult, hmatched, Option.some.injEq, EventRet.mk.injEq, EventCall.wait.injEq]
        at hret
      obtain ⟨rfl, rfl, -⟩ := hret
      obtain ⟨hts, -, hpassed⟩ := hontime timeout htimeout
      have hdeadline := hpassed (hover hmatched)
      rw [hts, nanoseconds_deadline] at hdeadline
      rw [hmatched] at hcheck
      exact ⟨hdeadline, hcheck⟩
  | callNull => simp [EINVAL, ETIMEDOUT] at hret
  | clockFails => simp [ETIMEDOUT] at hret
  | _ => simp at hret

/-- Without a carry no timed wait returns `ETIMEDOUT` early. -/
theorem notEarly_run {value : UInt32} {now : ℤ} {h : List (TimedAct T × Option (EventObs T))}
    (hrun : (timedMachine T).Run (fun s i => kernelAnswers s i ∧ readsNoCarry s i)
      (timedStart value now) h s) {a : EventAct T}
    (hstep : timedStep s (.act a) = some (some o, s')) : NotEarly s' o := by
  have hs := hrun.invariant (fun _ s => TimedOk s) (timedOk_start value now)
    fun _ s i out s' hs hmet hstep => timedOk_step hs hmet.1 hmet.2 hstep
  obtain ⟨⟨o', event⟩, hevent, hout⟩ := Option.map_eq_some_iff.mp hstep
  obtain ⟨hsame, rfl⟩ := Prod.mk.inj hout
  obtain rfl := Option.some.inj hsame
  exact notEarly_step hs (eventMove_of_step hevent)

/-! ## With a carry -/

/-- A run goes on with a step of a thread. -/
theorem run_act {s₀ : TimedState T} {h : List (TimedAct T × Option (EventObs T))}
    {event : EventState T} (hrun : (timedMachine T).Run kernelAnswers s₀ h s)
    (hevent : eventStep s.event a = some (o, event)) (hkernel : kernelAnswers s (.act a)) :
    (timedMachine T).Run kernelAnswers s₀ (h ++ [(.act a, some o)])
      ⟨event, s.now, readingAfter s a, checkAfter s a⟩ := by
  refine hrun.next hkernel ?_
  show (eventStep s.event a).map _ = _
  rw [hevent]
  rfl

/-- Thread `t` alone is not idle. -/
def alone (value : UInt32) (owner : Option T) (t : T) (pc : EventPc) : EventState T :=
  ⟨value, owner, Function.update (fun _ => .idle) t pc⟩

/-- The flags of an event with one thread. -/
@[simp] theorem alone_value (value : UInt32) (owner : Option T) (t : T) (pc : EventPc) :
    (alone value owner t pc).value = value := rfl

/-- The owner of its mutex. -/
@[simp] theorem alone_owner (value : UInt32) (owner : Option T) (t : T) (pc : EventPc) :
    (alone value owner t pc).owner = owner := rfl

/-- Where its thread is. -/
@[simp] theorem alone_pc (value : UInt32) (owner : Option T) (t : T) (pc : EventPc) :
    (alone value owner t pc).pc t = pc := by
  simp [alone]

/-- Its thread moves. -/
@[simp] theorem alone_goto (value : UInt32) (owner : Option T) (t : T) (pc pc' : EventPc) :
    (alone value owner t pc).goto t pc' = alone value owner t pc' := by
  unfold alone EventState.goto
  rw [Function.update_idem]

/-- The first check of a timed wait, when the condition wait refuses its deadline, and what
follows.
SOURCE: event1.c:101-126 -/
theorem exec_refused (t : T) {value : UInt32} {call : WaitCall} {timeout : UInt32}
    (htimeout : call.timeout = some timeout)
    (hfails : eventMatch value call.set call.option = false) (ts : Timespec) :
    ∃ frame, waitLoop value frame = .leave frame ∧ frame.call = call ∧ frame.matched = false ∧
      eventStep (alone value (some t) t (.looping (startFrame call ts))) (.loop t (some EINVAL)) =
        some (⟨value, value, none⟩, alone value (some t) t (.looping frame)) := by
  have hblock : waitLoop value (startFrame call ts) = .block (startFrame call ts) := by
    rw [waitLoop_timed (Option.isSome_of_eq_some htimeout) rfl rfl]
    simp [startFrame, hfails]
  refine ⟨{ startFrame call ts with rc := EINVAL, fresh := false }, ?_, rfl, rfl, ?_⟩
  · exact waitLoop_over (.inr (show EINVAL ≠ 0 by decide))
  · simp [eventStep, hblock, silent]

/-- **With a carry a timed wait returns `ETIMEDOUT` at once** when its condition does not
hold.
SOURCE: event1.c:84-127 -/
theorem early_of_carry (t : T) {call : WaitCall} {timeout : UInt32} (hrecved : call.recved = true)
    (htimeout : call.timeout = some timeout) {value : UInt32}
    (hfails : eventMatch value call.set call.option = false) {now : ℤ}
    (hcarry : ¬ noCarry (clockReading now) timeout) :
    ∃ h s o s', (timedMachine T).Run kernelAnswers (timedStart value now) h s ∧
      timedStep s (.act (.finish t)) = some (some o, s') ∧
      o.ret = some ⟨t, .wait call, ETIMEDOUT, none⟩ ∧ s'.now = now ∧
      s'.reading t = clockReading now := by
  have hinvalid : ¬ ValidTimespec (deadline (clockReading now) timeout) :=
    mt (deadline_valid_iff (clockReading_valid now) timeout).mp hcarry
  have hcalled : eventStep (eventStart value) (.call t (.wait call)) =
      some (⟨value, value, none⟩, alone value none t (.waitEntry call)) := by
    simp only [eventStep, eventStart, hrecved]
    rfl
  have hlocked : eventStep (alone value none t (.waitEntry call)) (.lock t) =
      some (⟨value, value, none⟩, alone value (some t) t (.clock call)) := by
    simp [eventStep, htimeout, silent]
    rfl
  have hread :
      eventStep (alone value (some t) t (.clock call)) (.clock t (some (clockReading now))) =
      some (⟨value, value, none⟩,
        alone value (some t) t
            (.looping (startFrame call (deadline (clockReading now) timeout)))) := by
    simp [eventStep, htimeout, silent]
  obtain ⟨frame, hloop, hcall, hmatched, hrefused⟩ :=
    exec_refused t htimeout hfails (deadline (clockReading now) timeout)
  have hleft : eventStep (alone value (some t) t (.looping frame)) (.loop t none) =
      some (⟨value, value, none⟩, alone value (some t) t (.finishing frame)) := by
    simp [eventStep, hloop, silent]
  have hfinished : eventStep (alone value (some t) t (.finishing frame)) (.finish t) =
      some (⟨value, value, some ⟨t, .wait call, ETIMEDOUT, none⟩⟩, alone value none t .idle) := by
    simp [eventStep, waitResult, valueAfter, hmatched, hcall, returns, alone]
  have hrun₁ := run_act (s := timedStart value now) .start hcalled trivial
  have hrun₂ := run_act hrun₁ hlocked trivial
  have hrun₃ := run_act hrun₂ hread rfl
  have hrun₄ := run_act hrun₃ hrefused <| by
    intro first _ hpc _ _
    rw [alone_pc] at hpc
    obtain rfl := EventPc.looping.inj hpc
    refine ⟨fun hblocks => absurd hblocks (by simp), fun rc hrc => .inl ⟨?_, hinvalid⟩⟩
    exact (Option.some.inj hrc).symm
  have hrun₅ := run_act hrun₄ hleft <| by
    intro refused _ hpc _ hblock
    rw [alone_pc] at hpc
    obtain rfl := EventPc.looping.inj hpc
    exact absurd (hloop.symm.trans hblock) (by simp)
  refine ⟨_, _, _, _, hrun₅, Option.map_eq_some_iff.mpr ⟨_, hfinished, rfl⟩, rfl, rfl, ?_⟩
  exact Function.update_self ..

end Ctools.Analysis

open Ctools.Library Ctools.Program Ctools.Interface in
/-- **When timeouts are not reported early.**  The deadline is a valid `timespec` for the
reading and the timeout after it if and only if their nanoseconds make less than a second.
In every run in which they do, a timed wait that returns `ETIMEDOUT` does so when its
timeout has passed and its last check found its condition false; and from every reading of
which they do not, a timed wait whose condition does not hold returns `ETIMEDOUT` early.
SOURCE: event1.c:84-127 -/
theorem Ctools.Analysis.timedwait_not_early_iff {T : Type} [DecidableEq T] :
    (∀ now timeout, ValidTimespec now → (ValidTimespec (deadline now timeout) ∧
      nanoseconds (deadline now timeout) = nanoseconds now + timeout.toNat * 10 ^ 6 ↔
        noCarry now timeout)) ∧
    (∀ value now h (s : TimedState T), (timedMachine T).Run
      (fun s i => kernelAnswers s i ∧ readsNoCarry s i) (timedStart value now) h s →
        ∀ a o s', timedStep s (.act a) = some (some o, s') → NotEarly s' o) ∧
    ∀ (t : T) (call : WaitCall) timeout value now, call.recved = true →
      call.timeout = some timeout → eventMatch value call.set call.option = false →
        ¬ noCarry (clockReading now) timeout → ∃ h s o s',
          (timedMachine T).Run kernelAnswers (timedStart value now) h s ∧
            timedStep s (.act (.finish t)) = some (some o, s') ∧ ¬ NotEarly s' o := by
  refine ⟨?_, ?_, ?_⟩
  · intro now timeout hnow
    rw [Analysis.deadline_valid_iff hnow]
    exact and_iff_left (Analysis.nanoseconds_deadline now timeout)
  · intro value now h s hrun a o s' hstep
    exact Analysis.notEarly_run hrun hstep
  · intro t call timeout value now hrecved htimeout hfails hcarry
    obtain ⟨h, s, o, s', hrun, hstep, hret, hnow, hreading⟩ :=
      Analysis.early_of_carry t hrecved htimeout hfails hcarry
    refine ⟨h, s, o, s', hrun, hstep, fun hnot => ?_⟩
    have hpassed := (hnot t call timeout none hret htimeout).1
    rw [hnow, hreading, Analysis.nanoseconds_clockReading] at hpassed
    have hzero : timeout = 0 := UInt32.toNat_inj.mp (show timeout.toNat = 0 by omega)
    rw [hzero] at hcarry
    exact hcarry (Analysis.noCarry_zero (Analysis.clockReading_valid now))

open Ctools.Library Ctools.Program Ctools.Interface in
/-- A wait of 10 ms at 999 ms past a second: the deadline is not valid, and the wait returns
`ETIMEDOUT` at the time it was called. -/
theorem Ctools.Analysis.timedwait_early :
    ¬ ValidTimespec (deadline ⟨0, 999000000⟩ 10) ∧
    ∃ h s o s', (timedMachine (Fin 1)).Run kernelAnswers (timedStart 0 999000000) h s ∧
      timedStep s (.act (.finish 0)) = some (some o, s') ∧
      o.ret = some ⟨0, .wait ⟨1, EVENT_FLAG_AND, some 10, true⟩, ETIMEDOUT, none⟩ ∧
      s'.now = 999000000 ∧ nanoseconds (s'.reading 0) + 10 * 10 ^ 6 = 1009000000 := by
  have hrecved : (⟨1, EVENT_FLAG_AND, some 10, true⟩ : WaitCall).recved = true := rfl
  have hfails : eventMatch 0 1 EVENT_FLAG_AND = false := by decide
  have hcarry : ¬ noCarry (clockReading 999000000) 10 := by decide
  obtain ⟨h, s, o, s', hrun, hstep, hret, hnow, hreading⟩ :=
    Analysis.early_of_carry (0 : Fin 1) hrecved rfl hfails hcarry
  refine ⟨by decide, h, s, o, s', hrun, hstep, hret, hnow, ?_⟩
  rw [hreading]
  decide
