import Ctools.Program.IoProbe

/-!
# What the pin of a probe shows

`value` is the number of entries that all activations have yet to leave (`Counts`), so the
last of them to be left clears the pin.  The interrupted code sets the pin in an entry that
finds 0, before it counts itself: a handler that enters and leaves in between takes itself
for the only one and clears it again.  In runs in which none does, the pin is set whenever
the interrupted code is between an entry and its exit (`Shows`).
-/

set_option autoImplicit false

namespace Ctools.Analysis

open Ctools.Library Ctools.Program

/-- What a step of an activation does. -/
inductive ProbeMove (obj : IoProbe) (frame : ProbeFrame) : ProbeAct → IoProbe → ProbeFrame → Prop
  | test (hpc : frame.pc = .idle) :
      ProbeMove obj frame .test ⟨obj.value, obj.level || decide (obj.value = 0)⟩
        ⟨frame.opened, .entering⟩
  | increment (hpc : frame.pc = .entering) :
      ProbeMove obj frame .increment ⟨obj.value + 1, obj.level⟩ ⟨frame.opened + 1, .idle⟩
  | decrement {opened : ℕ} (hpc : frame.pc = .idle) (hopened : frame.opened = opened + 1) :
      ProbeMove obj frame .decrement ⟨obj.value - 1, obj.level⟩
        ⟨opened, .exiting (obj.value - 1 = 0)⟩
  | clear {zero : Bool} (hpc : frame.pc = .exiting zero) :
      ProbeMove obj frame .clear ⟨obj.value, obj.level && !zero⟩ ⟨frame.opened, .idle⟩

/-- SOURCE: io_probe.h:10-23 -/
theorem probeMove_of_step {obj obj' : IoProbe} {frame frame' : ProbeFrame} {i : ProbeAct}
    (h : probeStep obj frame i = some (obj', frame')) : ProbeMove obj frame i obj' frame' := by
  obtain ⟨value, level⟩ := obj
  obtain ⟨opened, pc⟩ := frame
  cases i with
  | test =>
    cases pc with
    | idle =>
      simp only [probeStep, Option.some.injEq, Prod.mk.injEq] at h
      obtain ⟨rfl, rfl⟩ := h
      have hmove : ProbeMove ⟨value, level⟩ ⟨opened, .idle⟩ .test _ _ := .test rfl
      by_cases hzero : value = 0 <;> simpa [hzero] using hmove
    | _ => cases h
  | increment =>
    cases pc with
    | entering =>
      simp only [probeStep, intValue] at h
      split at h
      · cases h
        exact .increment rfl
      · cases h
    | _ => cases h
  | decrement =>
    cases pc with
    | idle =>
      cases opened with
      | zero => cases h
      | succ opened =>
        simp only [probeStep, intValue] at h
        split at h
        · cases h
          exact .decrement rfl rfl
        · cases h
    | _ => simp [probeStep] at h
  | clear =>
    cases pc with
    | exiting zero =>
      simp only [probeStep, Option.some.injEq, Prod.mk.injEq] at h
      obtain ⟨rfl, rfl⟩ := h
      have hmove : ProbeMove ⟨value, level⟩ ⟨opened, .exiting zero⟩ .clear _ _ := .clear rfl
      cases zero <;> simpa using hmove
    | _ => cases h

/-! ## The counter -/

/-- The entries that some activations have yet to leave. -/
def openedIn (frames : List ProbeFrame) : ℕ := (frames.map ProbeFrame.opened).sum

/-- The entries of the innermost handler. -/
@[simp] theorem openedIn_cons (frame : ProbeFrame) (frames : List ProbeFrame) :
    openedIn (frame :: frames) = frame.opened + openedIn frames := by
  simp [openedIn]

/-- Inside an entry, or inside an exit that found 0. -/
def SetsPin (pc : ProbePc) : Prop := pc = .entering ∨ pc = .exiting true

/-- `value` counts the open entries, and the pin is set only with an open entry, or inside a
call that is about to open one or to clear the pin. -/
structure Counts (s : Interrupted IoProbe ProbeFrame) : Prop where
  value_eq : s.shared.value = openedIn s.frames
  level : s.shared.level = true → 0 < openedIn s.frames ∨ ∃ f ∈ s.frames, SetsPin f.pc

variable {s s' : Interrupted IoProbe ProbeFrame} {a : InterruptAct ProbeAct}

/-- SOURCE: io_probe.h:10-23 -/
theorem Counts.step (hs : Counts s) (hmove : InterruptMove probeCode s a s') : Counts s' := by
  obtain ⟨hvalue, hlevel⟩ := hs
  obtain ⟨obj, handlers', base'⟩ := s'
  rcases frames_of_move hmove with ⟨i, top, top', rest, -, hstep, hframes, hframes'⟩ |
    ⟨hshared, hframes'⟩ | ⟨top, hended, hshared, hframes⟩
  · have hprobe := probeMove_of_step hstep
    rw [hframes, openedIn_cons] at hvalue hlevel
    rw [List.exists_mem_cons_iff] at hlevel
    have hkept : (∃ f ∈ rest, SetsPin f.pc) → ∃ f ∈ top' :: rest, SetsPin f.pc := by
      rintro ⟨f, hf, hsets⟩
      exact ⟨f, List.mem_cons_of_mem _ hf, hsets⟩
    refine ⟨?_, fun hset => ?_⟩ <;> rw [hframes', openedIn_cons]
    · cases hprobe with
      | test hpc => exact hvalue
      | increment hpc => push_cast at hvalue ⊢; omega
      | decrement hpc hopened => rw [hopened] at hvalue; push_cast at hvalue ⊢; omega
      | clear hpc => exact hvalue
    · cases hprobe with
      | test hpc => exact .inr ⟨_, List.mem_cons_self, .inl rfl⟩
      | increment hpc => exact .inl (by show 0 < top.opened + 1 + openedIn rest; omega)
      | @decrement opened hpc hopened =>
        by_cases hzero : s.shared.value - 1 = 0
        · exact .inr ⟨_, List.mem_cons_self, .inr (congrArg ProbePc.exiting (decide_eq_true hzero))⟩
        · refine .inl ?_
          show 0 < opened + openedIn rest
          omega
      | @clear zero hpc =>
        have hold : s.shared.level = true ∧ zero = false := by simpa using hset
        rcases hlevel hold.1 with hopen | hself | hrest
        · exact .inl hopen
        · rw [SetsPin, hpc, hold.2] at hself
          simp at hself
        · exact .inr (hkept hrest)
  · refine ⟨?_, fun hset => ?_⟩ <;> rw [hframes', openedIn_cons]
    · rw [hshared]
      simpa [probeCode] using hvalue
    · rw [hshared] at hset
      refine (hlevel hset).imp (fun hopen => ?_) ?_
      · simpa [probeCode] using hopen
      · rintro ⟨f, hf, hsets⟩
        exact ⟨f, List.mem_cons_of_mem _ hf, hsets⟩
  · have htop : top = ⟨0, .idle⟩ := by simpa [probeCode] using hended
    rw [hframes, htop, openedIn_cons, Nat.zero_add] at hvalue hlevel
    refine ⟨?_, fun hset => ?_⟩
    · rw [hshared]
      exact hvalue
    · rw [hshared] at hset
      refine (hlevel hset).imp_right ?_
      rintro ⟨f, hf, hsets⟩
      rcases List.mem_cons.mp hf with rfl | hin
      · simp [SetsPin] at hsets
      · exact ⟨f, hin, hsets⟩

/-! ## The interrupted code -/

/-- No handler begins an entry while the interrupted code is inside one that found 0 and has
not counted itself yet. -/
def gapQuiet (s : Interrupted IoProbe ProbeFrame) (a : InterruptAct ProbeAct) : Prop :=
  ¬ (a = .run .test ∧ s.handlers ≠ [] ∧ s.base.pc = .entering ∧ s.shared.value = 0)

instance (s : Interrupted IoProbe ProbeFrame) (a : InterruptAct ProbeAct) :
    Decidable (gapQuiet s a) :=
  inferInstanceAs (Decidable (¬ _))

/-- With an entry of the interrupted code to be left the pin is set and nobody is about to
clear it; in the gap of its first entry the pin is set and no handler has done anything. -/
structure Lit (s : Interrupted IoProbe ProbeFrame) : Prop where
  opened : 0 < s.base.opened → s.shared.level = true ∧ ∀ f ∈ s.frames, f.pc ≠ .exiting true
  gap : s.base.pc = .entering → s.base.opened = 0 →
    s.shared.level = true ∧ ∀ f ∈ s.handlers, f = ⟨0, .idle⟩

/-- The entries of all handlers and of the program they interrupt. -/
theorem openedIn_frames (s : Interrupted IoProbe ProbeFrame) :
    openedIn s.frames = openedIn s.handlers + s.base.opened := by
  simp [openedIn, Interrupted.frames]

/-- A step of the interrupted code.
SOURCE: io_probe.h:10-23 -/
theorem Lit.base {obj : IoProbe} {base : ProbeFrame} {i : ProbeAct} (hs : Lit s) (hcount : Counts s)
    (halone : s.handlers = []) (hprobe : ProbeMove s.shared s.base i obj base) :
    Lit ⟨obj, [], base⟩ := by
  have hvalue := hcount.value_eq
  rw [openedIn_frames, halone] at hvalue
  have hself : s.base ∈ s.frames := by simp [Interrupted.frames]
  cases hprobe with
  | test hpc =>
    refine ⟨fun hopen => ⟨?_, by simp [Interrupted.frames]⟩, fun _ hnone => ⟨?_, by simp⟩⟩
    · simp [(hs.opened hopen).1]
    · have hzero : s.shared.value = 0 := by
        have hnone : s.base.opened = 0 := hnone
        rw [hvalue, hnone]
        rfl
      simp [hzero]
  | increment hpc =>
    refine ⟨fun _ => ⟨?_, by simp [Interrupted.frames]⟩, fun hidle => by cases hidle⟩
    rcases Nat.eq_zero_or_pos s.base.opened with hnone | hopen
    · exact (hs.gap hpc hnone).1
    · exact (hs.opened hopen).1
  | @decrement opened hpc hopened =>
    refine ⟨fun hopen => ⟨(hs.opened (by omega)).1, ?_⟩, fun hleaving => by cases hleaving⟩
    have hlater : ¬ s.shared.value - 1 = 0 := by
      have hopen : 0 < opened := hopen
      rw [hvalue, hopened]
      simp only [openedIn, List.map_nil, List.sum_nil]
      omega
    simp [Interrupted.frames, hlater]
  | @clear zero hpc =>
    refine ⟨fun hopen => ⟨?_, by simp [Interrupted.frames]⟩, fun hidle => by cases hidle⟩
    obtain ⟨hlevel, hkeeps⟩ := hs.opened hopen
    have hzero : zero = false := by
      have hne := hkeeps s.base hself
      rw [hpc] at hne
      simpa using hne
    simp [hlevel, hzero]

/-- A step of a handler, which does not begin an entry in the gap.
SOURCE: io_probe.h:10-23 -/
theorem Lit.handler {obj : IoProbe} {top top' : ProbeFrame} {below : List ProbeFrame} {i : ProbeAct}
    (hs : Lit s) (hcount : Counts s) (hactive : s.handlers = top :: below)
    (hquiet : gapQuiet s (.run i)) (hprobe : ProbeMove s.shared top i obj top') :
    Lit ⟨obj, top' :: below, s.base⟩ := by
  have hvalue := hcount.value_eq
  rw [openedIn_frames, hactive, openedIn_cons] at hvalue
  have hframes : s.frames = top :: (below ++ [s.base]) := by simp [Interrupted.frames, hactive]
  -- In the gap the handler on top is idle, and the counter 0.
  have hidle : s.base.pc = .entering → s.base.opened = 0 →
      top = ⟨0, .idle⟩ ∧ s.shared.value = 0 := by
    intro hpc hnone
    have hall := (hs.gap hpc hnone).2
    rw [hactive] at hall
    have hbelow : openedIn below = 0 := by
      rw [openedIn, List.sum_eq_zero_iff]
      intro n hn
      obtain ⟨f, hf, rfl⟩ := List.mem_map.mp hn
      rw [hall f (List.mem_cons_of_mem _ hf)]
    have htop := hall top List.mem_cons_self
    refine ⟨htop, ?_⟩
    rw [hvalue, htop, hbelow, hnone]
    rfl
  have hnoGap : s.base.pc = .entering → s.base.opened = 0 → False := by
    intro hentering hnone
    obtain ⟨rfl, hzero⟩ := hidle hentering hnone
    cases hprobe with
    | test hpc => exact hquiet ⟨rfl, by simp [hactive], hentering, hzero⟩
    | increment hpc => cases hpc
    | decrement hpc hopened => cases hopened
    | clear hpc => cases hpc
  refine ⟨fun hopen => ?_, fun hentering hnone => (hnoGap hentering hnone).elim⟩
  have hopen : 0 < s.base.opened := hopen
  obtain ⟨hlevel, hkeeps⟩ := hs.opened hopen
  rw [hframes, List.forall_mem_cons] at hkeeps
  show obj.level = true ∧ ∀ f ∈ top' :: (below ++ [s.base]), f.pc ≠ .exiting true
  rw [List.forall_mem_cons]
  cases hprobe with
  | test hpc => exact ⟨by simp [hlevel], by simp, hkeeps.2⟩
  | increment hpc => exact ⟨hlevel, by simp, hkeeps.2⟩
  | @decrement opened hpc hopened =>
    have hlater : ¬ s.shared.value - 1 = 0 := by
      rw [hvalue, hopened]
      push_cast
      omega
    exact ⟨hlevel, by simp [hlater], hkeeps.2⟩
  | @clear zero hpc =>
    have hzero : zero = false := by
      have hne := hkeeps.1
      rw [hpc] at hne
      simpa using hne
    exact ⟨by simp [hlevel, hzero], by simp, hkeeps.2⟩

/-- **Every quiet step keeps the pin.** -/
theorem Lit.step (hs : Lit s) (hcount : Counts s) (hquiet : gapQuiet s a)
    (hmove : InterruptMove probeCode s a s') : Lit s' := by
  cases hmove with
  | base alone moved => exact hs.base hcount alone (probeMove_of_step moved)
  | handler active moved => exact hs.handler hcount active hquiet (probeMove_of_step moved)
  | interrupt =>
    refine ⟨fun hopen => ?_, fun hentering hnone => ?_⟩
    · obtain ⟨hlevel, hkeeps⟩ := hs.opened hopen
      exact ⟨hlevel, List.forall_mem_cons.mpr ⟨by simp [probeCode], hkeeps⟩⟩
    · obtain ⟨hlevel, hidle⟩ := hs.gap hentering hnone
      exact ⟨hlevel, List.forall_mem_cons.mpr ⟨rfl, hidle⟩⟩
  | @leave top below active ended =>
    refine ⟨fun hopen => ?_, fun hentering hnone => ?_⟩
    · obtain ⟨hlevel, hkeeps⟩ := hs.opened hopen
      rw [Interrupted.frames, active, List.cons_append, List.forall_mem_cons] at hkeeps
      exact ⟨hlevel, hkeeps.2⟩
    · obtain ⟨hlevel, hidle⟩ := hs.gap hentering hnone
      rw [active, List.forall_mem_cons] at hidle
      exact ⟨hlevel, hidle.2⟩

/-! ## What the pin shows -/

/-- With no handler active, the pin is set while the interrupted code has an entry to leave;
when nobody has one and all calls have returned, the pin and the counter are 0. -/
structure PinShows (s : Interrupted IoProbe ProbeFrame) : Prop where
  active : s.handlers = [] → 0 < s.base.opened → s.shared.level = true
  inactive : (∀ f ∈ s.frames, f = ⟨0, .idle⟩) → s.shared.level = false ∧ s.shared.value = 0

/-- Where all activations have returned, the counter and the pin are 0. -/
theorem Counts.inactive (hs : Counts s) (hidle : ∀ f ∈ s.frames, f = ⟨0, .idle⟩) :
    s.shared.level = false ∧ s.shared.value = 0 := by
  have hnone : openedIn s.frames = 0 := by
    rw [openedIn, List.sum_eq_zero_iff]
    intro n hn
    obtain ⟨f, hf, rfl⟩ := List.mem_map.mp hn
    rw [hidle f hf]
  refine ⟨Bool.eq_false_iff.mpr fun hset => ?_, by rw [hs.value_eq, hnone]; rfl⟩
  rcases hs.level hset with hopen | ⟨f, hf, hsets⟩
  · omega
  · rw [hidle f hf] at hsets
    simp [SetsPin] at hsets

/-- No entry is open at the start. -/
theorem counts_start : Counts probeStart := ⟨rfl, fun hset => by cases hset⟩

/-- Before the first entry. -/
theorem lit_start : Lit probeStart :=
  ⟨fun hopen => absurd hopen (Nat.lt_irrefl 0), fun hpc => by cases hpc⟩

/-- A quiet run keeps the counter and the pin. -/
theorem lit_of_run {h : List (InterruptAct ProbeAct × Unit)}
    (hrun : probeMachine.Run gapQuiet probeStart h s) : Counts s ∧ Lit s := by
  refine hrun.invariant (fun _ s => Counts s ∧ Lit s) ⟨counts_start, lit_start⟩ ?_
  rintro _ s a _ s' ⟨hcount, hlit⟩ hquiet hstep
  have hmove := interruptMove_of_step hstep
  exact ⟨hcount.step hmove, hlit.step hcount hquiet hmove⟩

/-! ## A handler in the gap -/

/-- An entry that a handler begins in the gap: the handlers may return, having cleared the
pin, and the interrupted code counts itself with the pin at 0. -/
theorem misses_of_not_gapQuiet (hcount : Counts s) (hlit : Lit s) (hloud : ¬ gapQuiet s a)
    (hmove : InterruptMove probeCode s a s') :
    ∃ h t, probeMachine.Run Machine.anyStep s' h t ∧ ¬ PinShows t := by
  rw [gapQuiet, not_not] at hloud
  obtain ⟨rfl, hactive, hentering, hzero⟩ := hloud
  have hnone : s.base.opened = 0 := by
    have hvalue := hcount.value_eq
    rw [hzero, openedIn_frames] at hvalue
    omega
  have hidle := (hlit.gap hentering hnone).2
  have hbase : s.base = ⟨0, .entering⟩ := by rw [← hentering, ← hnone]
  cases hmove with
  | base alone moved => exact absurd alone hactive
  | @handler i top top' below obj active moved =>
    rw [active, List.forall_mem_cons] at hidle
    have hover : ∀ f ∈ ⟨0, .idle⟩ :: below, probeCode.mayReturn f = true :=
      List.forall_mem_cons.mpr ⟨rfl, fun f hf => decide_eq_true (hidle.2 f hf)⟩
    have hbegun : obj = ⟨0, true⟩ ∧ top' = ⟨0, .entering⟩ := by
      have hmoved : probeStep s.shared ⟨0, .idle⟩ .test = some (obj, top') := by
        rw [← hidle.1]
        exact moved
      cases probeMove_of_step hmoved with
      | test hpc => simp [hzero]
    rw [hbegun.1, hbegun.2, hbase]
    let gap : ProbeFrame := ⟨0, .entering⟩
    have hcounted : probeMachine.step ⟨⟨0, false⟩, [], gap⟩ (.run .increment) =
        some ((), ⟨⟨1, false⟩, [], ⟨1, .idle⟩⟩) := rfl
    obtain ⟨h, hreturned⟩ :=
      run_leave (c := probeCode) ⟨0, false⟩ gap hover (.prepend trivial hcounted .start)
    have hclear : probeMachine.step ⟨⟨0, true⟩, ⟨0, .exiting true⟩ :: below, gap⟩ (.run .clear) =
        some ((), ⟨⟨0, false⟩, ⟨0, .idle⟩ :: below, gap⟩) := rfl
    have hdecrement : probeMachine.step ⟨⟨1, true⟩, ⟨1, .idle⟩ :: below, gap⟩ (.run .decrement) =
        some ((), ⟨⟨0, true⟩, ⟨0, .exiting true⟩ :: below, gap⟩) := rfl
    have hincrement :
        probeMachine.step ⟨⟨0, true⟩, ⟨0, .entering⟩ :: below, gap⟩ (.run .increment) =
        some ((), ⟨⟨1, true⟩, ⟨1, .idle⟩ :: below, gap⟩) := rfl
    refine ⟨_, _, .prepend trivial hincrement (.prepend trivial hdecrement
      (.prepend trivial hclear hreturned)), fun hshows => ?_⟩
    exact absurd (hshows.active rfl Nat.one_pos) Bool.false_ne_true

end Ctools.Analysis

open Ctools.Library Ctools.Program Ctools.Analysis in
/-- **The probe pin shows activity.**  In every run of balanced entries and exits under
nested interrupts, in which no handler begins an entry while the interrupted code is
between the test and the increment of an entry that found 0, the pin is set whenever no
handler is active and the interrupted code is between an entry and its exit, and the pin
and the counter are 0 when all entries have been left.  A handler that begins one there can
be followed by steps to a state in which the pin is not set.
SOURCE: io_probe.h:4-23 -/
theorem Ctools.Analysis.probe_shows_activity {h : List (InterruptAct ProbeAct × Unit)}
    {s : Interrupted IoProbe ProbeFrame} (hrun : probeMachine.Run gapQuiet probeStart h s) :
    PinShows s ∧ ∀ a o s', probeMachine.step s a = some (o, s') → ¬ gapQuiet s a →
      ∃ h' t, probeMachine.Run Machine.anyStep s' h' t ∧ ¬ PinShows t := by
  obtain ⟨hcount, hlit⟩ := lit_of_run hrun
  refine ⟨⟨fun _ hopen => (hlit.opened hopen).1, hcount.inactive⟩, fun a o s' hstep hloud => ?_⟩
  exact misses_of_not_gapQuiet hcount hlit hloud (interruptMove_of_step hstep)

open Ctools.Library Ctools.Program Ctools.Analysis in
/-- An entry and its exit, both interrupted by handlers with entries and exits of their own,
one of them nested, but none in the gap of the entry. -/
theorem Ctools.Analysis.probe_shows_activity_nested :
    ∃ h s, probeMachine.Run gapQuiet probeStart h s ∧ h.length = 16 ∧ PinShows s := by
  have hrun := Machine.run_of_execUnder (m := probeMachine) gapQuiet probeStart
    [.run .test, .run .increment, .interrupt, .run .test, .interrupt, .run .test, .run .increment,
      .run .decrement, .run .clear, .leave, .run .increment, .run .decrement, .run .clear, .leave,
      .run .decrement, .run .clear] rfl
  exact ⟨_, _, hrun, rfl, (probe_shows_activity hrun).1⟩

open Ctools.Library Ctools.Program Ctools.Analysis in
/-- A handler enters and leaves between the test and the increment of the first entry: the
interrupted code is between its entry and its exit, and the pin is at 0.
SOURCE: io_probe.h:12-15 -/
theorem Ctools.Analysis.probe_misses_activity :
    ∃ h s, probeMachine.Run Machine.anyStep probeStart h s ∧ s.handlers = [] ∧
      s.base = ⟨1, .idle⟩ ∧ s.shared = ⟨1, false⟩ ∧ ¬ PinShows s := by
  have hrun := Machine.run_of_exec (m := probeMachine) probeStart
    [.run .test, .interrupt, .run .test, .run .increment, .run .decrement, .run .clear, .leave,
      .run .increment] rfl
  exact ⟨_, _, hrun, rfl, rfl, rfl,
    fun hshows => absurd (hshows.active rfl Nat.one_pos) Bool.false_ne_true⟩
