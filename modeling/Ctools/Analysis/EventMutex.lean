import Ctools.Analysis.EventMoves

/-!
# The mutex of an event is given back, unless the clock fails

`HeldInside` is the converse of `MutexHeld`: whoever holds the mutex is in its critical
section.  Every step keeps it but one, the return of `event_timedwait` when `clock_gettime`
fails (`heldInside_step`).  Where it holds the holder can give the mutex up by its own
steps, so every post gets through (`postsGetThrough_of_heldInside`).

After a failed `clock_gettime` the mutex is lost: its holder is outside its critical
section, every step keeps that (`lost_step`), and no post returns any more
(`blockedForGood_of_lost`).
-/

set_option autoImplicit false

namespace Ctools.Analysis

open Ctools.Library Ctools.Program

variable {T : Type}

/-- `clock_gettime` fails.
SOURCE: event1.c:93 -/
def clockFails : EventAct T → Bool
  | .clock _ none => true
  | _ => false

/-- The holder of the mutex is in its critical section, that is inside the body of a call
that has not returned. -/
def HeldInside (s : EventState T) : Prop := ∀ t, s.owner = some t → inSection (s.pc t) = true

/-- The mutex is held by a thread that is outside its critical section. -/
def Lost (s : EventState T) : Prop := ∃ t, s.owner = some t ∧ inSection (s.pc t) = false

/-- A post of `set` by `t` returns in a history. -/
def PostReturns (t : T) (set : UInt32) (h : List (EventAct T × EventObs T)) : Prop :=
  ∃ e ∈ h, e.2.ret = some ⟨t, .post set, 0, none⟩

variable [DecidableEq T]

/-- In some run from here a post of `set` by `t` returns. -/
def CanReturn (s : EventState T) (t : T) (set : UInt32) : Prop :=
  ∃ h s', (eventMachine T).Run Machine.anyStep s h s' ∧ PostReturns t set h

/-- Every post can return: of a thread that may call it now, or that waits for the mutex. -/
def PostsGetThrough (s : EventState T) : Prop :=
  ∀ t set, s.pc t = .idle ∨ s.pc t = .postEntry set → CanReturn s t set

/-- In no run from here a post returns. -/
def BlockedForGood (s : EventState T) : Prop :=
  ∀ h s', (eventMachine T).Run Machine.anyStep s h s' → ∀ t set, ¬ PostReturns t set h

/-- A call that returns non-zero has not changed `e->value`: no step of its thread has, from
the thread's return before it on. -/
def NonzeroUnchanged (h : List (EventAct T × EventObs T)) : Prop :=
  ∀ h₁ during a o h₂ r, h = h₁ ++ during ++ (a, o) :: h₂ → o.ret = some r → r.rc ≠ 0 →
    NotReturned r.thread during →
      ∀ e ∈ during ++ [(a, o)], actor e.1 = r.thread → e.2.before = e.2.after

/-! ## The holder -/

omit [DecidableEq T] in
/-- Nobody holds the mutex at the start. -/
theorem heldInside_start (value : UInt32) : HeldInside (eventStart (T := T) value) := by
  intro t ht
  cases ht

/-- A thread that moves without the mutex changing hands stays in its critical section. -/
theorem HeldInside.goto {s : EventState T} (hs : HeldInside s) {t : T} {pc : EventPc}
    (hpc : inSection (s.pc t) = true → inSection pc = true) : HeldInside (s.goto t pc) := by
  intro u hu
  have hin : inSection (s.pc u) = true := hs u hu
  by_cases hut : u = t
  · subst hut
    simpa [EventState.goto] using hpc hin
  · simpa [EventState.goto, hut] using hin

omit [DecidableEq T] in
/-- A free mutex has no holder. -/
theorem HeldInside.of_free {s : EventState T} (hfree : s.owner = none) : HeldInside s := by
  intro u hu
  rw [hfree] at hu
  cases hu

/-- A thread that takes the mutex enters its critical section. -/
theorem heldInside_take (s : EventState T) (t : T) {pc : EventPc} (hpc : inSection pc = true) :
    HeldInside { s.goto t pc with owner := some t } := by
  rintro u ⟨rfl⟩
  simpa [EventState.goto] using hpc

/-- Every step but the return of `event_timedwait` on a failed `clock_gettime` keeps the holder
in its critical section. -/
theorem heldInside_step {s s' : EventState T} {a : EventAct T} {o : EventObs T}
    (hmove : EventMove s a o s') (hclock : clockFails a = false) (hs : HeldInside s) :
    HeldInside s' := by
  cases hmove with
  | callNull t call hpc hrecved => exact hs
  | callPost t set hpc => exact hs.goto (by simp [hpc, inSection])
  | callWait t call hpc hrecved => exact hs.goto (by simp [hpc, inSection])
  | wake t rc frame hpc => exact hs.goto (by simp [hpc, inSection])
  | clock t call now hpc => exact hs.goto (fun _ => rfl)
  | leave t reject frame frame' hpc hloop => exact hs.goto (fun _ => rfl)
  | reject t rc frame frame' hpc hloop => exact hs.goto (fun _ => rfl)
  | lockPost t set hpc hfree => exact heldInside_take s t rfl
  | lockWait t call hpc hfree huntimed => exact heldInside_take s t rfl
  | lockTimedwait t call hpc hfree htimed => exact heldInside_take s t rfl
  | lockWoken t frame hpc hfree => exact heldInside_take s t rfl
  | post t set hpc => exact HeldInside.of_free rfl
  | park t frame frame' hpc hloop => exact HeldInside.of_free rfl
  | finish t frame hpc => exact HeldInside.of_free rfl
  | clockFails t call hpc => cases hclock

/-! ## Posts get through -/

/-- A step may be put before a run in which a post returns. -/
theorem CanReturn.of_move {s s' : EventState T} {a : EventAct T} {o : EventObs T} {t : T}
    {set : UInt32} (hmove : EventMove s a o s') (hs : CanReturn s' t set) : CanReturn s t set := by
  obtain ⟨h, s'', hrun, e, he, hret⟩ := hs
  exact ⟨(a, o) :: h, s'', hrun.prepend trivial (eventStep_of_move hmove), e,
    List.mem_cons_of_mem _ he, hret⟩

/-- A post returns from its critical section. -/
theorem canReturn_of_posting {s : EventState T} {t : T} {set : UInt32}
    (hpc : s.pc t = .posting set) : CanReturn s t set :=
  ⟨_, _, Machine.Run.prepend trivial (eventStep_of_move (.post t set hpc)) .start, _,
    List.mem_singleton_self _, rfl⟩

/-- With the mutex free a post that waits for it returns. -/
theorem canReturn_of_free {s : EventState T} {t : T} {set : UInt32}
    (hpc : s.pc t = .postEntry set) (hfree : s.owner = none) : CanReturn s t set :=
  .of_move (.lockPost t set hpc hfree) (canReturn_of_posting (by simp [EventState.goto]))

/-- The holder at the tail of its wait lets a post through. -/
theorem canReturn_of_finishing {s : EventState T} {t u : T} (htu : t ≠ u) {set : UInt32}
    {frame : WaitFrame} (hpc : s.pc t = .postEntry set) (hholder : s.pc u = .finishing frame) :
    CanReturn s t set :=
  .of_move (.finish u frame hholder) (canReturn_of_free (by simp [htu, hpc]) rfl)

/-- The holder in its loop lets a post through, by leaving the loop or by the condition wait. -/
theorem canReturn_of_looping {s : EventState T} {t u : T} (htu : t ≠ u) {set : UInt32}
    {frame : WaitFrame} (hpc : s.pc t = .postEntry set) (hholder : s.pc u = .looping frame) :
    CanReturn s t set := by
  cases hloop : waitLoop s.value frame with
  | leave frame' =>
    have hfinishing : (s.goto u (.finishing frame')).pc u = .finishing frame' := by
      simp [EventState.goto]
    exact .of_move (.leave u none frame frame' hholder hloop)
      (canReturn_of_finishing htu (by simp [EventState.goto, htu, hpc]) hfinishing)
  | block frame' =>
    exact .of_move (.park u frame frame' hholder hloop)
      (canReturn_of_free (by simp [EventState.goto, htu, hpc]) rfl)

/-- A post that waits for the mutex returns once the holder, from wherever it is in its critical
section, has given the mutex up: at the end of its post, at the tail of its wait, or in the
condition wait. -/
theorem canReturn_of_postEntry {s : EventState T} (hs : HeldInside s) {t : T} {set : UInt32}
    (hpc : s.pc t = .postEntry set) : CanReturn s t set := by
  cases howner : s.owner with
  | none => exact canReturn_of_free hpc howner
  | some u =>
    have hin := hs u howner
    have htu : t ≠ u := by
      rintro rfl
      rw [hpc] at hin
      cases hin
    cases hholder : s.pc u with
    | posting set' =>
      exact .of_move (.post u set' hholder) (canReturn_of_free (by simp [htu, hpc, broadcast]) rfl)
    | clock call =>
      refine .of_move (.clock u call ⟨0, 0⟩ hholder)
        (canReturn_of_looping htu ?_ (by simp [EventState.goto]; rfl))
      simp [EventState.goto, htu, hpc]
    | looping frame => exact canReturn_of_looping htu hpc hholder
    | finishing frame => exact canReturn_of_finishing htu hpc hholder
    | _ =>
      rw [hholder] at hin
      cases hin

/-- With the holder in its critical section, every post gets through. -/
theorem postsGetThrough_of_heldInside {s : EventState T} (hs : HeldInside s) :
    PostsGetThrough s := by
  rintro t set (hidle | hentry)
  · have hinside : HeldInside (s.goto t (.postEntry set)) := hs.goto (by simp [hidle, inSection])
    exact .of_move (.callPost t set hidle)
      (canReturn_of_postEntry hinside (by simp [EventState.goto]))
  · exact canReturn_of_postEntry hs hentry

/-! ## A lost mutex -/

omit [DecidableEq T] in
/-- With the mutex lost no thread is in a critical section. -/
theorem Lost.outside {s : EventState T} (hheld : MutexHeld s) (hs : Lost s) (u : T) :
    inSection (s.pc u) = false := by
  obtain ⟨t, howner, hout⟩ := hs
  refine Bool.eq_false_iff.mpr fun hin => ?_
  have hut : u = t := Option.some.inj ((hheld u hin).symm.trans howner)
  rw [hut, hout] at hin
  cases hin

/-- A thread that moves outside the critical sections leaves the mutex lost. -/
theorem Lost.goto {s : EventState T} (hs : Lost s) {t : T} {pc : EventPc}
    (hpc : inSection pc = false) : Lost (s.goto t pc) := by
  obtain ⟨u, howner, hout⟩ := hs
  refine ⟨u, howner, ?_⟩
  by_cases hut : u = t
  · subst hut
    simpa [EventState.goto] using hpc
  · simpa [EventState.goto, hut] using hout

omit [DecidableEq T] in
/-- A lost mutex is not free. -/
theorem Lost.not_free {s : EventState T} (hs : Lost s) : s.owner ≠ none := by
  obtain ⟨u, howner, -⟩ := hs
  simp [howner]

/-- Every step leaves a lost mutex lost, and in none a post returns: a thread would have to be
in its critical section, or to take the mutex. -/
theorem lost_step {s s' : EventState T} {a : EventAct T} {o : EventObs T}
    (hmove : EventMove s a o s') (hheld : MutexHeld s) (hs : Lost s) :
    Lost s' ∧ ∀ t set, o.ret ≠ some ⟨t, .post set, 0, none⟩ := by
  have hout := hs.outside hheld
  cases hmove with
  | callNull t call hpc hrecved => exact ⟨hs, by simp⟩
  | callPost t set hpc => exact ⟨hs.goto rfl, by simp⟩
  | callWait t call hpc hrecved => exact ⟨hs.goto rfl, by simp⟩
  | wake t rc frame hpc => exact ⟨hs.goto rfl, by simp⟩
  | lockPost t set hpc hfree => exact absurd hfree hs.not_free
  | lockWait t call hpc hfree huntimed => exact absurd hfree hs.not_free
  | lockTimedwait t call hpc hfree htimed => exact absurd hfree hs.not_free
  | lockWoken t frame hpc hfree => exact absurd hfree hs.not_free
  | post t set hpc | clock t call now hpc | clockFails t call hpc
  | leave t reject frame frame' hpc hloop | reject t rc frame frame' hpc hloop
  | park t frame frame' hpc hloop | finish t frame hpc =>
    have hfalse := hout t
    rw [hpc] at hfalse
    cases hfalse

/-- A failed `clock_gettime` loses the mutex: its caller returns with it.
SOURCE: event1.c:93-96 -/
theorem lost_of_clockFails {s s' : EventState T} {a : EventAct T} {o : EventObs T}
    (hmove : EventMove s a o s') (hheld : MutexHeld s) (hclock : clockFails a = true) :
    Lost s' := by
  cases hmove with
  | clockFails t call hpc =>
    exact ⟨t, hheld t (by rw [hpc]; rfl), by simp [EventState.goto, inSection]⟩
  | _ => cases hclock

/-- A lost mutex blocks all posts for good. -/
theorem blockedForGood_of_lost {s : EventState T} (hheld : MutexHeld s) (hs : Lost s) :
    BlockedForGood s := by
  intro h s' hrun t set
  have hinv := hrun.invariant_shows (fun s => MutexHeld s ∧ Lost s)
    (fun o => ∀ t set, o.ret ≠ some ⟨t, .post set, 0, none⟩) ⟨hheld, hs⟩
    (fun s a o s' hs _ hstep =>
      have hmove := eventMove_of_step hstep
      have hlost := lost_step hmove hs.1 hs.2
      ⟨⟨mutexHeld_step hmove hs.1, hlost.1⟩, hlost.2⟩)
  rintro ⟨e, he, hret⟩
  exact hinv.2 e he t set hret

/-! ## Returns -/

/-- A step returns only from a call of its own thread, and changes `e->value` only if it returns
0. -/
structure ReturnsOwn (e : EventAct T × EventObs T) : Prop where
  thread : ∀ r, e.2.ret = some r → r.thread = actor e.1
  unchanged : (∀ r, e.2.ret = some r → r.rc ≠ 0) → e.2.before = e.2.after

/-- A call that returns is the one that was made. -/
theorem returnsOwn_of_move {s s' : EventState T} {a : EventAct T} {o : EventObs T}
    (hmove : EventMove s a o s') : ReturnsOwn (a, o) := by
  cases hmove with
  | post t set hpc => exact ⟨by rintro r ⟨rfl⟩; rfl, fun hrc => absurd rfl (hrc _ rfl)⟩
  | finish t frame hpc =>
    refine ⟨by rintro r ⟨rfl⟩; rfl, fun hrc => ?_⟩
    have hunmatched : frame.matched = false := by
      refine Bool.eq_false_iff.mpr fun hmatched => hrc _ rfl ?_
      simp [waitResult, hmatched]
    simp [valueAfter, hunmatched]
  | callNull t call hpc hrecved | clockFails t call hpc =>
    exact ⟨by rintro r ⟨rfl⟩; rfl, fun _ => rfl⟩
  | _ => exact ⟨by simp, fun _ => rfl⟩

/-- In every run a call that returns non-zero has not changed `e->value`. -/
theorem nonzeroUnchanged_run {value : UInt32} {h : List (EventAct T × EventObs T)}
    {s : EventState T} (hrun : (eventMachine T).Run Machine.anyStep (eventStart value) h s) :
    NonzeroUnchanged h := by
  have hsteps := (hrun.invariant_steps (fun _ => True) ReturnsOwn trivial
    fun s a o s' _ _ hstep => ⟨trivial, returnsOwn_of_move (eventMove_of_step hstep)⟩).2
  intro h₁ during a o h₂ r hsplit hret hrc hnot e he hactor
  have hmem : e ∈ h := by
    rw [hsplit]
    rcases List.mem_append.mp he with hin | hlast
    · simp [hin]
    · simp [List.mem_singleton.mp hlast]
  refine (hsteps e hmem).unchanged fun r' hret' => ?_
  rcases List.mem_append.mp he with hin | hlast
  · -- the step is of the call's own thread, which does not return there
    exact absurd (((hsteps e hmem).thread r' hret').trans hactor) (hnot e hin r' hret')
  · obtain rfl := List.mem_singleton.mp hlast
    rw [Option.some.inj (hret'.symm.trans hret)]
    exact hrc

end Ctools.Analysis

open Ctools.Library Ctools.Program Ctools.Analysis in
/-- **The mutex of an event is given back unless the clock fails.**  For any threads and any
interleaving of their calls: the holder of the mutex is in a call that has not returned, every
post gets through, and every call that returns non-zero has left `e->value` as it was, if and
only if no `clock_gettime` of an `event_timedwait` has failed.  Once one has, the mutex is lost
and no post returns any more.
SOURCE: event1.c:33-127 -/
theorem Ctools.Analysis.event_mutex_given_back_iff {T : Type} [DecidableEq T] {value : UInt32}
    {h : List (EventAct T × EventObs T)} {s : EventState T}
    (hrun : (eventMachine T).Run Machine.anyStep (eventStart value) h s) :
    ((HeldInside s ∧ PostsGetThrough s ∧ NonzeroUnchanged h) ↔ ∀ e ∈ h, clockFails e.1 = false) ∧
      ((∃ e ∈ h, clockFails e.1 = true) → BlockedForGood s) := by
  have hinv := hrun.invariant
    (fun h s => MutexHeld s ∧ ((∀ e ∈ h, clockFails e.1 = false) → HeldInside s) ∧
      ((∃ e ∈ h, clockFails e.1 = true) → Lost s))
    ⟨mutexHeld_start value, fun _ => heldInside_start value, by simp⟩ ?_
  · obtain ⟨hheld, hinside, hlost⟩ := hinv
    refine ⟨⟨fun hsafe e he => ?_, fun hclock => ?_⟩, fun hfail => ?_⟩
    · -- a lost mutex has a holder outside its critical section
      refine Bool.eq_false_iff.mpr fun hfail => ?_
      obtain ⟨t, howner, hout⟩ := hlost ⟨e, he, hfail⟩
      rw [hsafe.1 t howner] at hout
      cases hout
    · exact ⟨hinside hclock, postsGetThrough_of_heldInside (hinside hclock),
        nonzeroUnchanged_run hrun⟩
    · exact blockedForGood_of_lost hheld (hlost hfail)
  · rintro h s a o s' ⟨hheld, hinside, hlost⟩ - hstep
    have hmove := eventMove_of_step hstep
    refine ⟨mutexHeld_step hmove hheld, fun hclock => ?_, ?_⟩
    · exact heldInside_step hmove (hclock (a, o) (by simp))
        (hinside fun e he => hclock e (List.mem_append_left _ he))
    · rintro ⟨e, he, hfail⟩
      rcases List.mem_append.mp he with hin | hlast
      · exact (lost_step hmove hheld (hlost ⟨e, hin, hfail⟩)).1
      · obtain rfl := List.mem_singleton.mp hlast
        exact lost_of_clockFails hmove hheld hfail

open Ctools.Library Ctools.Program Ctools.Analysis in
/-- The theorem at a run of three threads: thread 1 parks in a timed wait, thread 0 posts, and
thread 2 holds the mutex for a second post. -/
theorem Ctools.Analysis.event_mutex_given_back_iff_contended :
    ∃ h s, (eventMachine (Fin 3)).Run Machine.anyStep (eventStart 0) h s ∧ s.owner = some 2 ∧
      HeldInside s ∧ PostsGetThrough s ∧ NonzeroUnchanged h := by
  have hrun := Machine.run_of_exec (m := eventMachine (Fin 3)) (eventStart 0)
    [.call 1 (.wait ⟨1, EVENT_FLAG_OR, some 10, true⟩), .lock 1, .clock 1 (some ⟨0, 0⟩),
      .loop 1 none, .call 0 (.post 1), .lock 0, .post 0, .call 2 (.post 2), .lock 2] rfl
  exact ⟨_, _, hrun, rfl, (event_mutex_given_back_iff hrun).1.mpr (by decide)⟩

open Ctools.Library Ctools.Program Ctools.Analysis in
/-- **A timed wait may return with the mutex.**  Thread 0 calls `event_timedwait` and
`clock_gettime` fails: the call returns -1, thread 0 holds the mutex outside any call, and no
post of any thread returns from then on.
SOURCE: event1.c:93-96 -/
theorem Ctools.Analysis.event_mutex_kept :
    ∃ h s, (eventMachine (Fin 2)).Run Machine.anyStep (eventStart 0) h s ∧
      h.getLast?.bind (fun e => e.2.ret) =
        some ⟨0, .wait ⟨1, EVENT_FLAG_OR, some 10, true⟩, -1, none⟩ ∧
      s.owner = some 0 ∧ s.pc 0 = .idle ∧ ¬ HeldInside s ∧ BlockedForGood s := by
  have hrun := Machine.run_of_exec (m := eventMachine (Fin 2)) (eventStart 0)
    [.call 0 (.wait ⟨1, EVENT_FLAG_OR, some 10, true⟩), .lock 0, .clock 0 none] rfl
  refine ⟨_, _, hrun, rfl, rfl, rfl, fun hinside => ?_, blockedForGood_of_lost ?_ ⟨0, rfl, rfl⟩⟩
  · exact absurd (hinside 0 rfl) (by decide)
  · exact hrun.invariant (fun _ s => MutexHeld s) (mutexHeld_start 0)
      (fun _ _ _ _ _ hheld _ hstep => mutexHeld_step (eventMove_of_step hstep) hheld)
