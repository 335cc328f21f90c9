import Ctools.Analysis.RegistryList

/-!
# A registration that fails

`activity_reg` links the activity before it starts it, and no exit unlinks it.  So when
one of the three calls of `activity_run_local` fails, the activity is on `act_list` under
its name, as one that was registered, and the name is taken.
-/

set_option autoImplicit false

namespace Ctools.Analysis

open Ctools.Library Ctools.Program Ctools.Interface

variable {r r' : Registry} {x : List Registration} {act : ℕ} {name : String} {fuel : ℕ}
  {answers : StartAnswers} {rc : ℤ}

/-- A stopped activity is started if all three calls succeed.
SOURCE: activity.c:182-219 -/
theorem activityRunLocal_eq_zero : (activityRunLocal .stop answers).1 = 0 ↔
    answers.uevInit = 0 ∧ answers.uevEventInit = 0 ∧ answers.pthreadCreate = 0 := by
  unfold activityRunLocal
  rw [if_neg (by decide), if_neg (by decide)]
  by_cases hinit : answers.uevInit = 0
  · by_cases hevent : answers.uevEventInit = 0
    · by_cases hcreate : answers.pthreadCreate = 0
      · simp [hinit, hevent, hcreate]
      · simp [hinit, hevent, hcreate]
    · simp [hinit, hevent]
  · simp [hinit]

/-- A registration of a free name returns what starting the activity returned, and the
activity is on the list. -/
theorem reg_of_free (h : Lists r x) (hact : act ∉ x.map Registration.act)
    (hname : registeredUnder x name = none)
    (hreg : activityReg fuel r (some act) (some name) answers = some (rc, r')) :
    rc = (activityRunLocal .stop answers).1 ∧ Lists r' (⟨act, name⟩ :: x) := by
  have hstep : registryCall fuel r (.reg (some act) (some name) answers) = some (.rc rc, r') := by
    rw [registryCall, hreg, Option.map_some]
  obtain ⟨hout, hkept, -⟩ := registry_step_of_lists h hstep
  rw [listAnswer_reg, enlist_of_free hname] at hout hkept
  exact ⟨(RegistryOut.rc.inj hout).symm, hkept fun _ => hact⟩

/-- Whether its start succeeded or not, the activity is found under its name from then on,
and no registration of the name succeeds. -/
theorem reg_taken (h : Lists r x) (hact : act ∉ x.map Registration.act)
    (hname : registeredUnder x name = none)
    (hreg : activityReg fuel r (some act) (some name) answers = some (rc, r')) :
    (∀ fuel' res, activityGet fuel' r' (some name) = some res → res = some act) ∧
    ∀ fuel' act' answers' rc' r'',
      activityReg fuel' r' (some act') (some name) answers' = some (rc', r'') → rc' = -1 := by
  obtain ⟨-, hlists⟩ := reg_of_free h hact hname hreg
  have hfound : registeredUnder (⟨act, name⟩ :: x) name = some act := by
    rw [registeredUnder_cons, if_pos rfl]
  constructor
  · intro fuel' res hget
    exact (lookup_eq_of_lists hlists hget).trans hfound
  · intro fuel' act' answers' rc' r'' hagain
    cases regMove_of_activityReg hagain with
    | invalid hnull => exact absurd hnull (by simp)
    | taken => rfl
    | linked first hfree =>
      exact absurd ((lookup_eq_of_lists hlists hfree).trans hfound) (by simp)

/-- In a ring no registration of a name that was not registered returns. -/
theorem reg_ne_of_caught (h : Caught r x) (hname : registeredUnder x name = none) :
    activityReg fuel r (some act) (some name) answers ≠ some (rc, r') := by
  intro hreg
  cases regMove_of_activityReg hreg with
  | invalid hnull => exact absurd hnull (by simp)
  | taken old hold =>
    obtain ⟨act, -, hfound⟩ := lookup_eq_of_caught h hold
    exact absurd (hname.symm.trans hfound) (by simp)
  | linked first hfree => exact lookup_ne_none_of_caught h hfree

end Ctools.Analysis

open Ctools.Library Ctools.Program Ctools.Interface in
/-- **A failed registration is undone only where none fails**: a registration of a new
activity under a new name leaves the registry as it was when it fails if and only if the
three calls that start the activity succeed, or an activity was registered twice before
and the call does not return.
SOURCE: activity.c:182-289 -/
theorem Ctools.Analysis.failed_reg_undone_iff (memory : Registry) {fuel : ℕ} {r : Registry}
    {h : List (RegistryOp × RegistryOut)} {x : List Registration}
    (hrun : (registryMachine fuel).Run Machine.anyStep (registryStart memory) h r)
    (hspec : listSpec.Run Machine.anyStep [] h x) (act : ℕ) (name : String)
    (hact : act ∉ x.map Registration.act) (hname : name ∉ x.map Registration.name)
    (answers : StartAnswers) :
    (∀ fuel' rc r', activityReg fuel' r (some act) (some name) answers = some (rc, r') →
      rc ≠ 0 → Undone r r' act name) ↔
    (answers.uevInit = 0 ∧ answers.uevEventInit = 0 ∧ answers.pthreadCreate = 0) ∨
      ¬ listSpec.Run listsNew [] h x := by
  have hfree := Analysis.registeredUnder_eq_none.mpr hname
  obtain ⟨x', hspec', hcases⟩ := Analysis.registry_of_run (Analysis.lists_start memory) hrun
  obtain rfl := hspec.unique hspec'
  rcases hcases with ⟨hnew, hlists⟩ | ⟨hagain, hcaught⟩
  · constructor
    · intro hundone
      by_contra hfails
      rw [not_or, not_not, ← Analysis.activityRunLocal_eq_zero] at hfails
      have hlookup : activityGetLocal (x.length + 1) r name = some none := by
        rw [Analysis.lookup_of_lists hlists (Nat.lt_succ_self _), hfree]
      have hreg : activityReg (x.length + 1) r (some act) (some name) answers = _ :=
        Analysis.activityReg_new hlookup hlists.circular.next_head
      obtain ⟨fuel', hfound⟩ := (hundone _ _ _ hreg hfails.1).found _ _ hlookup
      have htaken := (Analysis.reg_taken hlists hact hfree hreg).1 fuel' none hfound
      exact absurd htaken (by simp)
    · rintro (hstarts | hagain) fuel' rc r' hreg hrc
      · rw [(Analysis.reg_of_free hlists hact hfree hreg).1] at hrc
        exact absurd (Analysis.activityRunLocal_eq_zero.mpr hstarts) hrc
      · exact absurd hnew hagain
  · constructor
    · exact fun _ => .inr fun hnew => hagain ⟨x, hnew⟩
    · intro _ fuel' rc r' hreg
      exact absurd hreg (Analysis.reg_ne_of_caught hcaught hfree)

open Ctools.Library Ctools.Program Ctools.Interface in
/-- The first registration: when the three calls succeed nothing is left to undo, and when
`pthread_create` fails with `EAGAIN` it is not undone. -/
theorem Ctools.Analysis.failed_reg_undone_iff_first :
    (∀ fuel rc r',
      activityReg fuel (registryStart staticMemory) (some 0) (some "a") ⟨0, 0, 0⟩ =
        some (rc, r') → rc ≠ 0 → Undone (registryStart staticMemory) r' 0 "a") ∧
    ¬ ∀ fuel rc r',
      activityReg fuel (registryStart staticMemory) (some 0) (some "a") ⟨0, 0, EAGAIN⟩ =
        some (rc, r') → rc ≠ 0 → Undone (registryStart staticMemory) r' 0 "a" := by
  have hrun : (registryMachine 1).Run Machine.anyStep (registryStart staticMemory) [] _ := .start
  have hspec : listSpec.Run Machine.anyStep [] [] [] := .start
  have hiff := Analysis.failed_reg_undone_iff staticMemory hrun hspec 0 "a" List.not_mem_nil
    List.not_mem_nil
  refine ⟨(hiff ⟨0, 0, 0⟩).mpr (.inl ⟨rfl, rfl, rfl⟩), fun hundone => ?_⟩
  rcases (hiff ⟨0, 0, EAGAIN⟩).mp hundone with ⟨-, -, hcreate⟩ | hagain
  · exact absurd hcreate (by decide)
  · exact hagain .start

open Ctools.Program in
/-- The registration of "a" for which `uev_init` fails returns its error; afterwards the
activity is found as "a", and "a" cannot be registered. -/
theorem Ctools.Analysis.failed_reg_stays : ∃ r',
    activityReg 1 (registryStart staticMemory) (some 0) (some "a") ⟨-1, 0, 0⟩ = some (-1, r') ∧
    activityGet 1 (registryStart staticMemory) (some "a") = some none ∧
    activityGet 2 r' (some "a") = some (some 0) ∧
    ∀ fuel answers rc r'', activityReg fuel r' (some 0) (some "a") answers = some (rc, r'') →
      rc ≠ 0 := by
  have h₀ := Analysis.lists_start staticMemory
  have hlookup : activityGetLocal 1 (registryStart staticMemory) "a" = some none :=
    Analysis.lookup_of_lists h₀ (by decide)
  have hreg : activityReg 1 (registryStart staticMemory) (some 0) (some "a") ⟨-1, 0, 0⟩ = _ :=
    Analysis.activityReg_new hlookup h₀.circular.next_head
  refine ⟨_, hreg, hlookup, ?_, ?_⟩
  · obtain ⟨-, hlists⟩ := Analysis.reg_of_free h₀ List.not_mem_nil rfl hreg
    exact Analysis.lookup_of_lists hlists (by decide)
  · intro fuel answers rc r'' hagain
    rw [(Analysis.reg_taken h₀ List.not_mem_nil rfl hreg).2 _ _ _ _ _ hagain]
    decide
