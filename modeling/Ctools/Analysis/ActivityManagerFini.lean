import Ctools.Program.ActivityManager
import Ctools.Analysis.ActivityFifo

/-!
# Whether the shutdown waits for the workers

`activity_manager_fini` does not wait: it releases the allocators while workers go
on (`manager_fini_releases_early`).  Which worker is left is known from the states
all the same: an activity is stopped exactly if its workers have ended
(`Registered`), and the steps of a shutdown keep that.  So the releases are safe
exactly if every activity is stopped when they begin, and then no worker moves any
more.
-/

set_option autoImplicit false

namespace Ctools.Analysis

open Ctools.Library Ctools.Program Ctools.Interface

/-- An activity whose last worker, if there is one, has not ended exactly while it is
not stopped. -/
structure Registered (act : ActivityWorld) : Prop where
  alone : ∃ w, Alone act.workers w
  stopped : act.state = .stop ↔ AllEnded act.workers

variable {handler : Bool} {act act' : ActivityWorld} {o : ActObs}

/-- Every activity that is not being started is like that. -/
theorem registered_of_run {h : List (ActivityAct × ActObs)}
    (hrun : (activityMachine handler).Run clientMsgs activityStart h act)
    (hidle : ∀ pc ∈ act.calls, ¬ Manages pc) : Registered act := by
  have hlife : Life act := (accepted_eq (hrun.weaken plainMsgs_of_clientMsgs)).1.life
  obtain ⟨w, halone, hphase⟩ := hlife.phase
  refine ⟨⟨w, halone⟩, fun hstop => ?_, fun hended => ?_⟩
  · by_contra hlive
    obtain ⟨n, hn⟩ := hlife.started hstop hlive
    exact hidle _ (List.mem_of_getElem? hn) trivial
  · by_contra hstate
    exact hphase.live hstate (hended w)

/-- A worker moves. -/
theorem Registered.workerMoves (h : Registered act) {w : ℕ} {pc pc' : WorkerPc}
    (hpc : act.workers[w]? = some pc) (hlive : pc ≠ .ended)
    (hworkers : act'.workers = act.workers.set w pc')
    (hstate : (act'.state = act.state ∧ pc' ≠ .ended) ∨ (act'.state = .stop ∧ pc' = .ended)) :
    Registered act' := by
  obtain ⟨v, halone⟩ := h.alone
  obtain rfl := halone.eq hpc hlive
  have halone' : Alone act'.workers w := by
    rw [hworkers]
    exact halone.set pc'
  have hat : pcAt act'.workers w = pc' := by rw [hworkers, pcAt_set hpc]
  refine ⟨⟨w, halone'⟩, ?_⟩
  rcases hstate with ⟨hsame, hlive'⟩ | ⟨hstop, hended⟩
  · have hnot : ¬ AllEnded act.workers := fun hall => hlive ((pcAt_eq hpc).symm.trans (hall w))
    have hnot' : ¬ AllEnded act'.workers := fun hall => hlive' (hat.symm.trans (hall w))
    rw [hsame, h.stopped]
    exact iff_of_false hnot hnot'
  · exact iff_of_true hstop (allEnded_of_ended halone' (hat.trans hended))

/-- A step of the worker keeps the activity registered. -/
theorem Registered.workerStep (h : Registered act) {w : ℕ}
    (hstep : workerStep handler act w = some (o, act')) : Registered act' := by
  have hmove : ActMove handler act (.worker w) o act' := actMove_workerStep hstep
  cases hmove with
  | workerStart w hpc => exact h.workerMoves hpc (by simp) rfl (.inl ⟨rfl, by simp⟩)
  | drained w hpc hqueue => exact h.workerMoves hpc (by simp) rfl (.inl ⟨rfl, by simp⟩)
  | dequeue w msg queue hpc hqueue => exact h.workerMoves hpc (by simp) rfl (.inl ⟨rfl, by simp⟩)
  | handle w msg hpc =>
    rw [handleMsg_snd]
    exact h.workerMoves hpc (by simp) rfl (.inl ⟨rfl, by simp⟩)
  | workerEnd w hpc => exact h.workerMoves hpc (by simp) rfl (.inr ⟨rfl, rfl⟩)

/-- So does a step of `uev_run`. -/
theorem Registered.pollStep (h : Registered act) {w : ℕ} {back : Bool}
    (hstep : pollStep act w back = some (o, act')) : Registered act' := by
  have hmove : ActMove true act (.poll w back) o act' := actMove_pollStep hstep
  cases hmove with
  | pollBack w hpc hexited => exact h.workerMoves hpc (by simp) rfl (.inl ⟨rfl, by simp⟩)
  | pollCall w hpc => exact h.workerMoves hpc (by simp) rfl (.inl ⟨rfl, by simp⟩)

/-- SOURCE: activity.c:71-84 -/
theorem Registered.penddingExit (h : Registered act) {elem : Option ℕ} {rc : ℤ}
    {msg : Option ActMsg} (hstep : activitySetPenddingExit act elem = some (rc, msg, act')) :
    Registered act' := by
  rcases setPenddingExit_cases hstep with ⟨-, -, rfl⟩ | ⟨e, -, hrun, -, -, -, rfl⟩
  · exact h
  · refine ⟨h.alone, ?_⟩
    have hnot : ¬ AllEnded act.workers := fun hall => by
      have hstop := h.stopped.mpr hall
      rw [hrun] at hstop
      cases hstop
    exact iff_of_false (by simp) hnot

/-- A worker that moves has not ended. -/
theorem live_of_workerStep {w : ℕ} (hstep : workerStep handler act w = some (o, act')) :
    ¬ AllEnded act.workers := by
  intro hall
  have hat := hall w
  rw [pcAt] at hat
  unfold Program.workerStep at hstep
  cases hpc : act.workers[w]? with
  | none =>
    rw [hpc] at hstep
    cases hstep
  | some pc =>
    rw [hpc, Option.getD_some] at hat
    rw [hpc, hat] at hstep
    cases hstep

/-- A worker in `uev_run` has not ended. -/
theorem live_of_pollStep {w : ℕ} {back : Bool} (hstep : pollStep act w back = some (o, act')) :
    ¬ AllEnded act.workers := by
  intro hall
  have hmove : ActMove true act (.poll w back) o act' := actMove_pollStep hstep
  cases hmove with
  | pollBack w hpc hexited => exact absurd ((pcAt_eq hpc).symm.trans (hall w)) (by simp)
  | pollCall w hpc => exact absurd ((pcAt_eq hpc).symm.trans (hall w)) (by simp)

/-! ## The shutdown -/

/-- The releases begin while every activity is stopped.
SOURCE: activity.c:454 -/
def stoppedFirst (s : ManagerWorld) : ManagerAct → Prop
  | .fini _ => s.fini = .release .actMsgPool → ∀ act ∈ s.acts, act.state = .stop
  | _ => True

instance (s : ManagerWorld) : ∀ a, Decidable (stoppedFirst s a)
  | .fini _ => inferInstanceAs (Decidable (_ → _))
  | .worker _ _ | .poll _ _ _ => inferInstanceAs (Decidable True)

variable {s s' : ManagerWorld} {ob : ManagerObs}

/-- What one step of the shutdown can do. -/
inductive FiniMove (handler : Bool) (s : ManagerWorld) (ob : ManagerObs) (s' : ManagerWorld) :
    ManagerAct → Prop
  | worker (a : ManagerAct) (i : ℕ) (act act' : ActivityWorld) (o : ActObs)
      (hact : s.acts[i]? = some act) (hlive : ¬ AllEnded act.workers)
      (hkeeps : Registered act → Registered act')
      (hob : ob = ⟨true, o.gave.any fun x => x.allocator ∈ s.released, none⟩)
      (hs' : s' = { s with acts := s.acts.set i act' }) : FiniMove handler s ob s' a
  | pending (elem : Option ℕ) (k : ℕ) (act act' : ActivityWorld) (hpc : s.fini = .pending k)
      (hact : s.acts[k]? = some act) (hkeeps : Registered act → Registered act')
      (hob : ob = ⟨false, false, none⟩)
      (hs' : s' = { s with acts := s.acts.set k act', fini := .pending (k + 1) }) :
      FiniMove handler s ob s' (.fini elem)
  | goto (elem : Option ℕ) (fini : FiniPc)
      (hpc : (∃ k, s.fini = .pending k) ∨ ∃ k, s.fini = .unlinking k)
      (hob : ob = ⟨false, false, none⟩) (hs' : s' = { s with fini := fini })
      (hfini : (∃ k, fini = .unlinking k) ∨ fini = .release .actMsgPool) :
      FiniMove handler s ob s' (.fini elem)
  | release (elem : Option ℕ) (a : Allocator) (fini : FiniPc) (hpc : s.fini = .release a)
      (hob : ob = ⟨false, false, some a⟩)
      (hs' : s' = { s with fini := fini, released := a :: s.released })
      (hfini : fini = .returned ∨ ∃ b, fini = .release b ∧ b ≠ .actMsgPool) :
      FiniMove handler s ob s' (.fini elem)

/-- A step of one activity. -/
theorem actStep_cases {i : ℕ} {next : ActivityWorld → Option (ActObs × ActivityWorld)}
    (h : actStep s i next = some (ob, s')) : ∃ act o act', s.acts[i]? = some act ∧
      next act = some (o, act') ∧
      ob = ⟨true, o.gave.any fun x => x.allocator ∈ s.released, none⟩ ∧
      s' = { s with acts := s.acts.set i act' } := by
  unfold actStep at h
  split at h
  · cases h
  · rename_i act hact
    obtain ⟨⟨o, act'⟩, hstep, hs'⟩ := Option.map_eq_some_iff.mp h
    cases hs'
    exact ⟨act, o, act', hact, hstep, rfl, rfl⟩

/-- A step of the manager is one of its moves. -/
theorem finiMove_of_step {a : ManagerAct} (h : managerStep handler s a = some (ob, s')) :
    FiniMove handler s ob s' a := by
  cases a with
  | worker i w =>
    obtain ⟨act, o, act', hact, hstep, hob, hs'⟩ := actStep_cases h
    exact .worker _ i act act' o hact (live_of_workerStep hstep) (fun hreg => hreg.workerStep hstep)
      hob hs'
  | poll i w back =>
    obtain ⟨act, o, act', hact, hstep, hob, hs'⟩ := actStep_cases h
    exact .worker _ i act act' o hact (live_of_pollStep hstep) (fun hreg => hreg.pollStep hstep)
      hob hs'
  | fini elem =>
    simp only [managerStep, finiStep] at h
    split at h
    · rename_i k hpc
      split at h
      · rename_i act hact
        obtain ⟨⟨rc, msg, act'⟩, hstep, hs'⟩ := Option.map_eq_some_iff.mp h
        cases hs'
        exact .pending elem k act act' hpc hact (fun hreg => hreg.penddingExit hstep) rfl rfl
      · cases h
        exact .goto elem _ (.inl ⟨k, hpc⟩) rfl rfl (.inl ⟨0, rfl⟩)
    · rename_i k hpc
      split at h
      · cases h
        exact .goto elem _ (.inr ⟨k, hpc⟩) rfl rfl (.inl ⟨k + 1, rfl⟩)
      · cases h
        exact .goto elem _ (.inr ⟨k, hpc⟩) rfl rfl (.inr rfl)
    · rename_i a hpc
      cases h
      cases a with
      | actMsgPool => exact .release elem _ _ hpc rfl rfl (.inr ⟨.execItemPool, rfl, by simp⟩)
      | execItemPool => exact .release elem _ _ hpc rfl rfl (.inr ⟨.actHeapmem, rfl, by simp⟩)
      | actHeapmem => exact .release elem _ _ hpc rfl rfl (.inl rfl)
    · cases h

/-- The last worker of every activity has ended. -/
def AllDone (s : ManagerWorld) : Prop := ∀ act ∈ s.acts, AllEnded act.workers

/-- One activity may change, as long as it stays registered. -/
theorem registered_set {acts : List ActivityWorld} (hs : ∀ act ∈ acts, Registered act) {i : ℕ}
    {act act' : ActivityWorld} (hact : acts[i]? = some act)
    (hkeeps : Registered act → Registered act') : ∀ b ∈ acts.set i act', Registered b := by
  intro b hb
  rcases List.mem_or_eq_of_mem_set hb with hold | rfl
  · exact hs b hold
  · exact hkeeps (hs act (List.mem_of_getElem? hact))

/-- A step of the manager keeps its activities registered. -/
theorem registered_step {a : ManagerAct} (hmove : FiniMove handler s ob s' a)
    (hs : ∀ act ∈ s.acts, Registered act) : ∀ act ∈ s'.acts, Registered act := by
  cases hmove with
  | worker a i act act' o hact hlive hkeeps hob hs' => exact hs' ▸ registered_set hs hact hkeeps
  | pending elem k act act' hpc hact hkeeps hob hs' => exact hs' ▸ registered_set hs hact hkeeps
  | goto elem fini hpc hob hs' => exact hs' ▸ hs
  | release elem a fini hpc hob hs' => exact hs' ▸ hs

/-- The activities of a run are registered ones. -/
theorem registered_of_managerRun {guard : ManagerWorld → ManagerAct → Prop}
    {acts : List ActivityWorld} (hreg : ∀ act ∈ acts, Registered act)
    {h : List (ManagerAct × ManagerObs)}
    (hrun : (managerMachine handler).Run guard (managerStart acts) h s) :
    ∀ act ∈ s.acts, Registered act := by
  refine hrun.invariant (fun _ s => ∀ act ∈ s.acts, Registered act) hreg ?_
  intro h s a ob s' hs _ hstep
  exact registered_step (finiMove_of_step hstep) hs

/-- Nothing is released while a worker may move. -/
structure Waits (s : ManagerWorld) : Prop where
  registered : ∀ act ∈ s.acts, Registered act
  early : (∃ k, s.fini = .pending k) ∨ (∃ k, s.fini = .unlinking k) ∨
    s.fini = .release .actMsgPool → s.released = []
  late : (s.fini = .returned ∨ ∃ a, s.fini = .release a ∧ a ≠ .actMsgPool) → AllDone s

/-- The manager before `activity_manager_fini`. -/
theorem waits_start {acts : List ActivityWorld} (hreg : ∀ act ∈ acts, Registered act) :
    Waits (managerStart acts) where
  registered := hreg
  early _ := rfl
  late hlate := by
    rcases hlate with hend | ⟨a, ha, -⟩
    · cases hend
    · cases ha

/-- While a worker can move, nothing is released. -/
theorem Waits.released_nil (h : Waits s) (hlive : ¬ AllDone s) : s.released = [] := by
  cases hfini : s.fini with
  | pending k => exact h.early (.inl ⟨k, hfini⟩)
  | unlinking k => exact h.early (.inr (.inl ⟨k, hfini⟩))
  | release a =>
    by_cases ha : a = .actMsgPool
    · exact h.early (.inr (.inr (ha ▸ hfini)))
    · exact absurd (h.late (.inr ⟨a, hfini, ha⟩)) hlive
  | returned => exact absurd (h.late (.inl hfini)) hlive

/-- **A step of the manager** keeps what is known of it, if all activities have stopped at the
first release. -/
theorem waits_step {a : ManagerAct} (hmove : FiniMove handler s ob s' a) (hguard : stoppedFirst s a)
    (hs : Waits s) : Waits s' ∧ ob.fault = false ∧ (ob.released ≠ none → AllDone s) ∧
      (ob.worker = true → s.released = []) := by
  have hreg := registered_step hmove hs.registered
  cases hmove with
  | worker a i act act' o hact hlive hkeeps hob hs' =>
    subst hob hs'
    have hlive' : ¬ AllDone s := fun hall => hlive (hall act (List.mem_of_getElem? hact))
    have hnil := hs.released_nil hlive'
    refine ⟨⟨hreg, fun _ => hnil, fun hlate => absurd (hs.late hlate) hlive'⟩, ?_, by simp,
      fun _ => hnil⟩
    simp [hnil]
  | pending elem k act act' hpc hact hkeeps hob hs' =>
    subst hob hs'
    refine ⟨⟨hreg, fun _ => hs.early (.inl ⟨k, hpc⟩), fun hlate => ?_⟩, rfl, by simp, by simp⟩
    rcases hlate with hend | ⟨a, ha, -⟩
    · cases hend
    · cases ha
  | goto elem fini hpc hob hs' hfini =>
    subst hob hs'
    have hnil : s.released = [] := by
      rcases hpc with hk | hk
      · exact hs.early (.inl hk)
      · exact hs.early (.inr (.inl hk))
    refine ⟨⟨hreg, fun _ => hnil, fun hlate => ?_⟩, rfl, by simp, by simp⟩
    rcases hfini with ⟨k, rfl⟩ | rfl
    · rcases hlate with hend | ⟨a, ha, -⟩
      · cases hend
      · cases ha
    · rcases hlate with hend | ⟨a, ha, hne⟩
      · cases hend
      · cases ha
        exact absurd rfl hne
  | release elem a fini hpc hob hs' hfini =>
    subst hob hs'
    -- the first release finds all activities stopped, the others come behind it
    have hdone : AllDone s := by
      by_cases ha : a = .actMsgPool
      · intro act hact
        exact (hs.registered act hact).stopped.mp (hguard (ha ▸ hpc) act hact)
      · exact hs.late (.inr ⟨a, hpc, ha⟩)
    refine ⟨⟨hreg, fun hearly => ?_, fun _ => hdone⟩, rfl, fun _ => hdone, by simp⟩
    rcases hfini with rfl | ⟨b, rfl, hne⟩
    · rcases hearly with ⟨k, hk⟩ | ⟨k, hk⟩ | hk <;> cases hk
    · rcases hearly with ⟨k, hk⟩ | ⟨k, hk⟩ | hk
      · cases hk
      · cases hk
      · cases hk
        exact absurd rfl hne

/-- A running activity with one message in its queue. -/
def busyActivity : ActivityWorld :=
  { activityStart with
    state := .run, queue := [⟨0, .user 7, 50, 0, 0⟩], thread := some 0, outstanding := [.msg 0]
    calls := [.returned 0, .returned 0], workers := [.polling] }

/-- The activity of the failing run is a registered one. -/
theorem registered_busyActivity : Registered busyActivity := by
  have hrun := Machine.run_of_execUnder (m := activityMachine true) (t := busyActivity) clientMsgs
    activityStart
    [.call .run, .run 0 0, .run 0 0, .run 0 0, .run 0 0, .run 0 0, .run 0 0,
      .call (.send ⟨50, 7, 0, 0⟩), .locked 1 (some 0), .worker 0] rfl
  exact registered_of_run hrun (by simp [busyActivity, Manages])

end Ctools.Analysis

open Ctools.Library Ctools.Program Ctools.Interface Ctools.Analysis in
/-- **When the shutdown waits.**  In every run, whatever was registered, the workers
have all ended exactly if every activity is stopped.  So in a run in which every
activity is stopped when the releases begin, an allocator is released only after
the end of all workers, no worker uses one that is released, and none moves after.
SOURCE: activity.c:436-458 -/
theorem Ctools.Analysis.manager_fini_waits (handler : Bool) (acts : List ActivityWorld)
    (hreg : ∀ act ∈ acts, Registered act) :
    (∀ h s, (managerMachine handler).Run Machine.anyStep (managerStart acts) h s →
      ((∀ act ∈ s.acts, act.state = .stop) ↔ AllDone s)) ∧
    ∀ h s, (managerMachine handler).Run stoppedFirst (managerStart acts) h s →
      (∀ e ∈ h, e.2.fault = false) ∧
      ∀ a ob s', stoppedFirst s a → managerStep handler s a = some (ob, s') →
        (ob.released ≠ none → AllDone s) ∧ (ob.worker = true → s.released = []) := by
  refine ⟨fun h s hrun => ?_, fun h s hrun => ?_⟩
  · have hs := registered_of_managerRun hreg hrun
    exact ⟨fun hstop act hact => (hs act hact).stopped.mp (hstop act hact),
      fun hdone act hact => (hs act hact).stopped.mpr (hdone act hact)⟩
  · have hkeep := hrun.invariant_shows Waits (fun ob => ob.fault = false) (waits_start hreg)
      fun s a ob s' hs hguard hstep =>
        have hstep' := waits_step (finiMove_of_step hstep) hguard hs
        ⟨hstep'.1, hstep'.2.1⟩
    refine ⟨hkeep.2, fun a ob s' hguard hstep => ?_⟩
    exact (waits_step (finiMove_of_step hstep) hguard hkeep.1).2.2

open Ctools.Library Ctools.Program Ctools.Interface Ctools.Analysis in
/-- The theorem at a run in which the worker handles its message and the stop, and
ends, before the releases. -/
theorem Ctools.Analysis.manager_fini_waits_ended :
    ∃ h s, (managerMachine true).Run stoppedFirst (managerStart [busyActivity]) h s ∧
      s.fini = .returned ∧ s.released = [.actHeapmem, .execItemPool, .actMsgPool] ∧
      (∀ e ∈ h, e.2.fault = false) := by
  have hrun := Machine.run_of_execUnder (m := managerMachine true) stoppedFirst
    (managerStart [busyActivity])
    [.fini (some 1), .fini none, .fini none, .fini none, .poll 0 0 false, .worker 0 0, .worker 0 0,
      .worker 0 0, .worker 0 0, .worker 0 0, .poll 0 0 true, .worker 0 0,
      .fini none, .fini none, .fini none] rfl
  have hreg : ∀ act ∈ [busyActivity], Registered act := by
    intro act hact
    rw [List.mem_singleton.mp hact]
    exact registered_busyActivity
  have hwaits := (manager_fini_waits true [busyActivity] hreg).2 _ _ hrun
  exact ⟨_, _, hrun, rfl, rfl, hwaits.1⟩

open Ctools.Library Ctools.Program Ctools.Interface Ctools.Analysis in
/-- `activity_manager_fini` does not wait: the worker of a running activity handles
its message after the release of all allocators, and gives the element back to a
pool that is no more. -/
theorem Ctools.Analysis.manager_fini_releases_early :
    Registered busyActivity ∧ ∃ h s, (managerMachine true).Run Machine.anyStep
      (managerStart [busyActivity]) h s ∧ ¬ AllDone s ∧
      s.released = [.actHeapmem, .execItemPool, .actMsgPool] ∧ ∃ e ∈ h, e.2.fault = true := by
  have hrun := Machine.run_of_exec (m := managerMachine true) (managerStart [busyActivity])
    [.fini (some 1), .fini none, .fini none, .fini none, .fini none, .fini none, .fini none,
      .poll 0 0 false, .worker 0 0, .worker 0 0] rfl
  refine ⟨registered_busyActivity, _, _, hrun, fun hdone => ?_, rfl,
    (.worker 0 0, ⟨true, true, none⟩), by decide, rfl⟩
  have hended := hdone _ (List.mem_singleton_self _) 0
  cases hended
