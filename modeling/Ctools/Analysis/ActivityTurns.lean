import Ctools.Analysis.ActivityMoves

/-!
# Who starts and ends a worker

Whatever messages the clients send, one worker thread at most has not ended (`Turns`):
only the call of `activity_run` that holds `act_manager_lock` starts one, after it found
the activity stopped, and a stopped activity has a live worker only until that call has
set its state.
-/

set_option autoImplicit false

namespace Ctools.Analysis

open Ctools.Library Ctools.Program Ctools.Interface

/-- Where worker `w` is; one that does not exist counts as ended. -/
def pcAt (workers : List WorkerPc) (w : ℕ) : WorkerPc := workers[w]?.getD .ended

/-- Every worker has ended. -/
def AllEnded (workers : List WorkerPc) : Prop := ∀ v, pcAt workers v = .ended

/-- Every worker but `w` has ended. -/
def Alone (workers : List WorkerPc) (w : ℕ) : Prop := ∀ v, v ≠ w → pcAt workers v = .ended

/-- Where a worker is that was created. -/
theorem pcAt_eq {workers : List WorkerPc} {w : ℕ} {pc : WorkerPc} (h : workers[w]? = some pc) :
    pcAt workers w = pc := by
  rw [pcAt, h, Option.getD_some]

/-- Where a worker is that moves. -/
theorem pcAt_set {workers : List WorkerPc} {w : ℕ} {pc : WorkerPc} (h : workers[w]? = some pc)
    (pc' : WorkerPc) : pcAt (workers.set w pc') w = pc' := by
  have hw : w < workers.length := (List.getElem?_eq_some_iff.mp h).1
  exact pcAt_eq (List.getElem?_set_self hw)

/-- The other workers stay where they are. -/
theorem pcAt_set_ne {workers : List WorkerPc} {w v : ℕ} (hv : v ≠ w) (pc' : WorkerPc) :
    pcAt (workers.set w pc') v = pcAt workers v := by
  rw [pcAt, pcAt, List.getElem?_set_ne hv.symm]

/-- The only worker that may be alive moves. -/
theorem Alone.set {workers : List WorkerPc} {w : ℕ} (h : Alone workers w) (pc' : WorkerPc) :
    Alone (workers.set w pc') w :=
  fun v hv => (pcAt_set_ne hv pc').trans (h v hv)

/-- A worker that has not ended is the only one. -/
theorem Alone.eq {workers : List WorkerPc} {w v : ℕ} {pc : WorkerPc} (h : Alone workers w)
    (hv : workers[v]? = some pc) (hlive : pc ≠ .ended) : v = w :=
  of_not_not fun hne => hlive ((pcAt_eq hv).symm.trans (h v hne))

/-- A new worker is alone after the end of all others. -/
theorem AllEnded.snoc {workers : List WorkerPc} (h : AllEnded workers) (pc : WorkerPc) :
    Alone (workers ++ [pc]) workers.length ∧ pcAt (workers ++ [pc]) workers.length = pc := by
  refine ⟨fun v hv => ?_, pcAt_eq List.getElem?_concat_length⟩
  have hold := h v
  by_cases hlt : v < workers.length
  · rw [pcAt, List.getElem?_append_left hlt]
    exact hold
  · rw [pcAt, List.getElem?_eq_none (by simp; omega), Option.getD_none]

/-- If the only worker that may be alive has ended, all have. -/
theorem allEnded_of_ended {workers : List WorkerPc} {w : ℕ} (halone : Alone workers w)
    (hended : pcAt workers w = .ended) : AllEnded workers := by
  intro v
  by_cases hv : v = w
  · rw [hv]
    exact hended
  · exact halone v hv

/-- A call that is behind `act_manager_lock`. -/
def Manages : CallPc → Prop
  | .runCheck | .runInit | .runEventInit | .runCreate | .runStarted => True
  | _ => False

/-- The activity is stopped and no worker of it is left. -/
def Rests (s : ActivityWorld) : Prop := s.state = .stop ∧ AllEnded s.workers

/-- What a call of `activity_run` relies on between its check and its end, whatever the
clients send. -/
def Turn (s : ActivityWorld) : CallPc → Prop
  | .runInit => Rests s
  | .runEventInit | .runCreate => Rests s ∧ s.exited = false
  | .runStarted => s.state = .stop
  | _ => True

/-- One worker at most has not ended; at most one call is behind `act_manager_lock`, and
it found the activity at rest. -/
structure Turns (s : ActivityWorld) : Prop where
  alone : ∃ w, Alone s.workers w
  managed : ∀ (n : ℕ) (pc : CallPc), s.calls[n]? = some pc → Manages pc → s.manager = some n
  turn : ∀ (n : ℕ) (pc : CallPc), s.calls[n]? = some pc → Turn s pc
  started : s.state = .stop → ¬ AllEnded s.workers → ∃ n : ℕ, s.calls[n]? = some .runStarted

variable {handler : Bool} {s s' : ActivityWorld} {o : ActObs}

/-- A call outside `act_manager_lock` need not wait for its turn. -/
theorem turn_of_not_manages {pc : CallPc} (h : ¬ Manages pc) : Turn s pc := by
  cases pc <;> first | trivial | exact absurd trivial h

/-- Only a stopped activity is at rest, so a call relies on nothing where it is not. -/
theorem Turn.of_not_stop {pc : CallPc} (h : Turn s pc) (hstate : s.state ≠ .stop) :
    Turn s' pc := by
  cases pc with
  | runInit => exact absurd h.1 hstate
  | runEventInit => exact absurd h.1.1 hstate
  | runCreate => exact absurd h.1.1 hstate
  | runStarted => exact absurd h hstate
  | _ => trivial

/-- **Steps of the worker.**  The worker goes from `pc` to `pc'`. -/
theorem Turns.workerMoves (h : Turns s) {w : ℕ} {pc pc' : WorkerPc} (hpc : s.workers[w]? = some pc)
    (hlive : pc ≠ .ended) (hworkers : s'.workers = s.workers.set w pc')
    (hstate : (s'.state = s.state ∧ pc' ≠ .ended) ∨ (s'.state = .stop ∧ pc' = .ended))
    (hcalls : s'.calls = s.calls := by rfl) (hmanager : s'.manager = s.manager := by rfl) :
    Turns s' := by
  have hsome : ¬ AllEnded s.workers := fun hall => hlive ((pcAt_eq hpc).symm.trans (hall w))
  have halone : Alone s'.workers w := by
    obtain ⟨v, hv⟩ := h.alone
    obtain rfl := hv.eq hpc hlive
    rw [hworkers]
    exact hv.set pc'
  refine ⟨⟨w, halone⟩, ?_, ?_, ?_⟩
  · rw [hcalls, hmanager]
    exact h.managed
  · intro n q hq
    rw [hcalls] at hq
    have hold := h.turn n q hq
    -- a call that found the activity at rest did not do so with this worker alive
    cases q with
    | runInit => exact absurd hold.2 hsome
    | runEventInit => exact absurd hold.1.2 hsome
    | runCreate => exact absurd hold.1.2 hsome
    | runStarted =>
      rcases hstate with ⟨hsame, -⟩ | ⟨hstop, -⟩
      · exact hsame.trans hold
      · exact hstop
    | _ => trivial
  · intro hstop hsome'
    rw [hcalls]
    rcases hstate with ⟨hsame, -⟩ | ⟨-, hended⟩
    · exact h.started (hsame.symm.trans hstop) hsome
    · have hpc' : pcAt s'.workers w = .ended := by rw [hworkers, pcAt_set hpc, hended]
      exact absurd (allEnded_of_ended halone hpc') hsome'

/-- **Steps of the clients' calls**, none of them behind `act_manager_lock`. -/
theorem Turns.clientMoves (h : Turns s) {n : ℕ} {pc pc' : CallPc} (hpc : s.calls[n]? = some pc)
    (hclient : ¬ Manages pc) (hclient' : ¬ Manages pc')
    (hstate : s'.state = s.state ∨ (s.state ≠ .stop ∧ s'.state ≠ .stop) := by exact .inl rfl)
    (hcalls : s'.calls = s.calls.set n pc' := by rfl) (hmanager : s'.manager = s.manager := by rfl)
    (hworkers : s'.workers = s.workers := by rfl) (hexited : s'.exited = s.exited := by rfl) :
    Turns s' := by
  have hturn : ∀ q, Turn s q → Turn s' q := by
    intro q hq
    rcases hstate with hsame | ⟨hrun, -⟩
    · have heq : Turn s' q = Turn s q := by
        cases q <;> simp only [Turn, Rests, hsame, hexited, hworkers]
      rwa [heq]
    · exact hq.of_not_stop hrun
  refine ⟨?_, ?_, ?_, ?_⟩
  · rw [hworkers]
    exact h.alone
  · intro m q hq hmanages
    rw [hcalls] at hq
    rcases getElem?_set_cases hq with ⟨-, rfl⟩ | ⟨-, hold⟩
    · exact absurd hmanages hclient'
    · exact hmanager.trans (h.managed m q hold hmanages)
  · intro m q hq
    rw [hcalls] at hq
    rcases getElem?_set_cases hq with ⟨-, rfl⟩ | ⟨-, hold⟩
    · exact turn_of_not_manages hclient'
    · exact hturn q (h.turn m q hold)
  · intro hstop hlive
    rcases hstate with hsame | ⟨-, hrun⟩
    · obtain ⟨m, hm⟩ := h.started (hsame.symm.trans hstop) (hworkers ▸ hlive)
      have hne : m ≠ n := by
        rintro rfl
        rw [hpc] at hm
        cases hm
        exact hclient trivial
      exact ⟨m, by rw [hcalls, List.getElem?_set_ne hne.symm, hm]⟩
    · exact absurd hstop hrun

/-- A call starts. -/
theorem Turns.callStarts (h : Turns s) {pc : CallPc} (hclient : ¬ Manages pc) :
    Turns { s with calls := s.calls ++ [pc] } := by
  refine ⟨h.alone, ?_, ?_, ?_⟩
  · intro m q hq hmanages
    rcases getElem?_snoc_cases hq with ⟨-, rfl⟩ | hold
    · exact absurd hmanages hclient
    · exact h.managed m q hold hmanages
  · intro m q hq
    rcases getElem?_snoc_cases hq with ⟨-, rfl⟩ | hold
    · exact turn_of_not_manages hclient
    · exact h.turn m q hold
  · intro hstop hlive
    obtain ⟨m, hm⟩ := h.started hstop hlive
    have hlt : m < s.calls.length := (List.getElem?_eq_some_iff.mp hm).1
    exact ⟨m, (List.getElem?_append_left hlt).trans hm⟩

/-- The call behind `act_manager_lock` is the only one. -/
theorem Turns.sole (h : Turns s) {n : ℕ} {pc : CallPc} (hpc : s.calls[n]? = some pc)
    (hmanages : Manages pc) (m : ℕ) (q : CallPc) (hne : m ≠ n) (hq : s.calls[m]? = some q) :
    ¬ Manages q := by
  intro hmanages'
  have hn := h.managed n pc hpc hmanages
  have hm := h.managed m q hq hmanages'
  rw [hn] at hm
  exact hne (Option.some.inj hm).symm

/-- The call that takes `act_manager_lock` is the only one behind it. -/
theorem Turns.sole_of_free (h : Turns s) (hfree : s.manager = none) (m : ℕ) (q : CallPc)
    (hq : s.calls[m]? = some q) : ¬ Manages q := by
  intro hmanages
  have hm := h.managed m q hq hmanages
  rw [hfree] at hm
  cases hm

/-- A stopped activity has no worker left, unless the call at hand just started one. -/
theorem Turns.rests (h : Turns s) {n : ℕ} {pc : CallPc} (hpc : s.calls[n]? = some pc)
    (hsole : ∀ (m : ℕ) (q : CallPc), m ≠ n → s.calls[m]? = some q → ¬ Manages q)
    (hne : pc ≠ .runStarted) (hstop : s.state = .stop) : Rests s := by
  refine ⟨hstop, by_contra fun hlive => ?_⟩
  obtain ⟨m, hm⟩ := h.started hstop hlive
  by_cases hmn : m = n
  · subst hmn
    rw [hpc] at hm
    exact hne (Option.some.inj hm)
  · exact hsole m _ hmn hm trivial

/-- **Steps of `activity_run`** at `act_manager_lock` and behind it. -/
theorem turns_managerMoves {n : ℕ} {pc pc' : CallPc} (hpc : s.calls[n]? = some pc)
    (hsole : ∀ (m : ℕ) (q : CallPc), m ≠ n → s.calls[m]? = some q → ¬ Manages q)
    (hcalls : s'.calls = s.calls.set n pc') (halone : ∃ w, Alone s'.workers w)
    (hmanager : Manages pc' → s'.manager = some n) (hturn : Turn s' pc')
    (hstarted : s'.state = .stop → ¬ AllEnded s'.workers → pc' = .runStarted) : Turns s' := by
  have hn : n < s.calls.length := (List.getElem?_eq_some_iff.mp hpc).1
  refine ⟨halone, ?_, ?_, ?_⟩
  · intro m q hq hmanages
    rw [hcalls] at hq
    rcases getElem?_set_cases hq with ⟨rfl, rfl⟩ | ⟨hne, hold⟩
    · exact hmanager hmanages
    · exact absurd hmanages (hsole m q hne hold)
  · intro m q hq
    rw [hcalls] at hq
    rcases getElem?_set_cases hq with ⟨-, rfl⟩ | ⟨hne, hold⟩
    · exact hturn
    · exact turn_of_not_manages (hsole m q hne hold)
  · intro hstop hlive
    refine ⟨n, ?_⟩
    rw [hcalls, ← hstarted hstop hlive]
    exact List.getElem?_set_self hn

/-- Where `activity_run` returns without having started a worker. -/
theorem manages_of_runBack {pc : CallPc} {exited exited' : Bool}
    (hwhere : (pc = .runCheck ∧ exited' = exited) ∨ (pc = .runInit ∧ exited' = exited) ∨
      (pc = .runEventInit ∧ exited' = true)) :
    Manages pc ∧ pc ≠ .runStarted := by
  rcases hwhere with ⟨rfl, -⟩ | ⟨rfl, -⟩ | ⟨rfl, -⟩ <;> exact ⟨trivial, by simp⟩

/-- Every step keeps the turns. -/
theorem turns_step {a : ActivityAct} (hmove : ActMove handler s a o s') (h : Turns s) :
    Turns s' := by
  cases hmove with
  | refuse c rc hrc => exact h.callStarts id
  | enter c pc hpc =>
    have hclient : ¬ Manages pc := by cases hpc <;> exact id
    exact h.callStarts hclient
  | sendNoCopy n a hpc => exact h.clientMoves hpc id id
  | sendCopy n a c hpc hfresh => exact h.clientMoves hpc id id
  | execNoItem n a hpc => exact h.clientMoves hpc id id
  | execItem n a i hpc hfresh =>
    refine h.clientMoves hpc id ?_
    split <;> exact id
  | execNoCopy n a i hpc => exact h.clientMoves hpc id id
  | execCopy n a i c hpc hfresh => exact h.clientMoves hpc id id
  | sendRefused n a arg rc elem hpc hrc hsize => exact h.clientMoves hpc id id
  | sendRefusedFree n a arg rc elem hpc hrc hsize =>
    rw [giveBack_snd]
    exact h.clientMoves hpc id id
  | sendAccepted n a arg e hpc hrun hfresh => exact h.clientMoves hpc id id
  | execRefused n a i newArg rc elem hpc hrc =>
    refine h.clientMoves hpc id ?_
    split <;> exact id
  | execAccepted n a i newArg e hpc hrun hfresh => exact h.clientMoves hpc id id
  | stopRefused n waitFinish rc elem hpc hrc => exact h.clientMoves hpc id id
  | stopAccepted n waitFinish e hpc hrun hfresh =>
    refine h.clientMoves hpc id ?_ (.inr ⟨by simp [hrun], by simp [ActivityWorld.setCall]⟩)
    split <;> exact id
  | freeArg n a i newArg rc hpc =>
    rw [giveBack_snd]
    exact h.clientMoves hpc id id
  | freeItem n a i rc hpc =>
    rw [giveBack_snd]
    exact h.clientMoves hpc id id
  | joinRead n hpc => exact h.clientMoves hpc id id
  | joinDone n thread hpc hended => exact h.clientMoves hpc id id
  | runLock n rc hpc hfree =>
    have hsole : ∀ (m : ℕ) (q : CallPc), m ≠ n → s.calls[m]? = some q → ¬ Manages q :=
      fun m q _ => h.sole_of_free hfree m q
    refine turns_managerMoves hpc hsole rfl h.alone (fun _ => rfl) trivial ?_
    intro hstop hlive
    exact absurd (h.rests hpc hsole (by simp) hstop).2 hlive
  | runBack n rc rc' pc exited hpc hwhere =>
    obtain ⟨hmanages, hne⟩ := manages_of_runBack hwhere
    have hsole := h.sole hpc hmanages
    refine turns_managerMoves hpc hsole rfl h.alone (fun hf => hf.elim) trivial ?_
    intro hstop hlive
    exact absurd (h.rests hpc hsole hne hstop).2 hlive
  | runNotCreated n rc hpc hrc =>
    have hturn := h.turn n _ hpc
    exact turns_managerMoves hpc (h.sole hpc trivial) rfl h.alone (fun hf => hf.elim) trivial
      (fun _ hlive => absurd hturn.1.2 hlive)
  | runCheck n rc hpc hstop =>
    have hsole := h.sole hpc trivial
    have hrests : Rests s := h.rests hpc hsole (by simp) hstop
    exact turns_managerMoves hpc hsole rfl h.alone (fun _ => h.managed n _ hpc trivial) hrests
      (fun _ hlive => absurd hrests.2 hlive)
  | runInit n rc hpc =>
    have hrests : Rests s := h.turn n _ hpc
    exact turns_managerMoves hpc (h.sole hpc trivial) rfl h.alone
      (fun _ => h.managed n _ hpc trivial) ⟨hrests, rfl⟩ (fun _ hlive => absurd hrests.2 hlive)
  | runEventInit n rc hpc =>
    have hturn := h.turn n _ hpc
    exact turns_managerMoves hpc (h.sole hpc trivial) rfl h.alone
      (fun _ => h.managed n _ hpc trivial) hturn (fun _ hlive => absurd hturn.1.2 hlive)
  | runCreate n hpc =>
    obtain ⟨⟨hstop, hended⟩, -⟩ := h.turn n _ hpc
    exact turns_managerMoves hpc (h.sole hpc trivial) rfl ⟨_, (hended.snoc .starting).1⟩
      (fun _ => h.managed n _ hpc trivial) hstop (fun _ _ => rfl)
  | runStarted n rc hpc =>
    exact turns_managerMoves hpc (h.sole hpc trivial) rfl h.alone (fun hf => hf.elim) trivial
      (fun hrun => by cases hrun)
  | workerStart w hpc => exact h.workerMoves hpc (by simp) rfl (.inl ⟨rfl, by simp⟩)
  | drained w hpc hqueue => exact h.workerMoves hpc (by simp) rfl (.inl ⟨rfl, by simp⟩)
  | dequeue w msg queue hpc hqueue => exact h.workerMoves hpc (by simp) rfl (.inl ⟨rfl, by simp⟩)
  | handle w msg hpc =>
    rw [handleMsg_snd]
    exact h.workerMoves hpc (by simp) rfl (.inl ⟨rfl, by simp⟩)
  | workerEnd w hpc => exact h.workerMoves hpc (by simp) rfl (.inr ⟨rfl, rfl⟩)
  | pollBack w hpc hexited => exact h.workerMoves hpc (by simp) rfl (.inl ⟨rfl, by simp⟩)
  | pollCall w hpc => exact h.workerMoves hpc (by simp) rfl (.inl ⟨rfl, by simp⟩)

end Ctools.Analysis
