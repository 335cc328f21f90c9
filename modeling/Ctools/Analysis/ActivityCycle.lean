import Ctools.Analysis.ActivityFifo

/-!
# The cycle of an activity's states

The state changes where `activity_run` has started a worker, where a call of
`activity_stop` is accepted and where the worker writes its last state
(`CycleStep`), and from each state by one of these only.  So a stop is accepted
once between two starts (`stops_of_run`), and a call of `activity_stop` that
returns 0 was accepted (`stopsKept_of_run`).
-/

set_option autoImplicit false

namespace Ctools.Analysis

open Ctools.Library Ctools.Program Ctools.Interface

variable {handler : Bool} {s s' : ActivityWorld} {o : ActObs}

/-- What a step does to the state. -/
inductive CycleStep (s : ActivityWorld) (o : ActObs) (s' : ActivityWorld) : Prop
  | stays (hstate : s'.state = s.state) (hstop : acceptsStop o = false)
  | enters (hbefore : s.state = .stop) (hafter : s'.state = .run) (henters : EntersRun o)
      (hstop : acceptsStop o = false)
  | stops (hbefore : s.state = .run) (hafter : s'.state = .pendingStop)
      (hstop : acceptsStop o = true)
  | ends (hbefore : s.state = .pendingStop) (hafter : s'.state = .stop)
      (hstop : acceptsStop o = false)

/-- A step of the cycle moves the state as the cycle has it. -/
theorem CycleStep.moves (h : CycleStep s o s') : StateMoves s.state s'.state := by
  cases h with
  | stays hstate => exact .inl hstate
  | enters hbefore hafter => exact .inr (.inl ⟨hbefore, hafter⟩)
  | stops hbefore hafter => exact .inr (.inr (.inl ⟨hbefore, hafter⟩))
  | ends hbefore hafter => exact .inr (.inr (.inr ⟨hbefore, hafter⟩))

/-- A client's message is no stop. -/
theorem acceptsStop_of_client {msg : ActMsg} (henq : o.enqueued = some msg) (hmsg : IsClient msg) :
    acceptsStop o = false := by
  simp [acceptsStop, henq, hmsg]

/-- Every step goes on in the cycle. -/
theorem cycle_step {a : ActivityAct} (hmove : ActMove handler s a o s') (hliving : Living s) :
    CycleStep s o s' := by
  cases hmove with
  | sendRefusedFree | freeArg | freeItem =>
    rw [giveBack_fst, giveBack_snd]
    exact .stays rfl rfl
  | handle =>
    rw [handleMsg_fst, handleMsg_snd]
    exact .stays rfl rfl
  | sendAccepted n a arg e hpc hrun hfresh =>
    have hrange : IsPlain a.msg := (hliving.shape n _ hpc).1
    exact .stays rfl (acceptsStop_of_client rfl (isClient_sendMsg hrange arg e))
  | execAccepted n a i newArg e hpc hrun hfresh =>
    exact .stays rfl (acceptsStop_of_client rfl (isClient_execMsg i e))
  | stopAccepted n waitFinish e hpc hrun hfresh =>
    exact .stops hrun rfl (by simp [acceptsStop, not_isClient_stopMsg])
  | runStarted n rc hpc =>
    have hstop : s.state = .stop := (hliving.life.sees n _ hpc).1
    exact .enters hstop rfl ⟨rfl, hstop⟩ rfl
  | workerEnd w hpc =>
    have hpending := (hliving.life.worker hpc (by simp)).2.finish.1
    exact .ends hpending rfl rfl
  | _ => exact .stays rfl rfl

/-- Between two starts a call of `activity_stop` is accepted once at most. -/
theorem stops_of_run {t : ActivityWorld} (hliving : Living s) {h : List (ActivityAct × ActObs)}
    (hrun : (activityMachine handler).Run plainMsgs s h t) :
    (∀ e ∈ h, ¬ EntersRun e.2) → (stopsAccepted h).length ≤ 1 := by
  have hcount : Living t ∧ ((∀ e ∈ h, ¬ EntersRun e.2) →
      (stopsAccepted h).length + (if t.state = .run then 1 else 0) ≤ 1) := by
    refine hrun.invariant (fun h t => Living t ∧ ((∀ e ∈ h, ¬ EntersRun e.2) →
      (stopsAccepted h).length + (if t.state = .run then 1 else 0) ≤ 1))
      ⟨hliving, fun _ => by
        rw [stopsAccepted, List.filter_nil, List.length_nil]; split <;> omega⟩ ?_
    rintro h t a o t' ⟨hliving, hcount⟩ hguard hstep
    have hmove := actMove_of_step hstep
    refine ⟨living_step hliving hguard hmove, fun hnone => ?_⟩
    have hbefore := hcount fun e he => hnone e (List.mem_append_left _ he)
    have hsnoc : stopsAccepted (h ++ [(a, o)]) =
        stopsAccepted h ++ if acceptsStop o then [(a, o)] else [] := by
      by_cases hstop : acceptsStop o <;> simp [stopsAccepted, List.filter_append, hstop]
    rw [hsnoc, List.length_append]
    cases cycle_step hmove hliving with
    | stays hstate hstop =>
      rw [hstate, hstop]
      exact hbefore
    | enters hstop hrun henters => exact absurd henters (hnone (a, o) (by simp))
    | stops hrun hpending hstop =>
      rw [if_pos hrun] at hbefore
      rw [hstop, hpending, if_pos rfl, if_neg (by simp), List.length_singleton]
      omega
    | ends hpending hend hstop =>
      rw [hend, hstop, if_neg (by simp), if_neg (by simp), List.length_nil]
      omega
  intro hnone
  have hle := hcount.2 hnone
  omega

/-- A call of `activity_stop` behind its critical section. -/
def Joins : CallPc → Prop
  | .stopJoin | .stopJoining _ => True
  | _ => False

/-- A call that joins did so before, if the one that moved does not join now. -/
theorem joins_set {calls : List CallPc} {n m : ℕ} {pc' q : CallPc} (hpc' : ¬ Joins pc')
    (hq : (calls.set n pc')[m]? = some q) (hjoins : Joins q) : calls[m]? = some q := by
  rcases getElem?_set_cases hq with ⟨-, rfl⟩ | ⟨-, hold⟩
  · exact absurd hjoins hpc'
  · exact hold

/-- A call that joins did so before, if the one that starts does not join. -/
theorem joins_snoc {calls : List CallPc} {m : ℕ} {pc' q : CallPc} (hpc' : ¬ Joins pc')
    (hq : (calls ++ [pc'])[m]? = some q) (hjoins : Joins q) : calls[m]? = some q := by
  rcases getElem?_snoc_cases hq with ⟨-, rfl⟩ | hold
  · exact absurd hjoins hpc'
  · exact hold

/-- A call that waits for the worker did so before, or is accepted now. -/
theorem joins_step {a : ActivityAct} (hmove : ActMove handler s a o s') {m : ℕ} {q : CallPc}
    (hq : s'.calls[m]? = some q) (hjoins : Joins q) :
    (∃ pc, s.calls[m]? = some pc ∧ Joins pc) ∨ (mover a = some m ∧ acceptsStop o = true) := by
  cases hmove with
  | refuse c rc hrc => exact .inl ⟨q, joins_snoc id hq hjoins, hjoins⟩
  | enter c pc hpc =>
    have hpc' : ¬ Joins pc := by cases hpc <;> exact id
    exact .inl ⟨q, joins_snoc hpc' hq hjoins, hjoins⟩
  | execItem n a i hpc hfresh =>
    refine .inl ⟨q, joins_set ?_ hq hjoins, hjoins⟩
    split <;> exact id
  | sendRefusedFree | freeArg | freeItem =>
    rw [giveBack_snd] at hq
    exact .inl ⟨q, joins_set id hq hjoins, hjoins⟩
  | execRefused n a i newArg rc elem hpc hrc =>
    refine .inl ⟨q, joins_set ?_ hq hjoins, hjoins⟩
    split <;> exact id
  | stopAccepted n waitFinish e hpc hrun hfresh =>
    rcases getElem?_set_cases hq with ⟨rfl, -⟩ | ⟨-, hold⟩
    · exact .inr ⟨rfl, by simp [acceptsStop, not_isClient_stopMsg]⟩
    · exact .inl ⟨q, hold, hjoins⟩
  | joinRead n hpc =>
    rcases getElem?_set_cases hq with ⟨rfl, -⟩ | ⟨-, hold⟩
    · exact .inl ⟨.stopJoin, hpc, trivial⟩
    · exact .inl ⟨q, hold, hjoins⟩
  | handle w msg hpc =>
    rw [handleMsg_snd] at hq
    exact .inl ⟨q, hq, hjoins⟩
  | workerStart w hpc | drained w hpc | dequeue w msg queue hpc | workerEnd w hpc | pollBack w hpc
  | pollCall w hpc => exact .inl ⟨q, hq, hjoins⟩
  | _ => exact .inl ⟨q, joins_set id hq hjoins, hjoins⟩

/-- A call of `activity_stop` returns 0 where it is accepted, or waits before. -/
theorem returns_step {a : ActivityAct} (hmove : ActMove handler s a o s')
    {waitFinish : Bool} (hret : o.ret = some (.stop waitFinish, 0)) :
    ∃ n, mover a = some n ∧
      ((∃ pc, s.calls[n]? = some pc ∧ Joins pc) ∨ acceptsStop o = true) := by
  cases hmove with
  | refuse c rc hrc =>
    cases hret
    exact absurd rfl hrc
  | sendRefusedFree | freeArg | freeItem =>
    rw [giveBack_fst] at hret
    cases hret
  | stopRefused n waitFinish rc elem hpc hrc =>
    cases hret
    exact absurd rfl hrc
  | stopAccepted n waitFinish e hpc hrun hfresh =>
    exact ⟨n, rfl, .inr (by simp [acceptsStop, not_isClient_stopMsg])⟩
  | joinDone n thread hpc hended => exact ⟨n, rfl, .inl ⟨.stopJoining thread, hpc, trivial⟩⟩
  | handle =>
    rw [handleMsg_fst] at hret
    cases hret
  | _ => cases hret

/-- Call `n` of `activity_stop` was accepted. -/
def WasAccepted (h : List (ActivityAct × ActObs)) (n : ℕ) : Prop :=
  ∃ e ∈ stopsAccepted h, mover e.1 = some n

/-- What was accepted stays so. -/
theorem WasAccepted.snoc {h : List (ActivityAct × ActObs)} {n : ℕ} (hn : WasAccepted h n)
    (e : ActivityAct × ActObs) : WasAccepted (h ++ [e]) n := by
  obtain ⟨f, hf, hmover⟩ := hn
  refine ⟨f, ?_, hmover⟩
  rw [stopsAccepted, List.filter_append]
  exact List.mem_append_left _ hf

/-- The last step accepted the stop of its call. -/
theorem wasAccepted_last (h : List (ActivityAct × ActObs)) {a : ActivityAct} {n : ℕ}
    (hmover : mover a = some n) (hstop : acceptsStop o = true) : WasAccepted (h ++ [(a, o)]) n := by
  refine ⟨(a, o), ?_, hmover⟩
  simp [stopsAccepted, List.filter_append, hstop]

/-- The calls of `activity_stop` that wait for the worker, and those that returned
0, were accepted. -/
structure StopsKept (h : List (ActivityAct × ActObs)) (s : ActivityWorld) : Prop where
  joins : ∀ (n : ℕ) (pc : CallPc), s.calls[n]? = some pc → Joins pc → WasAccepted h n
  returns : ∀ e ∈ h, ∀ waitFinish, e.2.ret = some (.stop waitFinish, 0) →
    ∃ n, mover e.1 = some n ∧ WasAccepted h n

/-- What holds of the stops in every state of a run. -/
theorem stopsKept_of_run {h : List (ActivityAct × ActObs)}
    (hrun : (activityMachine handler).Run plainMsgs activityStart h s) : StopsKept h s := by
  refine hrun.invariant StopsKept ⟨fun n pc hpc => (by cases hpc), fun e he => (by cases he)⟩ ?_
  rintro h s a o s' ⟨hjoins, hreturns⟩ - hstep
  have hmove := actMove_of_step hstep
  refine ⟨fun n pc hpc hpcjoins => ?_, fun e he waitFinish hret => ?_⟩
  · rcases joins_step hmove hpc hpcjoins with ⟨q, hq, hqjoins⟩ | ⟨hmover, hstop⟩
    · exact (hjoins n q hq hqjoins).snoc _
    · exact wasAccepted_last h hmover hstop
  · rcases List.mem_append.mp he with hold | hlast
    · obtain ⟨n, hmover, hn⟩ := hreturns e hold waitFinish hret
      exact ⟨n, hmover, hn.snoc _⟩
    · rw [List.mem_singleton.mp hlast] at hret ⊢
      obtain ⟨n, hmover, ⟨pc, hpc, hpcjoins⟩ | hstop⟩ := returns_step hmove hret
      · exact ⟨n, hmover, (hjoins n pc hpc hpcjoins).snoc _⟩
      · exact ⟨n, hmover, wasAccepted_last h hmover hstop⟩

/-- A worker is started after the end of all others. -/
theorem ended_of_started {a : ActivityAct} (hmove : ActMove handler s a o s') (hlife : Life s)
    (hmore : s.workers.length < s'.workers.length) : AllEnded s.workers := by
  cases hmove with
  | runCreate n hpc => exact (hlife.sees n _ hpc).1.2
  | sendRefusedFree | freeArg | freeItem =>
    rw [giveBack_snd] at hmore
    exact absurd hmore (Nat.lt_irrefl _)
  | handle =>
    rw [handleMsg_snd, ActivityWorld.setWorker, List.length_set] at hmore
    exact absurd hmore (Nat.lt_irrefl _)
  | workerStart | drained | dequeue | workerEnd | pollBack | pollCall =>
    rw [ActivityWorld.setWorker, List.length_set] at hmore
    exact absurd hmore (Nat.lt_irrefl _)
  | _ => exact absurd hmore (Nat.lt_irrefl _)

/-- While the activity is not stopped, its worker is alive. -/
theorem Life.live (h : Life s) (hstate : s.state ≠ .stop) :
    ∃ (w : ℕ) (pc : WorkerPc), s.workers[w]? = some pc ∧ pc ≠ .ended := by
  obtain ⟨w, -, hphase⟩ := h.phase
  have hlive := hphase.live hstate
  cases hpc : s.workers[w]? with
  | none => exact absurd (by rw [pcAt, hpc, Option.getD_none]) hlive
  | some pc => exact ⟨w, pc, rfl.trans hpc, fun hended => hlive ((pcAt_eq hpc).trans hended)⟩

end Ctools.Analysis

open Ctools.Library Ctools.Program Ctools.Interface Ctools.Analysis in
/-- **The life cycle of an activity.**  In every run the state moves only from
stopped to running to pending stop to stopped; one worker at most is between its
start and its last write of the state, and one is while the activity runs or is to
stop; a worker is started only after the end of all others; between two starts one
call of `activity_stop` at most is accepted; and one that returned 0 was accepted.
SOURCE: activity.c:71-84, activity.c:160-219, activity.c:291-305 -/
theorem Ctools.Analysis.activity_life_cycle (handler : Bool) (h : List (ActivityAct × ActObs))
    (s : ActivityWorld) (hrun : (activityMachine handler).Run clientMsgs activityStart h s) :
    (∀ a o s', clientMsgs s a → activityStep handler s a = some (o, s') →
      StateMoves s.state s'.state ∧ (s'.state = .run → s.state ≠ .run → EntersRun o) ∧
      (s.workers.length < s'.workers.length → ∀ (w : ℕ) (pc : WorkerPc),
        s.workers[w]? = some pc → pc = .ended)) ∧
    (∀ (v w : ℕ) (pc pc' : WorkerPc), s.workers[v]? = some pc → s.workers[w]? = some pc' →
      pc ≠ .ended → pc' ≠ .ended → v = w) ∧
    (s.state = .run ∨ s.state = .pendingStop →
      ∃ (w : ℕ) (pc : WorkerPc), s.workers[w]? = some pc ∧ pc ≠ .ended) ∧
    (∀ h' t, (activityMachine handler).Run clientMsgs s h' t → (∀ e ∈ h', ¬ EntersRun e.2) →
      (stopsAccepted h').length ≤ 1) ∧
    ∀ e ∈ h, ∀ waitFinish, e.2.ret = some (.stop waitFinish, 0) →
      ∃ n, mover e.1 = some n ∧ ∃ e' ∈ stopsAccepted h, mover e'.1 = some n := by
  have hplain := hrun.weaken plainMsgs_of_clientMsgs
  have hliving := (accepted_eq hplain).1
  refine ⟨fun a o s' hguard hstep => ?_, fun v w pc pc' hv hw hlive hlive' => ?_,
    fun hstate => hliving.life.live (by rcases hstate with h | h <;> simp [h]),
    fun h' t hrest => stops_of_run hliving (hrest.weaken plainMsgs_of_clientMsgs),
    (stopsKept_of_run hplain).returns⟩
  · have hmove := actMove_of_step hstep
    have hcycle := cycle_step hmove hliving
    refine ⟨hcycle.moves, fun hafter hbefore => ?_, fun hmore w pc hw => ?_⟩
    · cases hcycle with
      | stays hstate => exact absurd (hstate.symm.trans hafter) hbefore
      | enters _ _ henters => exact henters
      | stops _ hpending => exact absurd (hpending.symm.trans hafter) (by simp)
      | ends _ hend => exact absurd (hend.symm.trans hafter) (by simp)
    · exact (pcAt_eq hw).symm.trans (ended_of_started hmove hliving.life hmore w)
  · obtain ⟨u, halone, -⟩ := hliving.life.phase
    rw [halone.eq hv hlive, halone.eq hw hlive']

open Ctools.Library Ctools.Program Ctools.Interface Ctools.Analysis in
/-- The theorem at a run with a start, two stops of which one is refused, the end
of the worker, and a second start in which `uev_event_init` and then nothing fails. -/
theorem Ctools.Analysis.activity_life_cycle_restarted :
    ∃ h s, (activityMachine true).Run clientMsgs activityStart h s ∧ s.state = .run ∧
      s.workers = [.ended, .starting] ∧ (stopsAccepted h).length = 1 ∧
      ∃ (w : ℕ) (pc : WorkerPc), s.workers[w]? = some pc ∧ pc ≠ .ended := by
  have hrun := Machine.run_of_execUnder (m := activityMachine true) clientMsgs activityStart
    [.call .run, .run 0 0, .run 0 0, .run 0 0, .run 0 0, .run 0 0, .run 0 0,
      .call (.stop true), .call (.stop false), .locked 1 (some 0), .locked 2 (some 1), .join 1,
      .worker 0, .poll 0 false, .worker 0, .worker 0, .worker 0, .poll 0 true, .worker 0, .join 1,
      .call .run, .run 3 0, .run 3 0, .run 3 0, .run 3 (-1),
      .call .run, .run 4 0, .run 4 0, .run 4 0, .run 4 0, .run 4 0, .run 4 0] rfl
  have hcycle := activity_life_cycle true _ _ hrun
  exact ⟨_, _, hrun, rfl, rfl, rfl, hcycle.2.2.1 (.inl rfl)⟩
