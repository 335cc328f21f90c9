import Ctools.Analysis.PooledWorker

/-!
# Delivery over the pools

A step of an activity over its pools is not seen, or is one of an `ActivityWorld`, if the
calls on the pools do not meet (`pooled_simulated`).  So a run keeps what the steps of an
`ActivityWorld` keep (`Delivering`): the messages accepted are those handled and those on
their way, and what is called for each is what was asked for.  Where a worker's `pool_free`
meets the `pool_malloc` of a sender, messages are lost (`activity_fifo_raced`).
-/

set_option autoImplicit false

namespace Ctools.Analysis

open Ctools.Library Ctools.Program Ctools.Interface

variable {handler : Bool} {s s' : PooledWorld} {ring : List Addr} {queue : List ActMsg}
  {O : List Obj} {o : ActObs}

/-- **A step of an activity over its pools** is one of an `ActivityWorld` or not seen, if the
calls on the pools do not meet.
SOURCE: activity.c:42-393 -/
theorem pooled_simulated {a : PooledAct} (hs : Seen s ring queue O)
    (hliving : Living (seen s queue O)) (howned : Owned (seen s queue O)) (hguard : apart s a)
    (hstep : pooledStep handler s a = some (o, s')) : Simulated handler (seen s queue O) o s' := by
  have hO : O.Nodup := howned.nodup
  have hbesides {moved : Option (ActObs × ActivityWorld)}
      (hmoved : s.besides moved = some (o, s')) :
      ∃ act, moved = some (o, act) ∧ s' = { s with act := act } := by
    obtain ⟨⟨shown, act⟩, hact, heq⟩ := Option.map_eq_some_iff.mp hmoved
    cases heq
    exact ⟨act, hact, rfl⟩
  cases a with
  | call c =>
    obtain ⟨act, hact, rfl⟩ := hbesides hstep
    refine call_simulated hs hO ?_ (actMove_of_step (a := .call c) hact)
    refine plainMsgs_of_clientMsgs _ (.call c) ?_
    cases c with
    | send a => exact hguard
    | _ => trivial
  | copy n block =>
    by_cases hitem : ∃ a, s.act.calls[n]? = some (.execItem a)
    · obtain ⟨a, ha⟩ := hitem
      simp [pooledStep, ha] at hstep
    · have hcopy : ∀ a, s.act.calls[n]? ≠ some (.execItem a) := fun a ha => hitem ⟨a, ha⟩
      have hmoved : s.besides (allocStep s.act n block) = some (o, s') := by
        simpa only [pooledStep] using hstep
      obtain ⟨act, hact, rfl⟩ := hbesides hmoved
      exact copy_simulated hs howned hcopy (actMove_of_step (a := .alloc n block) hact)
  | item n reallocated backed => exact item_simulated hs howned hguard hstep
  | locked n reallocated backed =>
    by_cases hstate : s.act.state = .run
    · exact section_simulated hs hliving howned hstate hguard hstep
    · have hmoved : s.besides (Program.lockedStep s.act n none) = some (o, s') := by
        simp only [pooledStep, PooledWorld.lockedStep, ne_eq, hstate, not_false_eq_true, if_true]
          at hstep
        exact hstep
      obtain ⟨act, hact, rfl⟩ := hbesides hmoved
      exact refused_simulated hs howned hliving.shape (actMove_of_step (a := .locked n none) hact)
  | free n =>
    by_cases hitem : ∃ a i rc, s.act.calls[n]? = some (.execFreeItem a i rc)
    · obtain ⟨a, i, rc, ha⟩ := hitem
      simp [pooledStep, ha] at hstep
    · have hcopy : ∀ a i rc, s.act.calls[n]? ≠ some (.execFreeItem a i rc) :=
        fun a i rc ha => hitem ⟨a, i, rc, ha⟩
      have hmoved : s.besides (freeStep s.act n) = some (o, s') := by
        simpa only [pooledStep] using hstep
      obtain ⟨act, hact, rfl⟩ := hbesides hmoved
      exact free_simulated hs howned hliving.shape hcopy (actMove_of_step (a := .free n) hact)
  | run n rc =>
    obtain ⟨act, hact, rfl⟩ := hbesides hstep
    exact run_simulated hs hO (actMove_of_step (a := .run n rc) hact)
  | join n =>
    obtain ⟨act, hact, rfl⟩ := hbesides hstep
    exact join_simulated hs hO (actMove_of_step (a := .join n) hact)
  | worker w => exact worker_simulated hs hliving howned hguard hstep
  | poll w back =>
    by_cases hnone : s.hand w = .none
    · have hmoved : s.besides (pollStep s.act w back) = some (o, s') := by
        simpa only [pooledStep, hnone] using hstep
      obtain ⟨act, hact, rfl⟩ := hbesides hmoved
      exact poll_simulated hs hO hnone (actMove_of_step (a := .poll w back) hact)
    · simp only [pooledStep] at hstep
      cases hstep

/-! ## Runs -/

/-- What a run has delivered, and what is on its way. -/
structure Delivering (handler : Bool) (h : List (PooledAct × ActObs)) (s : PooledWorld)
    (ring : List Addr) (queue : List ActMsg) (O : List Obj) : Prop where
  memory : Seen s ring queue O
  living : Living (seen s queue O)
  owned : Owned (seen s queue O)
  filled : Filled (seen s queue O)
  order : accepted h = handled h ++ pipeline (seen s queue O)
  served : List.Forall₂ (Serves handler) (acceptedCalls h)
    (deliveries h ++ pending handler (seen s queue O))

/-- What `pool_init` leaves in a registered activity that was not started. -/
theorem delivered_start {msgPool itemPool : Pool}
    (hmsgs : poolInit 8 SIZEOF_ACT_MSG ACTIVITY_MSG_POOL_ITEMS true = some (0, msgPool))
    (hitems : poolInit 8 SIZEOF_ACT_MSG_EXEC_ITEM ACTIVITY_MSG_EXEC_ITEM_POOL_ITEMS true =
      some (0, itemPool)) :
    Delivering handler [] (pooledStart msgPool itemPool) [] [] [] := by
  have helems : PoolHolds SIZEOF_ACT_MSG ACTIVITY_MSG_POOL_ITEMS
      (pooledStart msgPool itemPool).msgPool [] := by
    have hholds := poolHolds_start (by decide) (by decide) (by decide) hmsgs
      (pooledStart msgPool itemPool).msgPool.next
    cases hmsgs
    exact hholds
  have hitemPool : PoolHolds SIZEOF_ACT_MSG_EXEC_ITEM ACTIVITY_MSG_EXEC_ITEM_POOL_ITEMS
      (pooledStart msgPool itemPool).itemPool [] := by
    have hholds := poolHolds_start (by decide) (by decide) (by decide) hitems
      (pooledStart msgPool itemPool).itemPool.next
    cases hitems
    exact hholds
  have hring : (pooledStart msgPool itemPool).links.Circular msgQueue [] :=
    Links.circular_nil ⟨rfl, rfl⟩
  refine ⟨⟨⟨[], hring, helems, ?_, .nil, ?_, ?_⟩, ⟨[], hitemPool, ?_, ?_, ?_⟩, List.nodup_nil, ?_,
    fun _ => trivial, ?_, ?_⟩, living_start, owned_start, filled_start, rfl, .nil⟩
  all_goals simp [pooledStart, handElem, handItem, activityStart]

/-- What is shown of a step counts, but not what is taken and given back. -/
theorem ShownAs.counts {o' : ActObs} (h : ShownAs o o') :
    accepts o' = accepts o ∧ handles o' = handles o ∧ acceptsCall o' = acceptsCall o ∧
      delivers o' = delivers o ∧ (Answers o' → Answers o) := by
  rw [h.same]
  exact ⟨rfl, rfl, rfl, rfl, fun ha => ⟨ha.enqueued_run, ha.accepted_msg, ha.msg_accepted⟩⟩

/-- A step that is not seen counts for nothing. -/
theorem Unseen.counts (h : Unseen o) :
    accepts o = [] ∧ handles o = [] ∧ acceptsCall o = [] ∧ delivers o = [] ∧ Answers o := by
  have hhandles : handles o = [] := by rw [handles, h.handled]; rfl
  refine ⟨by rw [accepts, h.ret], hhandles, by rw [acceptsCall, h.ret], ?_,
    answers_of_silent h.enqueued h.ret⟩
  rw [delivers, hhandles]
  rfl

/-- **Every step** delivers in order what was asked for.
SOURCE: activity.c:42-393 -/
theorem delivered_step {h : List (PooledAct × ActObs)} {a : PooledAct}
    (hd : Delivering handler h s ring queue O) (hguard : apart s a)
    (hstep : pooledStep handler s a = some (o, s')) :
    (∃ ring' queue' O', Delivering handler (h ++ [(a, o)]) s' ring' queue' O') ∧
      Answers o ∧ o.fault = false := by
  have hsnoc {α : Type} (f : ActObs → List α) :
      (h ++ [(a, o)]).flatMap (fun e => f e.2) = h.flatMap (fun e => f e.2) ++ f o := by simp
  cases pooled_simulated hd.memory hd.living hd.owned hguard hstep with
  | unseen ring' queue' O' hs hsame ho =>
    obtain ⟨haccepts, hhandles, hcalls, hdelivers, hanswers⟩ := ho.counts
    refine ⟨⟨ring', queue', O', hs, ?_, ?_, ?_, ?_, ?_⟩, hanswers, ho.fault⟩
    · exact hsame ▸ hd.living
    · exact hsame ▸ hd.owned
    · exact hsame ▸ hd.filled
    · rw [hsame, accepted, handled, hsnoc, hsnoc, haccepts, hhandles, List.append_nil,
        List.append_nil]
      exact hd.order
    · rw [hsame, acceptedCalls, deliveries, hsnoc, hsnoc, hcalls, hdelivers, List.append_nil,
        List.append_nil]
      exact hd.served
  | move b o' ring' queue' O' hmove hmsgs ho hs =>
    obtain ⟨haccepts, hhandles, hcalls, hdelivers, hanswers⟩ := ho.counts
    have hpipeline := pipeline_step hmove hd.living.shape hd.living.life
    obtain ⟨asked, hasked, hpending⟩ := delivery_step hmove hd.living hd.owned hd.filled
    rw [haccepts, hhandles] at hpipeline
    rw [hcalls] at hasked
    rw [hdelivers] at hpending
    refine ⟨⟨ring', queue', O', hs, living_step hd.living hmsgs hmove,
      (accounts_step hmove hd.living hd.owned hmsgs).owned hd.owned,
      filled_step hmove hd.owned hd.living.shape hd.filled, ?_, ?_⟩,
      hanswers (answers_step hmove hd.living.shape), ho.fault⟩
    · calc accepted (h ++ [(a, o)])
          = accepted h ++ accepts o := hsnoc accepts
        _ = handled h ++ (pipeline (seen s queue O) ++ accepts o) := by
            rw [hd.order, List.append_assoc]
        _ = handled h ++ handles o ++ pipeline (seen s' queue' O') := by
            rw [hpipeline, List.append_assoc]
        _ = handled (h ++ [(a, o)]) ++ pipeline (seen s' queue' O') := by
            rw [handled, handled, hsnoc]
    · have hall : List.Forall₂ (Serves handler) (acceptedCalls h ++ acceptsCall o)
          (deliveries h ++ pending handler (seen s queue O) ++ asked) :=
        List.rel_append hd.served hasked
      rw [List.append_assoc, hpending, ← List.append_assoc] at hall
      rw [acceptedCalls, deliveries, hsnoc, hsnoc]
      exact hall

/-- What the workers are seen to hold is what they have in their hands. -/
theorem hands_seen (hs : Seen s ring queue O) : hands (seen s queue O) = inHand s := by
  have hheld (hand : Hand) (pc : WorkerPc) (hpc : ∀ msg, pc ≠ .holding msg) :
      held (seenPc s.msgs hand pc) = unhandled s.msgs hand := by
    have hnone : held pc = [] := by
      cases pc with
      | holding msg => exact absurd rfl (hpc msg)
      | _ => rfl
    cases hand with
    | msg elem =>
      rw [seenPc, unhandled]
      cases s.msgs elem with
      | none => exact hnone
      | some msg => rfl
    | _ => exact hnone
  have hmap : (seenWorkers s).map held =
      s.act.workers.mapIdx fun w _ => unhandled s.msgs (s.hand w) := by
    refine List.ext_getElem? fun w => ?_
    rw [List.getElem?_map, getElem?_seenWorkers, List.getElem?_mapIdx]
    cases hw : s.act.workers[w]? with
    | none => rfl
    | some pc =>
      refine congrArg some (hheld _ pc fun msg heq => ?_)
      exact hs.plain w msg (heq ▸ hw)
  rw [inHand, ← hmap]
  rfl

/-- What holds in every state of a run. -/
theorem delivered_run {msgPool itemPool : Pool}
    (hmsgs : poolInit 8 SIZEOF_ACT_MSG ACTIVITY_MSG_POOL_ITEMS true = some (0, msgPool))
    (hitems : poolInit 8 SIZEOF_ACT_MSG_EXEC_ITEM ACTIVITY_MSG_EXEC_ITEM_POOL_ITEMS true =
      some (0, itemPool)) {h : List (PooledAct × ActObs)}
    (hrun : (pooledMachine handler).Run apart (pooledStart msgPool itemPool) h s) :
    (∃ ring queue O, Delivering handler h s ring queue O) ∧
      ∀ e ∈ h, Answers e.2 ∧ e.2.fault = false := by
  refine hrun.invariant (fun h s => (∃ ring queue O, Delivering handler h s ring queue O) ∧
    ∀ e ∈ h, Answers e.2 ∧ e.2.fault = false)
    ⟨⟨_, _, _, delivered_start hmsgs hitems⟩, by simp⟩ ?_
  rintro h s a o s' ⟨⟨ring, queue, O, hd⟩, hall⟩ hguard hstep
  obtain ⟨hd', hanswers⟩ := delivered_step hd hguard hstep
  refine ⟨hd', fun e he => ?_⟩
  rcases List.mem_append.mp he with he | he
  · exact hall e he
  · rw [List.mem_singleton.mp he]
    exact hanswers

/-- `act_msg_pool` as its `pool_init` leaves it. -/
def startMsgPool : Pool :=
  { elementSize := 32, blockSize := 100, used := 99, block := -1, freed := .null, blocksUsed := 1
    blocks := [some .null] }

/-- `exec_item_pool` as its `pool_init` leaves it. -/
def startItemPool : Pool :=
  { elementSize := 24, blockSize := 20, used := 19, block := -1, freed := .null, blocksUsed := 1
    blocks := [some .null] }

end Ctools.Analysis

open Ctools.Library Ctools.Program Ctools.Interface Ctools.Analysis in
/-- **Exactly-once delivery in order**, as long as the calls on a pool do not meet.  Whatever
calls clients make and however their steps and those of the workers interleave, the messages
accepted are, in the order of their enqueue, those handled, the one in the worker's hand and
those in the queue; each is handled by the call of the client's function that was asked for;
a message is accepted only while the activity runs, by a call that returns 0; and a stopped
activity has handled all it accepted.
SOURCE: activity.c:42-180, activity.c:291-393 -/
theorem Ctools.Analysis.activity_fifo_apart (handler : Bool) (msgPool itemPool : Pool)
    (hmsgs : poolInit 8 SIZEOF_ACT_MSG ACTIVITY_MSG_POOL_ITEMS true = some (0, msgPool))
    (hitems : poolInit 8 SIZEOF_ACT_MSG_EXEC_ITEM ACTIVITY_MSG_EXEC_ITEM_POOL_ITEMS true =
      some (0, itemPool)) (h : List (PooledAct × ActObs)) (s : PooledWorld)
    (hrun : (pooledMachine handler).Run apart (pooledStart msgPool itemPool) h s) :
    ∃ queue, Queued s queue ∧
      accepted h = handled h ++ (inHand s).filter IsClient ++ queue.filter IsClient ∧
      (inHand s).length ≤ 1 ∧
      List.Forall₂ (Serves handler) (acceptedCalls h) (deliveries h ++
        ((inHand s).filter IsClient ++ queue.filter IsClient).map
          (handlerCall handler s.act.items)) ∧
      (∀ e ∈ h, Answers e.2 ∧ e.2.fault = false) ∧
      (s.act.state = .stop → queue = [] ∧ inHand s = [] ∧ accepted h = handled h ∧
        List.Forall₂ (Serves handler) (acceptedCalls h) (deliveries h)) := by
  obtain ⟨⟨ring, queue, O, hd⟩, hanswers⟩ := delivered_run hmsgs hitems hrun
  obtain ⟨live, helems⟩ := hd.memory.elems
  have hhands := hands_seen hd.memory
  have horder := hd.order
  have hserved := hd.served
  rw [pending] at hserved
  rw [pipeline, hhands] at horder hserved
  have hlength := hd.living.life.hands_length
  rw [hhands] at hlength
  refine ⟨queue, ⟨ring, helems.circular, helems.content.imp fun _ _ hc => hc.1⟩,
    horder.trans (List.append_assoc _ _ _).symm, hlength, hserved, hanswers, fun hstop => ?_⟩
  obtain ⟨hnone, hqueue⟩ := hd.living.life.stopped hstop
  rw [hhands] at hnone
  have hempty : queue = [] := hqueue
  rw [hnone, hempty] at horder hserved
  refine ⟨hempty, hnone, ?_, ?_⟩
  · simpa [seen] using horder
  · simpa [seen] using hserved

open Ctools.Library Ctools.Program Ctools.Interface Ctools.Analysis in
/-- The theorem at a run that sends message 50, executes a function on a copied argument, stops
while the worker holds the first message, and refuses a third. -/
theorem Ctools.Analysis.activity_fifo_apart_stopped :
    ∃ h s, (pooledMachine true).Run apart (pooledStart startMsgPool startItemPool) h s ∧
      s.act.state = .stop ∧ acceptedCalls h = [.send ⟨50, 7, 0, 0⟩, .exec ⟨9, 3, 4, 0⟩] ∧
      deliveries h = [some (.user 50 (.user 7)), some (.exec 9 (.copy 5))] ∧
      accepted h = handled h := by
  have hrun := Machine.run_of_execUnder (m := pooledMachine true) apart
    (pooledStart startMsgPool startItemPool)
    [.call .run, .run 0 0, .run 0 0, .run 0 0, .run 0 0, .run 0 0, .run 0 0,
      .call (.send ⟨50, 7, 0, 0⟩), .locked 1 true true,
      .call (.exec ⟨9, 3, 4, 0⟩), .item 2 true true, .item 2 true true, .copy 2 (some 5),
      .locked 2 true true, .worker 0, .poll 0 false, .worker 0,
      .call (.stop false), .locked 3 true true, .call (.send ⟨50, 8, 0, 0⟩), .locked 4 true true,
      .worker 0, .worker 0, .worker 0, .worker 0, .worker 0, .worker 0, .worker 0, .worker 0,
      .worker 0, .worker 0, .worker 0, .worker 0, .worker 0, .worker 0, .poll 0 true, .worker 0] rfl
  obtain ⟨queue, -, -, -, -, -, hstopped⟩ :=
    activity_fifo_apart true startMsgPool startItemPool rfl rfl _ _ hrun
  exact ⟨_, _, hrun, rfl, by decide, by decide, (hstopped rfl).2.2.1⟩

open Ctools.Library Ctools.Program Ctools.Interface Ctools.Analysis in
/-- A worker in `pool_free` of the second message has read `p->freed`, and is overtaken by the
`pool_malloc` of a sender; the element that the sender got is freed with the worker's own, and
handed out again while it is in the queue.  Of five messages accepted the third and the fourth
are lost.
SOURCE: activity.c:42-58, activity.c:134-148, pool.c:47-80 -/
theorem Ctools.Analysis.activity_fifo_raced :
    ∃ h s, (pooledMachine true).Run generalMsgs (pooledStart startMsgPool startItemPool) h s ∧
      (accepted h).map ActMsg.arg = [.user 1, .user 2, .user 3, .user 4, .user 5] ∧
      (handled h).map ActMsg.arg = [.user 1, .user 2, .user 5] ∧
      ∀ rest, accepted h ≠ handled h ++ rest := by
  have hrun := Machine.run_of_execUnder (m := pooledMachine true) generalMsgs
    (pooledStart startMsgPool startItemPool)
    [.call .run, .run 0 0, .run 0 0, .run 0 0, .run 0 0, .run 0 0, .run 0 0, .worker 0,
      .call (.send ⟨50, 1, 0, 0⟩), .locked 1 true true,
      .call (.send ⟨50, 2, 0, 0⟩), .locked 2 true true,
      .poll 0 false, .worker 0, .worker 0, .worker 0, .worker 0, .worker 0, .worker 0, .worker 0,
      .call (.send ⟨50, 3, 0, 0⟩), .locked 3 true true, .worker 0,
      .call (.send ⟨50, 4, 0, 0⟩), .locked 4 true true,
      .call (.send ⟨50, 5, 0, 0⟩), .locked 5 true true, .worker 0, .worker 0] rfl
  obtain ⟨h, s, hrun, haccepted, hhandled⟩ : ∃ h s,
      (pooledMachine true).Run generalMsgs (pooledStart startMsgPool startItemPool) h s ∧
        (accepted h).map ActMsg.arg = [.user 1, .user 2, .user 3, .user 4, .user 5] ∧
        (handled h).map ActMsg.arg = [.user 1, .user 2, .user 5] :=
    ⟨_, _, hrun, by decide, by decide⟩
  refine ⟨h, s, hrun, haccepted, hhandled, fun rest heq => ?_⟩
  have hargs := congrArg (List.map ActMsg.arg) heq
  rw [List.map_append, haccepted, hhandled] at hargs
  simp at hargs
