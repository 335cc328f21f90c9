import Ctools.Analysis.PooledSections

/-!
# The worker over the pools

The only worker with a message is in `msg_queue_handler`, and nobody else has what it has
still to release.  Where it takes the first message and where it calls the client's function
it is seen (`dequeue_simulated`, `handle_simulated`); what it releases behind that is not
seen, since it was seen to be gone with the call (`release_simulated`).
-/

set_option autoImplicit false

namespace Ctools.Analysis

open Ctools.Library Ctools.Program Ctools.Interface

variable {handler : Bool} {s s' : PooledWorld} {ring ring' : List Addr}
  {queue queue' : List ActMsg} {O O' : List Obj} {o : ActObs} {w : ℕ} {hand : Hand}

/-! ## One worker with a message -/

/-- Only worker `w` has a message, if any has one. -/
def OnlyHand (s : PooledWorld) (w : ℕ) (hand : Hand) : Prop :=
  s.hand w = hand ∧ ∀ v, v ≠ w → s.hand v = .none

/-- What a worker has of a message, the only worker with one has. -/
theorem OnlyHand.has {α : Type} {f : Hand → Option α} (h : OnlyHand s w hand)
    (hf : f .none = none) {v : ℕ} {x : α} (hv : f (s.hand v) = some x) : f hand = some x := by
  by_cases hvw : v = w
  · rwa [hvw, h.1] at hv
  · rw [h.2 v hvw, hf] at hv
    cases hv

/-- A worker that has no more of its message than before has what it had. -/
theorem OnlyHand.had {α : Type} {f : Hand → Option α} (h' : OnlyHand s' w hand)
    (hf : f .none = none) (hsub : ∀ x, f hand = some x → f (s.hand w) = some x) (v : ℕ) (x : α)
    (hv : f (s'.hand v) = some x) : f (s.hand v) = some x := by
  by_cases hvw : v = w
  · rw [hvw] at hv ⊢
    rw [h'.1] at hv
    exact hsub x hv
  · rw [h'.2 v hvw, hf] at hv
    cases hv

/-- A worker goes on with its message. -/
theorem OnlyHand.update {hand' : Hand} (h : OnlyHand s w hand) :
    OnlyHand (s.setHand w hand') w hand' :=
  ⟨Function.update_self .., fun v hv => (Function.update_of_ne hv _ _).trans (h.2 v hv)⟩

/-- The worker in `msg_queue_handler` is the only one that may have a message. -/
theorem Seen.onlyHand (hs : Seen s ring queue O) (hlife : Life (seen s queue O))
    (hw : s.act.workers[w]? = some .draining) : OnlyHand s w (s.hand w) :=
  ⟨rfl, fun _ hv => hs.others hlife hw hv⟩

/-- What is seen of the workers where only one has a message. -/
theorem seenWorkers_onlyHand (h : OnlyHand s w (s.hand w)) (h' : OnlyHand s' w hand)
    (hw : s.act.workers[w]? = some .draining) (hworkers : s'.act.workers = s.act.workers) :
    seenWorkers s' = (seenWorkers s).set w (seenPc s'.msgs hand .draining) := by
  refine List.ext_getElem? fun v => ?_
  rw [getElem?_seenWorkers, hworkers]
  by_cases hv : v = w
  · subst hv
    have hlt : v < (seenWorkers s).length := by
      rw [seenWorkers, List.length_mapIdx]
      exact (List.getElem?_eq_some_iff.mp hw).1
    rw [List.getElem?_set_self hlt, hw, h'.1]
    rfl
  · rw [List.getElem?_set_ne (Ne.symm hv), getElem?_seenWorkers, h.2 v hv, h'.2 v hv]
    cases s.act.workers[v]? <;> rfl

/-- Where the only worker with a message is seen to do nothing, nothing is seen. -/
theorem seenWorkers_still (h : OnlyHand s w (s.hand w)) (h' : OnlyHand s' w hand)
    (hworkers : s'.act.workers = s.act.workers)
    (hstill : ∀ elem, s.hand w ≠ .msg elem) (hstill' : ∀ elem, hand ≠ .msg elem) :
    seenWorkers s' = seenWorkers s := by
  have hplain {g : Hand} (hg : ∀ elem, g ≠ .msg elem) (msgs : Addr → Option ActMsg)
      (pc : WorkerPc) : seenPc msgs g pc = pc := by
    cases g with
    | msg elem => exact absurd rfl (hg elem)
    | _ => rfl
  refine seenWorkers_congr hworkers fun v pc => ?_
  by_cases hv : v = w
  · rw [hv, h'.1, hplain hstill', hplain hstill]
  · rw [h.2 v hv, h'.2 v hv]
    rfl

/-- What the memory has to say where only one worker has a message. -/
theorem seen_onlyHand (hs : Seen s ring queue O) (h' : OnlyHand s' w hand)
    (hw : s.act.workers[w]? = some .draining) (hok : HandOk s' O' hand)
    (helems : ∃ live, Elems s' ring' queue' O' live) (hitems : ∃ live, Items s' O' live)
    (hnodup : s'.act.outstanding.Nodup)
    (hcopies : ∀ c, Obj.copy c ∈ O' → Obj.copy c ∈ s'.act.outstanding)
    (hworkers : s'.act.workers = s.act.workers) : Seen s' ring' queue' O' := by
  refine ⟨helems, hitems, hnodup, hcopies, fun v => ?_, fun v hv => ?_, fun v msg => ?_⟩
  · by_cases hvw : v = w
    · rw [hvw, h'.1]
      exact hok
    · rw [h'.2 v hvw]
      trivial
  · by_cases hvw : v = w
    · rw [hworkers, hvw]
      exact hw
    · exact absurd (h'.2 v hvw) hv
  · rw [hworkers]
    exact hs.plain v msg

/-! ## The queue -/

/-- The ring without its first element.
SOURCE: activity.c:60-69 -/
theorem Elems.delFirst {x : Addr} {msg : ActMsg} {live : List Addr}
    (h : Elems s (x :: ring) (msg :: queue) O live) :
    ∃ links, s.msgDequeue = some (some x, s.setLinks links) ∧
      Elems (s.setLinks links) ring queue O live := by
  obtain ⟨hnext, links, hdel, hcircular, hoff⟩ := ring_delFirst h.circular
  have hempty : ¬ listEmpty s.links msgQueue = true := by simp [ring_empty h.circular]
  refine ⟨links, ?_, hcircular, ?_, fun a ha => h.inUse a (List.mem_cons_of_mem x ha),
    (List.forall₂_cons.mp h.content).2, h.named, fun v elem hv => ?_⟩
  · rw [PooledWorld.msgDequeue, if_neg hempty, hnext, Option.bind_eq_bind, Option.bind_some, hdel]
    rfl
  · refine h.holds.write fun e he => hoff _ ?_
    rw [List.mem_cons, not_or]
    exact ⟨place_ne_msgQueue, fun hmem => he (h.inUse _ hmem)⟩
  · obtain ⟨hlive, hring⟩ := h.hands v elem hv
    exact ⟨hlive, fun hmem => hring (List.mem_cons_of_mem x hmem)⟩

/-- The worker takes the first message, or finds none.
SOURCE: activity.c:126-149 -/
theorem dequeue_simulated (hs : Seen s ring queue O) (hlife : Life (seen s queue O))
    (hO : O.Nodup) (hnone : s.hand w = .none) (hw : s.act.workers[w]? = some .draining)
    (hstep : s.workerStep handler w = some (o, s')) :
    Simulated handler (seen s queue O) o s' := by
  have honly := hs.onlyHand hlife hw
  have hseen : (seen s queue O).workers[w]? = some .draining := (seenWorkers_idle hnone).trans hw
  obtain ⟨live, helems⟩ := hs.elems
  simp only [PooledWorld.workerStep, hnone, hw] at hstep
  have hcontent := helems.content
  cases hcontent with
  | nil =>
    have hempty : listEmpty s.links msgQueue = true := (ring_empty helems.circular).mpr rfl
    simp only [PooledWorld.msgDequeue, hempty, if_true] at hstep
    cases hstep
    exact idle_simulated hs hO hnone .polling (by simp) (.drained w hseen rfl) trivial rfl
      rfl rfl rfl rfl
  | @cons x msg ring queue hfirst _ =>
    obtain ⟨links, hdequeue, helems'⟩ := helems.delFirst
    simp only [hdequeue] at hstep
    cases hstep
    have honly' : OnlyHand ((s.setLinks links).setHand w (.msg x)) w (.msg x) :=
      OnlyHand.update (s := s.setLinks links) honly
    have hx : x ∉ ring := by
      have hdistinct := helems.circular.distinct
      exact (List.nodup_cons.mp (List.nodup_cons.mp hdistinct).2).1
    have hmove : ActMove handler (seen s (msg :: queue) O) (.worker w) _ _ :=
      .dequeue w msg queue hseen rfl
    have hseen' : seen ((s.setLinks links).setHand w (.msg x)) queue O =
        { seen s (msg :: queue) O with queue := queue }.setWorker w (.holding msg) := by
      have hholding : seenPc s.msgs (.msg x) .draining = .holding msg := by
        rw [seenPc, hfirst.1]
        rfl
      rw [seen, seenWorkers_onlyHand honly honly' hw rfl]
      show { s.act with
        queue := queue, outstanding := O
        workers := (seenWorkers s).set w (seenPc s.msgs (.msg x) .draining) } = _
      rw [hholding]
      rfl
    rw [← hseen'] at hmove
    obtain ⟨items, hitems⟩ := hs.items
    refine .move (.worker w) _ ring queue O hmove trivial (.refl rfl)
      (seen_onlyHand hs honly' hw ⟨msg, hfirst⟩ ⟨live, ?_⟩ ⟨items, ?_⟩ hs.nodup hs.copies rfl)
    · refine ⟨helems'.circular, helems'.holds, helems'.inUse, helems'.content, helems'.named,
        fun v elem hv => ?_⟩
      have heq := honly'.has (f := handElem) rfl hv
      cases heq
      exact ⟨helems.inUse x List.mem_cons_self, hx⟩
    · refine hitems.same (fun _ => id) (fun v i hv => ?_) le_rfl rfl rfl
      have heq := honly'.has (f := handItem) rfl hv
      cases heq

/-! ## The client's function -/

/-- What a message owns is no longer outstanding when it was handled. -/
theorem handled_owns (handler : Bool) {t : ActivityWorld} {msg : ActMsg} (h : Owned t)
    (hlife : Life t) (hpc : t.workers[w]? = some (.holding msg)) :
    MsgOk t.items msg ∧ t.outstanding.Perm
      (msgOwns t.items msg ++ (handleMsg handler t msg).2.outstanding) := by
  obtain ⟨hbefore, hafter⟩ := hlife.hands_eq hpc (by simp) .draining
  have hmsgs : messages t = msg :: t.queue := by rw [messages, hbefore]; rfl
  have haccounts : Accounts t (.worker w) (handleMsg handler t msg).1
      ((handleMsg handler t msg).2.setWorker w .draining) := accounts_handle h hlife hpc
  have howners : owners ((handleMsg handler t msg).2.setWorker w .draining) =
      t.queue.flatMap (msgOwns t.items) ++ t.calls.flatMap callOwns := by
    rw [handleMsg_snd, owners, messages, hands, ActivityWorld.setWorker, hafter]
    rfl
  have hrest : (handleMsg handler t msg).2.outstanding.Perm _ := (haccounts.owned h).perm
  rw [howners] at hrest
  refine ⟨h.msgs msg (by simp [hmsgs]), ?_⟩
  have hperm := h.perm
  rw [owners, hmsgs, List.flatMap_cons, List.append_assoc] at hperm
  exact hperm.trans (hrest.symm.append_left _)

/-- The worker calls the client's function, and has the element and perhaps an exec item to
release. -/
theorem handed_simulated (hs : Seen s ring queue O) (hliving : Living (seen s queue O))
    (howned : Owned (seen s queue O)) {elem : Addr} (hhand : s.hand w = .msg elem) {msg : ActMsg}
    (hmsg : s.msgs elem = some msg) (hand : Hand) (hstill : ∀ x, hand ≠ .msg x)
    (helem : ∀ x, handElem hand = some x → x = elem)
    (hitem : ∀ i, handItem hand = some i → Obj.item i ∈ msgOwns s.act.items msg)
    (hok : ∀ O', (∀ x ∈ msgOwns s.act.items msg, x ∈ O ∧ x ∉ O') →
      HandOk ({ s with act := { s.act with
        exited := s.act.exited || msg.type.toUInt32.toInt32 = ACTIVITY_MSG_STOP } }.setHand w hand)
          O' hand) :
    Simulated handler (seen s queue O)
      { quiet s.act with handled := some msg, called := handlerCall handler s.act.items msg }
      ({ s with act := { s.act with
        exited := s.act.exited || msg.type.toUInt32.toInt32 = ACTIVITY_MSG_STOP } }.setHand w
          hand) := by
  have hw : s.act.workers[w]? = some .draining := hs.busy w (by simp [hhand])
  have hseen : (seen s queue O).workers[w]? = some (.holding msg) := by
    rw [seen, getElem?_seenWorkers, hw, hhand, Option.map_some, seenPc, hmsg]
    rfl
  obtain ⟨-, hperm⟩ := handled_owns handler howned hliving.life hseen
  generalize hO' : (handleMsg handler (seen s queue O) msg).2.outstanding = O' at hperm
  have hsub {x : Obj} (hx : x ∈ O') : x ∈ O := hperm.mem_iff.mpr (List.mem_append_right _ hx)
  have hgone (x : Obj) (hx : x ∈ msgOwns s.act.items msg) : x ∈ O ∧ x ∉ O' :=
    ⟨hperm.mem_iff.mpr (List.mem_append_left _ hx), fun hmem =>
      List.disjoint_of_nodup_append (hperm.nodup_iff.mp howned.nodup) hx hmem⟩
  obtain ⟨s', hs'⟩ : ∃ s', s' = { s with act := { s.act with
      exited := s.act.exited || msg.type.toUInt32.toInt32 = ACTIVITY_MSG_STOP } }.setHand w hand :=
    ⟨_, rfl⟩
  have honly := hs.onlyHand hliving.life hw
  have honly' : OnlyHand s' w hand := by
    rw [hs']
    exact OnlyHand.update (s := { s with act := _ }) honly
  have hmove : ActMove handler (seen s queue O) (.worker w) _ _ := .handle w msg hseen
  have hseen' : seen s' queue O' =
      (handleMsg handler (seen s queue O) msg).2.setWorker w .draining := by
    have hplain : seenPc s'.msgs hand .draining = .draining := by
      cases hand with
      | msg x => exact absurd rfl (hstill x)
      | _ => rfl
    rw [seen, seenWorkers_onlyHand honly honly' hw (by rw [hs']; rfl), hplain, handleMsg_snd, hO',
      hs']
    rfl
  rw [← hseen', handleMsg_fst] at hmove
  rw [← hs'] at hok ⊢
  obtain ⟨live, helems⟩ := hs.elems
  obtain ⟨items, hitems⟩ := hs.items
  refine .move (.worker w) _ ring queue O' hmove trivial ⟨rfl, rfl⟩
    (seen_onlyHand hs honly' hw (hok O' hgone) ⟨live, ?_⟩ ⟨items, ?_⟩ ?_ (fun c hc => ?_) ?_)
  · refine helems.same (fun n hn => hsub hn) (honly'.had (f := handElem) rfl fun x hx => ?_) ?_ ?_
      ?_
    · rw [hhand, helem x hx]
      rfl
    all_goals rw [hs']; rfl
  · refine ⟨?_, fun n hn => hitems.named n (hsub hn), fun v i hv => ?_, fun n pfreed hn => ?_⟩
    · rw [hs']
      exact hitems.holds
    · obtain ⟨hi, hnot⟩ := hgone _ (hitem i (honly'.has (f := handItem) rfl hv))
      exact ⟨hnot, hitems.named i hi⟩
    · rw [hs'] at hn ⊢
      exact hitems.entered n pfreed hn
  · rw [hs']
    exact hs.nodup
  · rw [hs']
    exact hs.copies c (hsub hc)
  · rw [hs']
    rfl

/-- A copy that was seen to go is still to be released. -/
theorem owed_of_gone {out : List Obj} {attr : UInt16} {arg : Ptr}
    (hcopy : attr &&& ACT_ATTR_GC ≠ 0 → ∃ c, arg = .copy c)
    (hgone : ∀ c, Obj.copy c ∈ gcOwns attr arg → Obj.copy c ∈ out ∧ Obj.copy c ∉ O') :
    Owed out O' attr arg := by
  intro hattr
  obtain ⟨c, rfl⟩ := hcopy hattr
  have hc : Obj.copy c ∈ gcOwns attr (.copy c) := by
    rw [gcOwns, if_pos hattr]
    exact List.mem_singleton_self _
  exact ⟨c, rfl, hgone c hc⟩

/-- What an exec item with `ACT_ATTR_GC` points to is a copy. -/
theorem ItemOk.copy {item : ActMsgExecItem} (h : ItemOk item)
    (hattr : item.attr &&& ACT_ATTR_GC ≠ 0) : ∃ c, item.arg = .copy c := by
  rcases h with ⟨-, hcopy⟩ | ⟨hzero, -⟩
  · exact hcopy
  · rw [hzero] at hattr
    exact absurd rfl hattr

/-- So it is with a message that is no exec message. -/
theorem MsgOk.copy {items : ℕ → ActMsgExecItem} {msg : ActMsg} (h : MsgOk items msg)
    (hexec : msg.type.toUInt32.toInt32 ≠ ACTIVITY_MSG_EXEC)
    (hattr : msg.attr &&& ACT_ATTR_GC ≠ 0) : ∃ c, msg.arg = .copy c := by
  cases h with
  | stop e => exact (hattr (by simp [stopMsg])).elim
  | exec i e hitem => exact absurd rfl hexec
  | send a arg e hrange harg =>
    by_cases hsize : a.argSize = 0
    · exact (hattr (by simp [sendMsg, hsize])).elim
    · rwa [if_pos hsize] at harg

/-- The worker calls the client's function.
SOURCE: activity.c:87-124 -/
theorem handle_simulated (handler : Bool) (hs : Seen s ring queue O)
    (hliving : Living (seen s queue O)) (howned : Owned (seen s queue O)) {elem : Addr}
    (hhand : s.hand w = .msg elem) :
    Simulated handler (seen s queue O) (s.handleStep handler w elem).1
      (s.handleStep handler w elem).2 := by
  have hhandOk := hs.hands w
  rw [hhand] at hhandOk
  obtain ⟨msg, hmsg, helem⟩ := hhandOk
  have hw : s.act.workers[w]? = some .draining := hs.busy w (by simp [hhand])
  have hseen : (seen s queue O).workers[w]? = some (.holding msg) := by
    rw [seen, getElem?_seenWorkers, hw, hhand, Option.map_some, seenPc, hmsg]
    rfl
  obtain ⟨hok, -⟩ := handled_owns handler howned hliving.life hseen
  have hownsElem : Obj.msg (addrNumber elem) ∈ msgOwns s.act.items msg := by
    rw [← helem]
    exact List.mem_cons_self
  by_cases hexec : msg.type.toUInt32.toInt32 = ACTIVITY_MSG_EXEC
  · obtain ⟨i, e, rfl, hitem⟩ : ∃ i e, msg = execMsg i e ∧ ItemOk (s.act.items i) := by
      cases hok with
      | stop e =>
        have hstop : (1 : UInt16).toUInt32.toInt32 ≠ ACTIVITY_MSG_EXEC := by decide
        exact absurd hexec hstop
      | exec i e hitem => exact ⟨i, e, rfl, hitem⟩
      | send a arg e hrange harg => exact absurd hexec (sendMsg_not_exec hrange arg e)
    simp only [PooledWorld.handleStep, hmsg, if_pos hexec]
    refine handed_simulated hs hliving howned hhand hmsg (.item elem i) (by simp)
      (fun x hx => (Option.some_inj.mp hx).symm) (fun j hj => ?_) fun O' hgone => ?_
    · cases hj
      rw [msgOwns_execMsg]
      simp
    · refine ⟨(hgone _ hownsElem).2, ⟨_, hmsg, rfl⟩, owed_of_gone hitem.copy fun c hc => ?_⟩
      have hc : Obj.copy c ∈ msgOwns s.act.items (execMsg i e) := by
        rw [msgOwns_execMsg]
        exact List.mem_cons_of_mem _ (List.mem_cons_of_mem _ hc)
      exact ⟨hs.copies c (hgone _ hc).1, (hgone _ hc).2⟩
  · simp only [PooledWorld.handleStep, hmsg, if_neg hexec]
    refine handed_simulated hs hliving howned hhand hmsg (.elem elem) (by simp)
      (fun x hx => (Option.some_inj.mp hx).symm) (fun j hj => ?_) fun O' hgone => ?_
    · cases hj
    · refine ⟨(hgone _ hownsElem).2, msg, hmsg, owed_of_gone (hok.copy hexec) fun c hc => ?_⟩
      have hc : Obj.copy c ∈ msgOwns s.act.items msg := by
        rw [msgOwns, if_neg hexec]
        exact List.mem_cons_of_mem _ hc
      exact ⟨hs.copies c (hgone _ hc).1, (hgone _ hc).2⟩

/-! ## The releases -/

/-- Where only releases happen, nothing is seen. -/
theorem seen_still (queue : List ActMsg) (O : List Obj) (h : OnlyHand s w (s.hand w))
    (h' : OnlyHand s' w hand) (hstill : ∀ elem, s.hand w ≠ .msg elem)
    (hstill' : ∀ elem, hand ≠ .msg elem)
    (hact : s'.act = { s.act with outstanding := s'.act.outstanding }) :
    seen s' queue O = seen s queue O := by
  have hworkers : s'.act.workers = s.act.workers := by rw [hact]
  rw [seen, seen, seenWorkers_still h h' hworkers hstill hstill', hact]

/-- `wof_free` releases a copy that nobody sees.
SOURCE: activity.c:100-102, activity.c:144-145 -/
theorem Seen.wofRelease (hs : Seen s ring queue O) {attr : UInt16} {arg : Ptr}
    (howed : Owed s.act.outstanding O attr arg) :
    ∃ o out, s.wofRelease attr arg = (o, { s with act := { s.act with outstanding := out } }) ∧
      Unseen o ∧ out.Nodup ∧ ∀ c, Obj.copy c ∈ O → Obj.copy c ∈ out := by
  by_cases hattr : attr &&& ACT_ATTR_GC ≠ 0
  · obtain ⟨c, rfl, hc, hnot⟩ := howed hattr
    refine ⟨{ quiet s.act with gave := [.copy c] }, s.act.outstanding.erase (.copy c), ?_,
      ⟨rfl, rfl, rfl, rfl⟩, hs.nodup.erase _, fun d hd => ?_⟩
    · rw [PooledWorld.wofRelease, if_pos hattr, giveBack_copy _ s.act hc]
    · have hne : Obj.copy d ≠ .copy c := fun heq => hnot (heq ▸ hd)
      exact (List.mem_erase_of_ne hne).mpr (hs.copies d hd)
  · refine ⟨quiet s.act, s.act.outstanding, ?_, ⟨rfl, rfl, rfl, rfl⟩, hs.nodup, hs.copies⟩
    rw [PooledWorld.wofRelease, if_neg hattr]
    rfl

/-- The worker releases the copy of an exec item and enters `pool_free` of the item.
SOURCE: activity.c:100-104 -/
theorem itemCopy_simulated (hs : Seen s ring queue O) (hliving : Living (seen s queue O))
    {elem : Addr} {i : ℕ} (hhand : s.hand w = .item elem i)
    (hidle : ItemPoolIdle s) (hstep : s.workerStep handler w = some (o, s')) :
    Simulated handler (seen s queue O) o s' := by
  have hw : s.act.workers[w]? = some .draining := hs.busy w (by simp [hhand])
  have honly := hs.onlyHand hliving.life hw
  have hok := hs.hands w
  rw [hhand] at hok
  obtain ⟨helem, hattr, howed⟩ := hok
  obtain ⟨shown, out, hrelease, hunseen, hnodup, hcopies⟩ := hs.wofRelease howed
  simp only [PooledWorld.workerStep, hhand, hrelease] at hstep
  cases hstep
  have honly' : OnlyHand ({ s with act := { s.act with outstanding := out } }.setHand w
      (.itemFree elem i s.itemPool.pool.freed)) w (.itemFree elem i s.itemPool.pool.freed) :=
    OnlyHand.update (s := { s with act := _ }) honly
  obtain ⟨live, helems⟩ := hs.elems
  obtain ⟨items, hitems⟩ := hs.items
  have hseen := seen_still queue O honly honly' (by simp [hhand]) (by simp) rfl
  refine .unseen ring queue O (seen_onlyHand hs honly' hw ?_ ⟨live, ?_⟩ ⟨items, ?_⟩ hnodup hcopies
    rfl) hseen hunseen
  · exact ⟨helem, hattr, rfl, (hs.idle_items hidle).1⟩
  · exact helems.same (fun _ => id) (honly'.had (f := handElem) rfl fun x hx => by
      rw [hhand]
      exact hx) rfl rfl rfl
  · exact hitems.same (fun _ => id) (honly'.had (f := handItem) rfl fun x hx => by
      rw [hhand]
      exact hx) le_rfl rfl rfl

/-- `pool_free` of the exec item.
SOURCE: activity.c:103-104 -/
theorem itemFree_simulated (hs : Seen s ring queue O) (hliving : Living (seen s queue O))
    {elem : Addr} {i : ℕ} {pfreed : Addr} (hhand : s.hand w = .itemFree elem i pfreed)
    (hstep : s.workerStep handler w = some (o, s')) :
    Simulated handler (seen s queue O) o s' := by
  have hw : s.act.workers[w]? = some .draining := hs.busy w (by simp [hhand])
  have honly := hs.onlyHand hliving.life hw
  have hok := hs.hands w
  rw [hhand] at hok
  obtain ⟨helem, ⟨msg, hmsg, hattr⟩, rfl, hentered⟩ := hok
  simp only [PooledWorld.workerStep, hhand] at hstep
  cases hstep
  have honly' : OnlyHand ({ s with
      itemPool := s.itemPool.free (numbered i) s.itemPool.pool.freed }.setHand w (.elem elem)) w
        (.elem elem) :=
    OnlyHand.update (s := { s with itemPool := _ }) honly
  obtain ⟨live, helems⟩ := hs.elems
  obtain ⟨items, hitems⟩ := hs.items
  obtain ⟨hi, x, hx, rfl⟩ := hitems.hands w i (by rw [hhand]; rfl)
  have hnumbered := hitems.holds.numbered itemShape item_small hx
  have hseen := seen_still queue O honly honly' (by simp [hhand]) (by simp) rfl
  refine .unseen ring queue O (seen_onlyHand hs honly' hw ?_ ⟨live, ?_⟩ ⟨items.erase x, ?_⟩
    hs.nodup hs.copies rfl) hseen ⟨rfl, rfl, rfl, rfl⟩
  · refine ⟨helem, msg, hmsg, fun hne => ?_⟩
    rw [hattr] at hne
    exact (hne (by simp)).elim
  · exact helems.same (fun _ => id) (honly'.had (f := handElem) rfl fun x hx => by
      rw [hhand]
      exact hx) rfl rfl rfl
  · refine ⟨?_, fun n hn => ?_, fun v j hv => ?_, fun n pfreed hn => ?_⟩
    · rw [hnumbered]
      exact hitems.holds.free hx
    · obtain ⟨b, hb, rfl⟩ := hitems.named n hn
      refine ⟨b, (List.mem_erase_of_ne ?_).mpr hb, rfl⟩
      rintro rfl
      exact hi hn
    · cases honly'.has (f := handItem) rfl hv
    · cases (hentered n).symm.trans hn

/-- The worker releases the copy of a message and enters `pool_free` of the element.
SOURCE: activity.c:143-147 -/
theorem elemCopy_simulated (hs : Seen s ring queue O) (hliving : Living (seen s queue O))
    {elem : Addr} (hhand : s.hand w = .elem elem)
    (hstep : s.workerStep handler w = some (o, s')) :
    Simulated handler (seen s queue O) o s' := by
  have hw : s.act.workers[w]? = some .draining := hs.busy w (by simp [hhand])
  have honly := hs.onlyHand hliving.life hw
  have hok := hs.hands w
  rw [hhand] at hok
  obtain ⟨helem, msg, hmsg, howed⟩ := hok
  obtain ⟨shown, out, hrelease, hunseen, hnodup, hcopies⟩ := hs.wofRelease howed
  simp only [PooledWorld.workerStep, hhand, hmsg, hrelease] at hstep
  cases hstep
  have honly' : OnlyHand ({ s with act := { s.act with outstanding := out } }.setHand w
      (.elemFree elem s.msgPool.pool.freed)) w (.elemFree elem s.msgPool.pool.freed) :=
    OnlyHand.update (s := { s with act := _ }) honly
  obtain ⟨live, helems⟩ := hs.elems
  obtain ⟨items, hitems⟩ := hs.items
  have hseen := seen_still queue O honly honly' (by simp [hhand]) (by simp) rfl
  refine .unseen ring queue O (seen_onlyHand hs honly' hw ⟨helem, rfl⟩ ⟨live, ?_⟩ ⟨items, ?_⟩
    hnodup hcopies rfl) hseen hunseen
  · exact helems.same (fun _ => id) (honly'.had (f := handElem) rfl fun x hx => by
      rw [hhand]
      exact hx) rfl rfl rfl
  · exact hitems.same (fun _ => id) (honly'.had (f := handItem) rfl fun x hx => by cases hx)
      le_rfl rfl rfl

/-- `pool_free` of the element.
SOURCE: activity.c:147 -/
theorem elemFree_simulated (hs : Seen s ring queue O) (hliving : Living (seen s queue O))
    {elem pfreed : Addr} (hhand : s.hand w = .elemFree elem pfreed)
    (hstep : s.workerStep handler w = some (o, s')) :
    Simulated handler (seen s queue O) o s' := by
  have hw : s.act.workers[w]? = some .draining := hs.busy w (by simp [hhand])
  have honly := hs.onlyHand hliving.life hw
  have hok := hs.hands w
  rw [hhand] at hok
  obtain ⟨hgone, rfl⟩ := hok
  simp only [PooledWorld.workerStep, hhand] at hstep
  cases hstep
  have honly' : OnlyHand ({ s with msgPool := s.msgPool.free elem s.msgPool.pool.freed }.setHand w
      .none) w .none :=
    OnlyHand.update (s := { s with msgPool := _ }) honly
  obtain ⟨live, helems⟩ := hs.elems
  obtain ⟨items, hitems⟩ := hs.items
  obtain ⟨hlive, hring⟩ := helems.hands w elem (by rw [hhand]; rfl)
  have hseen := seen_still queue O honly honly' (by simp [hhand]) (by simp) rfl
  refine .unseen ring queue O (seen_onlyHand hs honly' hw trivial ⟨live.erase elem, ?_⟩ ⟨items, ?_⟩
    hs.nodup hs.copies rfl) hseen ⟨rfl, rfl, rfl, rfl⟩
  · have hoff : elem ∉ msgQueue :: ring := by
      obtain ⟨e, rfl⟩ := helems.holds.placed hlive
      rw [List.mem_cons, not_or]
      exact ⟨place_ne_msgQueue, hring⟩
    refine ⟨helems.circular.congr (fun a ha => ?_) fun _ _ => rfl, helems.holds.free hlive,
      fun a ha => ?_, helems.content, fun n hn => ?_, fun v x hv => ?_⟩
    · exact Function.update_of_ne (ne_of_mem_of_not_mem ha hoff) _ _
    · exact (List.mem_erase_of_ne (ne_of_mem_of_not_mem ha hring)).mpr (helems.inUse a ha)
    · obtain ⟨a, ha, rfl⟩ := helems.named n hn
      refine ⟨a, (List.mem_erase_of_ne ?_).mpr ha, rfl⟩
      rintro rfl
      exact hgone hn
    · cases honly'.has (f := handElem) rfl hv
  · exact hitems.same (fun _ => id) (honly'.had (f := handItem) rfl fun x hx => by cases hx)
      le_rfl rfl rfl

/-! ## All steps of a worker -/

/-- A worker thread starts or ends.
SOURCE: activity.c:151-180 -/
theorem thread_simulated (hs : Seen s ring queue O) (hO : O.Nodup) (hnone : s.hand w = .none)
    {act : ActivityWorld} (hpc : s.act.workers[w]? ≠ some .draining)
    (hmove : ActMove handler s.act (.worker w) o act) :
    Simulated handler (seen s queue O) o { s with act := act } := by
  have hseen {pc : WorkerPc} (hw : s.act.workers[w]? = some pc) :
      (seen s queue O).workers[w]? = some pc := (seenWorkers_idle hnone).trans hw
  cases hmove with
  | workerStart _ hw =>
    exact idle_simulated hs hO hnone .polling (by simp) (.workerStart w (hseen hw)) trivial
      rfl rfl rfl rfl rfl
  | drained _ hw => exact absurd hw hpc
  | dequeue _ _ _ hw => exact absurd hw hpc
  | handle _ msg hw => exact absurd hw (hs.plain w msg)
  | workerEnd _ hw =>
    exact idle_simulated hs hO hnone .ended (by simp) (.workerEnd w (hseen hw)) trivial
      rfl rfl rfl rfl rfl

/-- `uev_run` calls its handler or returns.
SOURCE: activity.c:165 -/
theorem poll_simulated (hs : Seen s ring queue O) (hO : O.Nodup) (hnone : s.hand w = .none)
    {back : Bool} {act : ActivityWorld} (hmove : ActMove handler s.act (.poll w back) o act) :
    Simulated handler (seen s queue O) o { s with act := act } := by
  have hseen {pc : WorkerPc} (hw : s.act.workers[w]? = some pc) :
      (seen s queue O).workers[w]? = some pc := (seenWorkers_idle hnone).trans hw
  cases hmove with
  | pollBack _ hw hexited =>
    exact idle_simulated hs hO hnone .leaving (by simp) (.pollBack w (hseen hw) hexited) trivial
      rfl rfl rfl rfl rfl
  | pollCall _ hw =>
    exact idle_simulated hs hO hnone .draining (by simp) (.pollCall w (hseen hw)) trivial
      rfl rfl rfl rfl rfl

/-- A step of a worker thread.
SOURCE: activity.c:87-180 -/
theorem worker_simulated (hs : Seen s ring queue O) (hliving : Living (seen s queue O))
    (howned : Owned (seen s queue O)) (hguard : ReleaseApart s (s.hand w))
    (hstep : s.workerStep handler w = some (o, s')) :
    Simulated handler (seen s queue O) o s' := by
  have hO : O.Nodup := howned.nodup
  cases hhand : s.hand w with
  | none =>
    by_cases hw : s.act.workers[w]? = some .draining
    · exact dequeue_simulated hs hliving.life hO hhand hw hstep
    · have hthread : s.besides (Program.workerStep handler s.act w) = some (o, s') := by
        unfold PooledWorld.workerStep at hstep
        rw [hhand] at hstep
        simp only at hstep
        split at hstep
        · rename_i hdraining
          exact absurd hdraining hw
        · exact hstep
        · exact hstep
        · cases hstep
      obtain ⟨⟨shown, act⟩, hact, heq⟩ := Option.map_eq_some_iff.mp hthread
      cases heq
      exact thread_simulated hs hO hhand hw (actMove_of_step (a := .worker w) hact)
  | msg elem =>
    unfold PooledWorld.workerStep at hstep
    rw [hhand] at hstep
    have heq : s.handleStep handler w elem = (o, s') := Option.some.inj hstep
    have hsim := handle_simulated handler hs hliving howned hhand
    rwa [heq] at hsim
  | item elem i =>
    rw [hhand] at hguard
    exact itemCopy_simulated hs hliving hhand hguard hstep
  | itemFree elem i pfreed => exact itemFree_simulated hs hliving hhand hstep
  | elem elem => exact elemCopy_simulated hs hliving hhand hstep
  | elemFree elem pfreed => exact elemFree_simulated hs hliving hhand hstep

end Ctools.Analysis
