import Ctools.Analysis.ActivityPooled
import Ctools.Analysis.MsgRing

/-!
# The calls that use the pools

A critical section gets an element that nobody has, and puts it at the back of the ring
(`section_simulated`).  A call of `activity_exec` gets an exec item that nobody has, and
gives it back if it fails (`item_simulated`).
-/

set_option autoImplicit false

namespace Ctools.Analysis

open Ctools.Library Ctools.Program Ctools.Interface

variable {handler : Bool} {s s' : PooledWorld} {ring : List Addr} {queue : List ActMsg}
  {O : List Obj} {o : ActObs}

/-! ## The critical sections -/

/-- A critical section without an element refuses.
SOURCE: activity.c:295-304, activity.c:329-347, activity.c:378-383 -/
theorem refused_simulated (hs : Seen s ring queue O) (howned : Owned (seen s queue O))
    (hshape : CallShapes (seen s queue O)) {n : ℕ} {act : ActivityWorld}
    (hmove : ActMove handler s.act (.locked n none) o act) :
    Simulated handler (seen s queue O) o { s with act := act } := by
  have hlen (pc : CallPc) : s.act.calls.length ≤ (s.act.calls.set n pc).length := by simp
  have hO : O.Nodup := howned.nodup
  cases hmove with
  | sendRefused _ a arg rc _ hpc hrc hsize =>
    exact .move (.locked n none) _ ring queue O (.sendRefused n a arg rc none hpc hrc hsize)
      trivial ⟨rfl, rfl⟩ (hs.call (hlen _) rfl rfl rfl hO)
  | execRefused _ a i newArg rc _ hpc hrc =>
    exact .move (.locked n none) _ ring queue O (.execRefused n a i newArg rc none hpc hrc)
      trivial ⟨rfl, rfl⟩ (hs.call (hlen _) rfl rfl rfl hO)
  | stopRefused _ waitFinish rc _ hpc hrc =>
    exact .move (.locked n none) _ ring queue O (.stopRefused n waitFinish rc none hpc hrc)
      trivial ⟨rfl, rfl⟩ (hs.call (hlen _) rfl rfl rfl hO)
  | sendRefusedFree _ a arg rc _ hpc hrc hsize =>
    have hcarries := (hshape n _ hpc).2
    rw [if_pos hsize] at hcarries
    obtain ⟨c, rfl⟩ := hcarries
    have hc : Obj.copy c ∈ O := howned.owns hpc (by simp [callOwns, Ptr.obj])
    have hmove : ActMove handler (seen s queue O) (.locked n none) _ _ :=
      .sendRefusedFree n a (.copy c) rc none hpc hrc hsize
    rw [giveBack_copy _ (seen s queue O) hc] at hmove
    rw [giveBack_copy _ s.act (hs.copies c hc)]
    refine .move (.locked n none) _ ring queue (O.erase (.copy c)) hmove trivial ⟨rfl, rfl⟩ ?_
    exact hs.beside hO (by simp [ActivityWorld.setCall]) (fun _ _ => rfl) (.give c hc) hs.busy
      hs.plain

/-- The critical sections that enqueue a message, and where they go on: the message, and
the state and the call afterwards. -/
inductive Enqueues (calls : List CallPc) (n e : ℕ) :
    ActMsg → ActivityState → CallPc → Option (ActivityCall × ℤ) → Prop
  | send (a : SendArgs) (arg : Ptr) (hpc : calls[n]? = some (.sendLock a arg)) :
      Enqueues calls n e (sendMsg a arg e) .run (.returned 0) (some (.send a, 0))
  | exec (a : ExecArgs) (i : ℕ) (newArg : Ptr) (hpc : calls[n]? = some (.execLock a i newArg)) :
      Enqueues calls n e (execMsg i e) .run (.returned 0) (some (.exec a, 0))
  | stop (waitFinish : Bool) (hpc : calls[n]? = some (.stopLock waitFinish)) :
      Enqueues calls n e (stopMsg e) .pendingStop (if waitFinish then .stopJoin else .returned 0)
        (if waitFinish then none else some (.stop waitFinish, 0))

/-- In `ACTIVITY_STATE_RUN` a section with an element that is not outstanding enqueues its
message.
SOURCE: activity.c:42-58, activity.c:330-337 -/
theorem sendSection_run {t t' : ActivityWorld} {m : Int32} {arg : Ptr} {attr : UInt16} {e : ℕ}
    {rc : ℤ} {msg : Option ActMsg} (hstate : t.state = .run)
    (h : sendSection t m arg attr (some e) = some (rc, msg, t')) :
    rc = 0 ∧ msg = some ⟨e, arg, m.toUInt32.toUInt16, 0, attr⟩ ∧
      t' = enqueued t ⟨e, arg, m.toUInt32.toUInt16, 0, attr⟩ := by
  simp only [sendSection, hstate, ne_eq, not_true_eq_false, if_false, msgEnqueue,
    ActivityWorld.take] at h
  by_cases hmem : Obj.msg e ∈ t.outstanding
  · simp [hmem] at h
  · simp only [hmem, if_false, Option.map_some, Option.some.injEq] at h
    obtain ⟨rfl, rfl, rfl⟩ := h
    exact ⟨rfl, rfl, by rw [enqueued, ← hstate]⟩

/-- The same of the section of `activity_stop`.
SOURCE: activity.c:42-58, activity.c:71-84 -/
theorem setPenddingExit_run {t t' : ActivityWorld} {e : ℕ} {rc : ℤ} {msg : Option ActMsg}
    (hstate : t.state = .run) (h : activitySetPenddingExit t (some e) = some (rc, msg, t')) :
    rc = 0 ∧ msg = some (stopMsg e) ∧
      t' = { enqueued t (stopMsg e) with state := .pendingStop } := by
  simp only [activitySetPenddingExit, hstate, ne_eq, not_true_eq_false, if_false, msgEnqueue,
    ActivityWorld.take] at h
  by_cases hmem : Obj.msg e ∈ t.outstanding
  · simp [hmem] at h
  · simp only [hmem, if_false, Option.map_some, Option.some.injEq] at h
    obtain ⟨rfl, rfl, rfl⟩ := h
    exact ⟨rfl, rfl, rfl⟩

/-- In `ACTIVITY_STATE_RUN` a critical section with an element enqueues its message.
SOURCE: activity.c:295-304, activity.c:329-347, activity.c:378-383 -/
theorem enqueues_of_lockedStep {t t' : ActivityWorld} {n e : ℕ} (hstate : t.state = .run)
    (h : lockedStep t n (some e) = some (o, t')) :
    ∃ msg state pc ret, Enqueues t.calls n e msg state pc ret ∧ msg.elem = e ∧
      o = { quiet t with took := [.msg e], enqueued := some msg, ret := ret } ∧
      t' = { enqueued t msg with state := state }.setCall n pc := by
  have hsame (msg : ActMsg) : { enqueued t msg with state := .run } = enqueued t msg := by
    rw [← hstate]
    rfl
  unfold lockedStep at h
  split at h
  · rename_i a arg hpc
    obtain ⟨⟨rc, msg, u⟩, hsection, hu⟩ := Option.map_eq_some_iff.mp h
    obtain ⟨rfl, rfl, rfl⟩ := sendSection_run hstate hsection
    simp only [ne_eq, not_true_eq_false, false_and, if_false] at hu
    cases hu
    exact ⟨_, _, _, _, .send a arg hpc, rfl, rfl, by rw [hsame]; rfl⟩
  · rename_i a i newArg hpc
    obtain ⟨⟨rc, msg, u⟩, hsection, hu⟩ := Option.map_eq_some_iff.mp h
    obtain ⟨rfl, rfl, rfl⟩ := sendSection_run hstate hsection
    simp only [if_true] at hu
    cases hu
    exact ⟨_, _, _, _, .exec a i newArg hpc, rfl, rfl, by rw [hsame]; rfl⟩
  · rename_i waitFinish hpc
    obtain ⟨⟨rc, msg, u⟩, hsection, hu⟩ := Option.map_eq_some_iff.mp h
    obtain ⟨rfl, rfl, rfl⟩ := setPenddingExit_run hstate hsection
    refine ⟨_, _, _, _, .stop waitFinish hpc, rfl, ?_⟩
    cases waitFinish with
    | true =>
      cases hu
      exact ⟨rfl, rfl⟩
    | false =>
      cases hu
      exact ⟨rfl, rfl⟩
  · cases h

/-- Such a section is one of an `ActivityWorld`. -/
theorem Enqueues.move {t : ActivityWorld} {n e : ℕ} {msg : ActMsg} {state : ActivityState}
    {pc : CallPc} {ret : Option (ActivityCall × ℤ)} (h : Enqueues t.calls n e msg state pc ret)
    (hstate : t.state = .run) (hfresh : Obj.msg e ∉ t.outstanding) :
    ActMove handler t (.locked n (some e))
      { quiet t with took := [.msg e], enqueued := some msg, ret := ret }
      ({ enqueued t msg with state := state }.setCall n pc) := by
  have hsame (msg : ActMsg) : { enqueued t msg with state := .run } = enqueued t msg := by
    rw [← hstate]
    rfl
  cases h with
  | send a arg hpc =>
    rw [hsame]
    exact .sendAccepted n a arg e hpc hstate hfresh
  | exec a i newArg hpc =>
    rw [hsame]
    exact .execAccepted n a i newArg e hpc hstate hfresh
  | stop waitFinish hpc => exact .stopAccepted n waitFinish e hpc hstate hfresh

/-- `msg_enqueue` puts an element that nobody has at the back of the ring.
SOURCE: activity.c:50-54 -/
theorem Elems.enqueue {live : List Addr} (helems : Elems s ring queue O live) {x : Addr}
    {m : SharedPool} (hx : x ∉ live) (hnext : m.next = s.msgPool.next)
    (hholds : PoolHolds SIZEOF_ACT_MSG ACTIVITY_MSG_POOL_ITEMS m (x :: live)) {msg : ActMsg}
    (hmsg : msg.elem = addrNumber x) (act : ActivityWorld) :
    ∃ links : Links Addr, { s with act := act, msgPool := m }.msgEnqueue x msg = some { s with
        act := act
        msgPool := { m with next := links.next }
        prev := links.prev
        msgs := Function.update s.msgs x (some msg) } ∧
      Elems { s with
        act := act
        msgPool := { m with next := links.next }
        prev := links.prev
        msgs := Function.update s.msgs x (some msg) } (ring ++ [x]) (queue ++ [msg])
          (.msg msg.elem :: O) (x :: live) := by
  have hplace (a : Addr) (ha : a ∈ x :: live) : a ≠ msgQueue := by
    obtain ⟨e, rfl⟩ := hholds.placed ha
    exact place_ne_msgQueue
  have hring : x ∉ msgQueue :: ring := by
    rw [List.mem_cons, not_or]
    exact ⟨hplace x List.mem_cons_self, fun hmem => hx (helems.inUse x hmem)⟩
  have hne {a : Addr} (ha : a ∈ live) : a ≠ x := ne_of_mem_of_not_mem ha hx
  obtain ⟨links, hadd, hcircular, hoff⟩ := ring_addTail helems.circular hring
  refine ⟨links, ?_, hcircular, ?_, fun a ha => ?_, ?_, fun n hn => ?_, fun w elem hw => ?_⟩
  · have hadd' : listAddTail (⟨m.next, s.prev⟩ : Links Addr) x msgQueue = some links := by
      rw [hnext]
      exact hadd
    exact congrArg (Option.map _) hadd'
  · refine hholds.write fun e he => ?_
    rw [List.mem_cons, not_or] at he
    rw [hnext]
    refine hoff _ ?_ he.1
    rw [List.mem_cons, not_or]
    exact ⟨place_ne_msgQueue, fun hmem => he.2 (helems.inUse _ hmem)⟩
  · rcases List.mem_append.mp ha with ha | ha
    · exact List.mem_cons_of_mem _ (helems.inUse a ha)
    · exact List.mem_singleton.mp ha ▸ List.mem_cons_self
  · refine List.rel_append ?_ (.cons ⟨Function.update_self .., hmsg⟩ .nil)
    have hcontent := (List.forall₂_and_left ring queue).mpr ⟨helems.inUse, helems.content⟩
    refine hcontent.imp fun a msg ⟨ha, hmsgs, helem⟩ => ⟨?_, helem⟩
    exact (Function.update_of_ne (hne ha) _ _).trans hmsgs
  · rcases List.mem_cons.mp hn with heq | hn
    · cases heq
      exact ⟨x, List.mem_cons_self, hmsg⟩
    · obtain ⟨a, ha, rfl⟩ := helems.named n hn
      exact ⟨a, List.mem_cons_of_mem _ ha, rfl⟩
  · obtain ⟨hlive, hoffRing⟩ := helems.hands w elem hw
    refine ⟨List.mem_cons_of_mem _ hlive, fun hmem => ?_⟩
    rcases List.mem_append.mp hmem with hmem | hmem
    · exact hoffRing hmem
    · exact hne hlive (List.mem_singleton.mp hmem)

/-- No worker is inside `pool_free` of an element of an idle pool. -/
theorem Seen.idle_elems (hs : Seen s ring queue O) (hidle : MsgPoolIdle s) (w : ℕ) :
    ¬ FreesElem (s.hand w) := by
  intro hfrees
  have hbusy : s.hand w ≠ .none := by
    intro hnone
    rw [hnone] at hfrees
    exact hfrees
  exact hidle w (List.getElem?_eq_some_iff.mp (hs.busy w hbusy)).1 hfrees

/-- What the memory has to say with a new element at the back of the ring. -/
theorem Seen.enqueue (hs : Seen s ring queue O) (hidle : MsgPoolIdle s) {live : List Addr}
    (helems : Elems s ring queue O live) {x : Addr} {msg : ActMsg} (hx : x ∉ live)
    (hnumber : ∀ a ∈ live, addrNumber a ≠ msg.elem)
    (helems' : Elems s' (ring ++ [x]) (queue ++ [msg]) (.msg msg.elem :: O) (x :: live))
    (hcalls : s'.act.calls.length = s.act.calls.length)
    (hmsgs : s'.msgs = Function.update s.msgs x (some msg))
    (hworkers : s'.act.workers = s.act.workers) (hitems : s'.act.items = s.act.items)
    (hout : s'.act.outstanding = s.act.outstanding) (hhand : s'.hand = s.hand)
    (hpool : s'.itemPool = s.itemPool) (hentered : s'.entered = s.entered) :
    Seen s' (ring ++ [x]) (queue ++ [msg]) (.msg msg.elem :: O) := by
  have hcopy {c : ℕ} (hc : Obj.copy c ∈ Obj.msg msg.elem :: O) : Obj.copy c ∈ O := by
    simpa using hc
  obtain ⟨items, hitemPool⟩ := hs.items
  refine ⟨⟨x :: live, helems'⟩, ⟨items, hitemPool.same (fun i hi => by simpa using hi)
    (fun w i => by rw [hhand]; exact id) hcalls.ge hpool hentered⟩, hout ▸ hs.nodup,
    fun c hc => hout ▸ hs.copies c (hcopy hc), fun w => ?_, ?_, ?_⟩
  · rw [hhand]
    refine (hs.hands w).mono (fun elem hw => ?_) (fun elem hw hnot hmem => ?_)
      (fun i _ => congrFun hitems i) (fun attr arg howed hattr => ?_)
      (fun hfrees => absurd hfrees (hs.idle_elems hidle w)) fun _ => ⟨by rw [hpool], hentered⟩
    · rw [hmsgs]
      exact Function.update_of_ne (ne_of_mem_of_not_mem (helems.hands w elem hw).1 hx) _ _
    · rcases List.mem_cons.mp hmem with heq | hmem
      · exact hnumber elem (helems.hands w elem hw).1 (Obj.msg.inj heq)
      · exact hnot hmem
    · obtain ⟨c, harg, hc, hnot⟩ := howed hattr
      exact ⟨c, harg, hout ▸ hc, fun hmem => hnot (hcopy hmem)⟩
  · rw [hhand, hworkers]
    exact hs.busy
  · rw [hworkers]
    exact hs.plain

/-- The pool refused an element, and is as it was but for its cursor. -/
theorem Seen.refused (hs : Seen s ring queue O) {live : List Addr}
    (helems : Elems s ring queue O live) {m : SharedPool} (hnext : m.next = s.msgPool.next)
    (hfreed : m.pool.freed = s.msgPool.pool.freed)
    (hholds : PoolHolds SIZEOF_ACT_MSG ACTIVITY_MSG_POOL_ITEMS m live) :
    Seen { s with msgPool := m } ring queue O := by
  obtain ⟨items, hitems⟩ := hs.items
  have hlinks : PooledWorld.links { s with msgPool := m } = s.links := by
    rw [PooledWorld.links, hnext]
    rfl
  refine ⟨⟨live, hlinks ▸ helems.circular, hholds, helems.inUse, helems.content, helems.named,
    helems.hands⟩, ⟨items, hitems.same (fun _ => id) (fun _ _ => id) le_rfl rfl rfl⟩, hs.nodup,
    hs.copies, fun w => ?_, hs.busy, hs.plain⟩
  exact (hs.hands w).mono (fun _ _ => rfl) (fun _ _ => id) (fun _ _ => rfl) (fun _ _ => id)
    (fun _ => hfreed) fun _ => ⟨rfl, rfl⟩

/-- A critical section with an element that nobody has enqueues its message.
SOURCE: activity.c:295-304, activity.c:329-347, activity.c:378-383 -/
theorem enqueue_simulated (hs : Seen s ring queue O) (hstate : s.act.state = .run)
    (hidle : MsgPoolIdle s) {live : List Addr} (helems : Elems s ring queue O live) {n : ℕ}
    {reallocated backed : Bool} {x : Addr} {m : SharedPool}
    (hmalloc : s.msgPool.malloc s.msgPool.pool.freed reallocated backed = some (x, m))
    (hnull : x ≠ .null) (hx : x ∉ live) (hnext : m.next = s.msgPool.next)
    (hholds : PoolHolds SIZEOF_ACT_MSG ACTIVITY_MSG_POOL_ITEMS m (x :: live))
    (hstep : s.lockedStep n reallocated backed = some (o, s')) :
    Simulated handler (seen s queue O) o s' := by
  have hnumber (a : Addr) (ha : a ∈ live) : addrNumber a ≠ addrNumber x :=
    hholds.number_ne elemShape elem_small (List.mem_cons_of_mem _ ha) List.mem_cons_self
      (ne_of_mem_of_not_mem ha hx)
  have hfresh : Obj.msg (addrNumber x) ∉ O := by
    intro hmem
    obtain ⟨a, ha, heq⟩ := helems.named _ hmem
    exact hnumber a ha heq.symm
  simp only [PooledWorld.lockedStep, hstate, ne_eq, not_true_eq_false, if_false, hmalloc,
    if_neg hnull] at hstep
  obtain ⟨⟨shown, act⟩, hlocked, hrest⟩ := Option.bind_eq_some_iff.mp hstep
  obtain ⟨msg, state, pc, ret, henqueues, helem, hshown, hact⟩ :=
    enqueues_of_lockedStep hstate hlocked
  obtain ⟨links, henqueue, helems'⟩ := helems.enqueue hx hnext hholds helem
    { act with queue := [], outstanding := s.act.outstanding }
  have henq : shown.enqueued = some msg := by rw [hshown]
  have hout : act.outstanding.erase (.msg (addrNumber x)) = s.act.outstanding := by
    rw [hact, enqueued, ActivityWorld.setCall, helem, List.erase_cons_head]
  simp only [henq, hout, henqueue] at hrest
  obtain ⟨rfl, hs'⟩ := Prod.mk.inj (Option.some.inj hrest)
  rw [hs'] at helems'
  have hworkers : s'.act.workers = s.act.workers := by rw [← hs', hact]; rfl
  have hmemory : Seen s' (ring ++ [x]) (queue ++ [msg]) (.msg msg.elem :: O) := by
    refine hs.enqueue hidle helems hx (fun a ha => helem ▸ hnumber a ha) helems' ?_ ?_ hworkers
      ?_ ?_ ?_ ?_ ?_ <;> rw [← hs']
    · rw [hact]
      simp [ActivityWorld.setCall, enqueued]
    · rw [hact]
      rfl
  have hseen : seen s' (queue ++ [msg]) (.msg msg.elem :: O) =
      { enqueued (seen s queue O) msg with state := state }.setCall n pc := by
    have hsame : seenWorkers s' = seenWorkers s := by
      refine seenWorkers_congr hworkers fun w pc => ?_
      rw [← hs']
      exact seenPc_congr pc fun elem hw =>
        Function.update_of_ne (ne_of_mem_of_not_mem (helems.hands w elem hw).1 hx) _ _
    rw [seen, hsame, ← hs', hact]
    rfl
  refine .move (.locked n (some (addrNumber x))) _ (ring ++ [x]) (queue ++ [msg])
    (.msg msg.elem :: O) ?_ trivial (.refl (by rw [hshown]; rfl)) hmemory
  rw [hseen, hshown]
  exact henqueues.move (t := seen s queue O) hstate hfresh

/-- In `ACTIVITY_STATE_RUN` a critical section enqueues its message, or refuses where the pool
has no element.
SOURCE: activity.c:295-304, activity.c:329-347, activity.c:378-383 -/
theorem section_simulated (hs : Seen s ring queue O) (hliving : Living (seen s queue O))
    (howned : Owned (seen s queue O)) (hstate : s.act.state = .run) {n : ℕ}
    {reallocated backed : Bool} (hguard : ElemApart s reallocated)
    (hstep : s.lockedStep n reallocated backed = some (o, s')) :
    Simulated handler (seen s queue O) o s' := by
  obtain ⟨hidle, hgoes⟩ := hguard hstate
  obtain ⟨live, helems⟩ := hs.elems
  obtain ⟨x, m, hmalloc, hnext, ⟨hnull, hx, hholds⟩ | ⟨rfl, hfreed, hholds⟩⟩ :=
    helems.holds.malloc elemShape hgoes backed
  · exact enqueue_simulated hs hstate hidle helems hmalloc hnull hx hnext hholds hstep
  · simp only [PooledWorld.lockedStep, hstate, ne_eq, not_true_eq_false, if_false, hmalloc,
      if_true] at hstep
    obtain ⟨⟨shown, act⟩, hlocked, heq⟩ := Option.map_eq_some_iff.mp hstep
    cases heq
    exact refused_simulated (hs.refused helems hnext hfreed hholds) howned hliving.shape
      (actMove_of_step (a := .locked n none) hlocked)

/-! ## The exec items -/

/-- A step on `exec_item_pool` while no worker is inside it. -/
theorem Seen.onItems (hs : Seen s ring queue O) {O' : List Obj} {act : ActivityWorld}
    {pool : SharedPool} {entered : ℕ → Option Addr} (live : List Addr)
    (hitems : Items { s with act := act, itemPool := pool, entered := entered } O' live)
    (hO : ∀ x, x ∈ O' → x ∈ O ∨ ∃ i, x = .item i)
    (hkept : ∀ w i, handItem (s.hand w) = some i → act.items i = s.act.items i)
    (hfrees : ∀ w, ¬ FreesItem (s.hand w)) (hworkers : act.workers = s.act.workers)
    (hout : act.outstanding = s.act.outstanding) :
    Seen { s with act := act, itemPool := pool, entered := entered } ring queue O' := by
  obtain ⟨elems, helems⟩ := hs.elems
  have hmsg {n : ℕ} (hn : Obj.msg n ∈ O') : Obj.msg n ∈ O :=
    (hO _ hn).resolve_right fun ⟨i, hi⟩ => by cases hi
  have hcopy {n : ℕ} (hn : Obj.copy n ∈ O') : Obj.copy n ∈ O :=
    (hO _ hn).resolve_right fun ⟨i, hi⟩ => by cases hi
  refine ⟨⟨elems, helems.same (fun _ => hmsg) (fun _ _ => id) rfl rfl rfl⟩, ⟨live, hitems⟩, ?_,
    fun c hc => ?_, fun w => ?_, ?_, ?_⟩
  · exact hout ▸ hs.nodup
  · exact hout ▸ hs.copies c (hcopy hc)
  · refine (hs.hands w).mono (fun _ _ => rfl) (fun elem _ helem hmem => helem (hmsg hmem))
      (hkept w) (fun attr arg howed hattr => ?_) (fun _ => rfl) fun hf => absurd hf (hfrees w)
    obtain ⟨c, harg, hc, hnot⟩ := howed hattr
    exact ⟨c, harg, hout ▸ hc, fun hmem => hnot (hcopy hmem)⟩
  · exact hworkers ▸ hs.busy
  · exact hworkers ▸ hs.plain

/-- A worker inside `pool_free` of an item is the only one on the pool. -/
theorem Seen.not_freesItem (hs : Seen s ring queue O) {n : ℕ} {pfreed : Addr}
    (hn : s.entered n = some pfreed) (w : ℕ) : ¬ FreesItem (s.hand w) := by
  intro hfrees
  have hok := hs.hands w
  generalize s.hand w = hand at hok hfrees
  cases hand with
  | itemFree elem i p =>
    have hnone := hok.2.2.2 n
    rw [hn] at hnone
    cases hnone
  | _ => exact hfrees

/-- No call on an idle pool is in progress. -/
theorem Seen.idle_items (hs : Seen s ring queue O) (hidle : ItemPoolIdle s) :
    (∀ n, s.entered n = none) ∧ ∀ w, ¬ FreesItem (s.hand w) := by
  obtain ⟨items, hitems⟩ := hs.items
  refine ⟨fun n => ?_, fun w hfrees => ?_⟩
  · cases hn : s.entered n with
    | none => rfl
    | some pfreed => exact (hidle.1 n (hitems.entered n pfreed hn).1).symm.trans hn |>.symm
  · have hbusy : s.hand w ≠ .none := by
      intro hnone
      rw [hnone] at hfrees
      exact hfrees
    exact hidle.2 w (List.getElem?_eq_some_iff.mp (hs.busy w hbusy)).1 hfrees

/-- A call of `activity_exec` reads `p->freed`.
SOURCE: activity.c:358-365, activity.c:389-392 -/
theorem enter_simulated (hs : Seen s ring queue O) {n : ℕ} (hn : n < s.act.calls.length)
    (hidle : ItemPoolIdle s) :
    Simulated handler (seen s queue O) (quiet s.act)
      { s with entered := Function.update s.entered n (some s.itemPool.pool.freed) } := by
  obtain ⟨hnone, hfrees⟩ := hs.idle_items hidle
  obtain ⟨items, hitems⟩ := hs.items
  refine .unseen ring queue O (hs.onItems items
    ⟨hitems.holds, hitems.named, hitems.hands, fun m pfreed hm => ?_⟩ (fun _ => .inl)
    (fun _ _ _ => rfl) hfrees rfl rfl) rfl ⟨rfl, rfl, rfl, rfl⟩
  have hother {k : ℕ} (hk : k ≠ n) :
      Function.update s.entered n (some s.itemPool.pool.freed) k = none :=
    (Function.update_of_ne hk _ _).trans (hnone k)
  have hmn : m = n := by
    by_contra hne
    cases (hother hne).symm.trans hm
  subst hmn
  have hpfreed := (Function.update_self m _ s.entered).symm.trans hm
  exact ⟨hn, (Option.some_inj.mp hpfreed).symm, fun k hk => hother hk⟩

/-- Where the call in progress is done, none is in progress. -/
theorem Items.left {live : List Addr} (h : Items s O live) {n : ℕ} {pfreed : Addr}
    (hn : s.entered n = some pfreed) (m : ℕ) : Function.update s.entered n none m = none := by
  by_cases hm : m = n
  · rw [hm, Function.update_self]
  · rw [Function.update_of_ne hm, (h.entered n pfreed hn).2.2 m hm]

/-- It comes back with an exec item that nobody has.
SOURCE: activity.c:358-365 -/
theorem take_simulated (handler : Bool) (hs : Seen s ring queue O) {n : ℕ} {a : ExecArgs}
    {x : Addr} {pool : SharedPool} {items : List Addr} (hitems : Items s O items)
    (hpc : s.act.calls[n]? = some (.execItem a)) {recycle : Addr} (hn : s.entered n = some recycle)
    (hx : x ∉ items)
    (hholds : PoolHolds SIZEOF_ACT_MSG_EXEC_ITEM ACTIVITY_MSG_EXEC_ITEM_POOL_ITEMS pool
      (x :: items)) :
    Simulated handler (seen s queue O) { quiet s.act with took := [.item (addrNumber x)] }
      { s with
        act := { s.act with
          items := Function.update s.act.items (addrNumber x)
            ⟨a.func, .user a.arg, 0⟩ }.setCall n
              (if a.argSize ≠ 0 then .execCopy a (addrNumber x)
                else .execLock a (addrNumber x) .null)
        itemPool := pool
        entered := Function.update s.entered n none } := by
  have hnumber {b : Addr} (hb : b ∈ items) : addrNumber b ≠ addrNumber x :=
    hholds.number_ne itemShape item_small (List.mem_cons_of_mem _ hb) List.mem_cons_self
      (ne_of_mem_of_not_mem hb hx)
  have hfresh : Obj.item (addrNumber x) ∉ O := by
    intro hmem
    obtain ⟨b, hb, heq⟩ := hitems.named _ hmem
    exact hnumber hb heq.symm
  have hhand (w i : ℕ) (hw : handItem (s.hand w) = some i) : i ≠ addrNumber x := by
    obtain ⟨-, b, hb, rfl⟩ := hitems.hands w i hw
    exact hnumber hb
  refine .move (.alloc n (some (addrNumber x))) _ ring queue (.item (addrNumber x) :: O)
    (.execItem n a (addrNumber x) hpc hfresh) trivial (.refl rfl)
    (hs.onItems (x :: items) ⟨hholds, fun m hm => ?_, fun w i hw => ?_, fun m pfreed hm => ?_⟩
      (fun y hy => ?_) (fun w i hw => ?_) (hs.not_freesItem hn) rfl rfl)
  · rcases List.mem_cons.mp hm with heq | hm
    · cases heq
      exact ⟨x, List.mem_cons_self, rfl⟩
    · obtain ⟨b, hb, rfl⟩ := hitems.named m hm
      exact ⟨b, List.mem_cons_of_mem _ hb, rfl⟩
  · obtain ⟨hi, b, hb, heq⟩ := hitems.hands w i hw
    refine ⟨fun hmem => ?_, b, List.mem_cons_of_mem _ hb, heq⟩
    rcases List.mem_cons.mp hmem with hmem | hmem
    · exact hhand w i hw (Obj.item.inj hmem)
    · exact hi hmem
  · cases (hitems.left hn m).symm.trans hm
  · exact (List.mem_cons.mp hy).symm.imp_right fun heq => ⟨_, heq⟩
  · exact Function.update_of_ne (hhand w i hw) _ _

/-- It comes back without one, and `activity_exec` returns.
SOURCE: activity.c:358-360 -/
theorem noItem_simulated (handler : Bool) (hs : Seen s ring queue O) {n : ℕ} {a : ExecArgs}
    {pool : SharedPool} {items : List Addr} (hitems : Items s O items)
    (hpc : s.act.calls[n]? = some (.execItem a)) {recycle : Addr} (hn : s.entered n = some recycle)
    (hholds : PoolHolds SIZEOF_ACT_MSG_EXEC_ITEM ACTIVITY_MSG_EXEC_ITEM_POOL_ITEMS pool items) :
    Simulated handler (seen s queue O) { quiet s.act with ret := some (.exec a, -ENOMEM) }
      { s with
        act := s.act.setCall n (.returned (-ENOMEM))
        itemPool := pool
        entered := Function.update s.entered n none } := by
  refine .move (.alloc n none) _ ring queue O (.execNoItem n a hpc) trivial (.refl rfl)
    (hs.onItems items ⟨hholds, hitems.named, hitems.hands, fun m pfreed hm => ?_⟩
      (fun _ => .inl) (fun _ _ _ => rfl) (hs.not_freesItem hn) rfl rfl)
  cases (hitems.left hn m).symm.trans hm

/-- It has given its exec item back.
SOURCE: activity.c:389-392 -/
theorem giveItem_simulated (hs : Seen s ring queue O) (howned : Owned (seen s queue O)) {n : ℕ}
    {a : ExecArgs} {i : ℕ} {rc : ℤ} {pfreed : Addr}
    (hpc : s.act.calls[n]? = some (.execFreeItem a i rc)) (hn : s.entered n = some pfreed) :
    Simulated handler (seen s queue O)
      { quiet s.act with gave := [.item i], ret := some (.exec a, rc) }
      { s with
        act := s.act.setCall n (.returned rc)
        itemPool := s.itemPool.free (numbered i) pfreed
        entered := Function.update s.entered n none } := by
  obtain ⟨items, hitems⟩ := hs.items
  obtain ⟨-, rfl, -⟩ := hitems.entered n pfreed hn
  have hi : Obj.item i ∈ O := howned.owns hpc (by simp [callOwns])
  obtain ⟨x, hx, rfl⟩ := hitems.named i hi
  have hnumbered := hitems.holds.numbered itemShape item_small hx
  have hO : O.Nodup := howned.nodup
  have hkept {b : Addr} (hb : b ∈ items) (hne : addrNumber b ≠ addrNumber x) : b ∈ items.erase x :=
    (List.mem_erase_of_ne fun heq => hne (congrArg addrNumber heq)).mpr hb
  have hmove : ActMove handler (seen s queue O) (.free n) _ _ := .freeItem n a (addrNumber x) rc hpc
  rw [giveBack_one _ (seen s queue O) hi] at hmove
  refine .move (.free n) _ ring queue (O.erase (.item (addrNumber x))) hmove trivial (.refl rfl)
    (hs.onItems (items.erase x)
      ⟨?_, fun m hm => ?_, fun w j hw => ?_, fun m pfreed hm => ?_⟩
      (fun y hy => .inl (List.mem_of_mem_erase hy)) (fun w j _ => rfl) (hs.not_freesItem hn)
      rfl rfl)
  · rw [hnumbered]
    exact hitems.holds.free hx
  · obtain ⟨hne, hm⟩ := hO.mem_erase_iff.mp hm
    obtain ⟨b, hb, rfl⟩ := hitems.named m hm
    exact ⟨b, hkept hb fun heq => hne (congrArg Obj.item heq), rfl⟩
  · obtain ⟨hj, b, hb, rfl⟩ := hitems.hands w j hw
    refine ⟨fun hmem => hj (List.mem_of_mem_erase hmem), b, hkept hb fun heq => ?_, rfl⟩
    exact hj (heq ▸ hi)
  · cases (hitems.left hn m).symm.trans hm

/-- A step of `activity_exec` on `exec_item_pool`.
SOURCE: activity.c:358-365, activity.c:389-392 -/
theorem item_simulated (hs : Seen s ring queue O) (howned : Owned (seen s queue O)) {n : ℕ}
    {reallocated backed : Bool} (hguard : ItemApart s n reallocated)
    (hstep : s.itemStep n reallocated backed = some (o, s')) :
    Simulated handler (seen s queue O) o s' := by
  obtain ⟨hidle, hgoes⟩ := hguard
  unfold PooledWorld.itemStep at hstep
  split at hstep
  · rename_i hpc hn
    cases hstep
    exact enter_simulated hs (List.getElem?_eq_some_iff.mp hpc).1 (hidle hn)
  · rename_i hpc hn
    cases hstep
    exact enter_simulated hs (List.getElem?_eq_some_iff.mp hpc).1 (hidle hn)
  · rename_i a recycle hpc hn
    obtain ⟨items, hitems⟩ := hs.items
    obtain ⟨-, rfl, -⟩ := hitems.entered n recycle hn
    obtain ⟨x, pool, hmalloc, -, ⟨hnull, hx, hholds⟩ | ⟨rfl, -, hholds⟩⟩ :=
      hitems.holds.malloc itemShape (hgoes _ hn) backed
    · simp only [hmalloc, if_neg hnull] at hstep
      cases hstep
      exact take_simulated handler hs hitems hpc hn hx hholds
    · simp only [hmalloc, if_true] at hstep
      cases hstep
      exact noItem_simulated handler hs hitems hpc hn hholds
  · rename_i a i rc pfreed hpc hn
    cases hstep
    exact giveItem_simulated hs howned hpc hn
  · cases hstep

end Ctools.Analysis
