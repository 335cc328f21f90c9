import Ctools.Analysis.ActivityDelivery
import Ctools.Analysis.SharedPools
import Ctools.Library.CircularSurgery

/-!
# An activity over its pools, seen without them

Who takes a message for done when its function was called, and an element for gone from
then on, sees an activity over its pools as an `ActivityWorld` (`seen`).  `Seen` is what
the memory has to say for that: the ring of `msg_queue` holds the messages, what is
outstanding is in use, and what a worker has still to release nobody else has.  As long as
the calls on the pools do not meet, a step is one that an `ActivityWorld` can take as well,
or is not seen (`Simulated`).
-/

set_option autoImplicit false

namespace Ctools.Analysis

open Ctools.Library Ctools.Program Ctools.Interface

/-! ## What is seen -/

/-- What a worker is seen to do. -/
def seenPc (msgs : Addr → Option ActMsg) : Hand → WorkerPc → WorkerPc
  | .msg elem, pc => ((msgs elem).map WorkerPc.holding).getD pc
  | _, pc => pc

/-- What the workers are seen to do. -/
def seenWorkers (s : PooledWorld) : List WorkerPc :=
  s.act.workers.mapIdx fun w pc => seenPc s.msgs (s.hand w) pc

/-- The activity with the messages of its queue, and with what is outstanding. -/
def seen (s : PooledWorld) (queue : List ActMsg) (outstanding : List Obj) : ActivityWorld :=
  { s.act with queue := queue, outstanding := outstanding, workers := seenWorkers s }

/-- The element that a worker has not released. -/
def handElem : Hand → Option Addr
  | .none => none
  | .msg elem | .item elem _ | .itemFree elem _ _ | .elem elem | .elemFree elem _ => some elem

/-- The exec item that a worker has still to release. -/
def handItem : Hand → Option ℕ
  | .item _ i | .itemFree _ i _ => some i
  | _ => none

variable {handler : Bool} {s s' : PooledWorld} {ring : List Addr} {queue : List ActMsg}
  {out out' O O' : List Obj} {o : ActObs}

/-- A copy that a worker has still to release is outstanding, and seen to be gone. -/
def Owed (out O : List Obj) (attr : UInt16) (arg : Ptr) : Prop :=
  attr &&& ACT_ATTR_GC ≠ 0 → ∃ c, arg = .copy c ∧ Obj.copy c ∈ out ∧ Obj.copy c ∉ O

/-- What a worker relies on as far as it is with its message. -/
def HandOk (s : PooledWorld) (O : List Obj) : Hand → Prop
  | .none => True
  | .msg elem => ∃ msg, s.msgs elem = some msg ∧ msg.elem = addrNumber elem
  | .item elem i => Obj.msg (addrNumber elem) ∉ O ∧
      (∃ msg, s.msgs elem = some msg ∧ msg.attr = 0) ∧
      Owed s.act.outstanding O (s.act.items i).attr (s.act.items i).arg
  | .itemFree elem _ pfreed => Obj.msg (addrNumber elem) ∉ O ∧
      (∃ msg, s.msgs elem = some msg ∧ msg.attr = 0) ∧
      pfreed = s.itemPool.pool.freed ∧ ∀ n, s.entered n = none
  | .elem elem => Obj.msg (addrNumber elem) ∉ O ∧
      ∃ msg, s.msgs elem = some msg ∧ Owed s.act.outstanding O msg.attr msg.arg
  | .elemFree elem pfreed => Obj.msg (addrNumber elem) ∉ O ∧ pfreed = s.msgPool.pool.freed

/-- The ring and the workers have elements in use, each its own, and what is seen to be
outstanding is in use. -/
structure Elems (s : PooledWorld) (ring : List Addr) (queue : List ActMsg) (O : List Obj)
    (live : List Addr) : Prop where
  circular : s.links.Circular msgQueue ring
  holds : PoolHolds SIZEOF_ACT_MSG ACTIVITY_MSG_POOL_ITEMS s.msgPool live
  inUse : ∀ a ∈ ring, a ∈ live
  content : List.Forall₂ (fun a msg => s.msgs a = some msg ∧ msg.elem = addrNumber a) ring queue
  named : ∀ n, Obj.msg n ∈ O → ∃ a ∈ live, n = addrNumber a
  hands : ∀ w elem, handElem (s.hand w) = some elem → elem ∈ live ∧ elem ∉ ring

/-- The same of the exec items; one call on their pool is in progress at most. -/
structure Items (s : PooledWorld) (O : List Obj) (live : List Addr) : Prop where
  holds : PoolHolds SIZEOF_ACT_MSG_EXEC_ITEM ACTIVITY_MSG_EXEC_ITEM_POOL_ITEMS s.itemPool live
  named : ∀ n, Obj.item n ∈ O → ∃ a ∈ live, n = addrNumber a
  hands : ∀ w i, handItem (s.hand w) = some i → Obj.item i ∉ O ∧ ∃ a ∈ live, i = addrNumber a
  entered : ∀ n pfreed, s.entered n = some pfreed → n < s.act.calls.length ∧
    pfreed = s.itemPool.pool.freed ∧ ∀ m, m ≠ n → s.entered m = none

/-- What the memory has to say for the activity to be seen with `queue` and `O`. -/
structure Seen (s : PooledWorld) (ring : List Addr) (queue : List ActMsg) (O : List Obj) :
    Prop where
  elems : ∃ live, Elems s ring queue O live
  items : ∃ live, Items s O live
  nodup : s.act.outstanding.Nodup
  copies : ∀ c, Obj.copy c ∈ O → Obj.copy c ∈ s.act.outstanding
  hands : ∀ w, HandOk s O (s.hand w)
  busy : ∀ w, s.hand w ≠ .none → s.act.workers[w]? = some .draining
  plain : ∀ (w : ℕ) (msg : ActMsg), s.act.workers[w]? ≠ some (.holding msg)

/-- Where the elements are not touched, they stay as they are. -/
theorem Elems.same {live : List Addr} (h : Elems s ring queue O live)
    (hO : ∀ n, Obj.msg n ∈ O' → Obj.msg n ∈ O)
    (hhands : ∀ w elem, handElem (s'.hand w) = some elem → handElem (s.hand w) = some elem)
    (hpool : s'.msgPool = s.msgPool) (hprev : s'.prev = s.prev) (hmsgs : s'.msgs = s.msgs) :
    Elems s' ring queue O' live := by
  refine ⟨?_, ?_, h.inUse, ?_, fun n hn => h.named n (hO n hn),
    fun w elem hw => h.hands w elem (hhands w elem hw)⟩
  · rw [PooledWorld.links, hpool, hprev]
    exact h.circular
  · rw [hpool]
    exact h.holds
  · rw [hmsgs]
    exact h.content

/-- Where the exec items are not touched, they stay as they are. -/
theorem Items.same {live : List Addr} (h : Items s O live)
    (hO : ∀ n, Obj.item n ∈ O' → Obj.item n ∈ O)
    (hhands : ∀ w i, handItem (s'.hand w) = some i → handItem (s.hand w) = some i)
    (hcalls : s.act.calls.length ≤ s'.act.calls.length)
    (hpool : s'.itemPool = s.itemPool) (hentered : s'.entered = s.entered) :
    Items s' O' live := by
  refine ⟨?_, fun n hn => h.named n (hO n hn), fun w i hw => ?_, fun n pfreed hn => ?_⟩
  · rw [hpool]
    exact h.holds
  · obtain ⟨hi, hlive⟩ := h.hands w i (hhands w i hw)
    exact ⟨fun hmem => hi (hO i hmem), hlive⟩
  · rw [hentered] at hn
    obtain ⟨hlt, hfreed, hothers⟩ := h.entered n pfreed hn
    rw [hpool, hentered]
    exact ⟨hlt.trans_le hcalls, hfreed, hothers⟩

/-- What is seen of one worker. -/
theorem getElem?_seenWorkers (s : PooledWorld) (w : ℕ) :
    (seenWorkers s)[w]? = s.act.workers[w]?.map (seenPc s.msgs (s.hand w)) :=
  List.getElem?_mapIdx

/-- What a worker is seen to do depends on its message only. -/
theorem seenPc_congr {msgs msgs' : Addr → Option ActMsg} {hand : Hand} (pc : WorkerPc)
    (hmsgs : ∀ elem, handElem hand = some elem → msgs' elem = msgs elem) :
    seenPc msgs' hand pc = seenPc msgs hand pc := by
  cases hand with
  | msg elem => rw [seenPc, seenPc, hmsgs elem rfl]
  | _ => rfl

/-- The workers are seen to do the same. -/
theorem seenWorkers_congr (hworkers : s'.act.workers = s.act.workers)
    (hpc : ∀ w pc, seenPc s'.msgs (s'.hand w) pc = seenPc s.msgs (s.hand w) pc) :
    seenWorkers s' = seenWorkers s := by
  rw [seenWorkers, seenWorkers, hworkers]
  congr 1
  funext w pc
  exact hpc w pc

/-- A worker without a message is seen as it is. -/
theorem seenWorkers_idle {w : ℕ} (hw : s.hand w = .none) :
    (seenWorkers s)[w]? = s.act.workers[w]? := by
  rw [getElem?_seenWorkers, hw]
  cases s.act.workers[w]? <;> rfl

/-- A worker in `msg_queue_handler` is seen to live. -/
theorem seenPc_draining (msgs : Addr → Option ActMsg) (hand : Hand) :
    seenPc msgs hand .draining ≠ .ended := by
  cases hand with
  | msg elem => cases h : msgs elem <;> simp [seenPc, h]
  | _ => simp [seenPc]

/-- One worker at most is in `msg_queue_handler`. -/
theorem Seen.others (hs : Seen s ring queue O) (hlife : Life (seen s queue O)) {w : ℕ}
    (hw : s.act.workers[w]? = some .draining) {v : ℕ} (hne : v ≠ w) : s.hand v = .none := by
  by_contra hbusy
  have hseen (u : ℕ) (hu : s.act.workers[u]? = some .draining) :
      (seen s queue O).workers[u]? = some (seenPc s.msgs (s.hand u) .draining) :=
    (getElem?_seenWorkers s u).trans (by rw [hu]; rfl)
  obtain ⟨halone, -⟩ := hlife.worker (hseen w hw) (seenPc_draining _ _)
  have hended := halone v hne
  rw [pcAt_eq (hseen v (hs.busy v hbusy))] at hended
  exact seenPc_draining _ _ hended

/-- What a worker relies on stays, where what it relies on does not change. -/
theorem HandOk.mono {hand : Hand} (hok : HandOk s O hand)
    (hmsgs : ∀ elem, handElem hand = some elem → s'.msgs elem = s.msgs elem)
    (hmsg : ∀ elem, handElem hand = some elem → Obj.msg (addrNumber elem) ∉ O →
      Obj.msg (addrNumber elem) ∉ O')
    (hitems : ∀ i, handItem hand = some i → s'.act.items i = s.act.items i)
    (howed : ∀ attr arg, Owed s.act.outstanding O attr arg → Owed s'.act.outstanding O' attr arg)
    (hfreesElem : FreesElem hand → s'.msgPool.pool.freed = s.msgPool.pool.freed)
    (hfreesItem : FreesItem hand →
      s'.itemPool.pool.freed = s.itemPool.pool.freed ∧ s'.entered = s.entered) :
    HandOk s' O' hand := by
  cases hand with
  | none => trivial
  | msg elem =>
    rw [HandOk, hmsgs elem rfl]
    exact hok
  | item elem i =>
    obtain ⟨helem, hattr, hcopy⟩ := hok
    rw [HandOk, hmsgs elem rfl, hitems i rfl]
    exact ⟨hmsg elem rfl helem, hattr, howed _ _ hcopy⟩
  | itemFree elem i pfreed =>
    obtain ⟨helem, hattr, hfreed⟩ := hok
    obtain ⟨hpool, hentered⟩ := hfreesItem trivial
    rw [HandOk, hmsgs elem rfl, hpool, hentered]
    exact ⟨hmsg elem rfl helem, hattr, hfreed⟩
  | elem elem =>
    obtain ⟨helem, msg, hcontent, hcopy⟩ := hok
    exact ⟨hmsg elem rfl helem, msg, (hmsgs elem rfl).trans hcontent, howed _ _ hcopy⟩
  | elemFree elem pfreed =>
    obtain ⟨helem, hfreed⟩ := hok
    exact ⟨hmsg elem rfl helem, hfreed.trans (hfreesElem trivial).symm⟩

/-! ## What is simulated -/

/-- A step that nobody sees. -/
structure Unseen (o : ActObs) : Prop where
  enqueued : o.enqueued = none
  handled : o.handled = none
  ret : o.ret = none
  fault : o.fault = false

/-- A step shows what is seen, but for when something is taken and given back. -/
structure ShownAs (o o' : ActObs) : Prop where
  same : o' = { o with took := o'.took, gave := o'.gave, fault := o'.fault }
  fault : o.fault = false

/-- What is observed is seen as it is. -/
theorem ShownAs.refl (h : o.fault = false) : ShownAs o o := ⟨rfl, h⟩

/-- A step is not seen, or is one of an `ActivityWorld`. -/
inductive Simulated (handler : Bool) (t : ActivityWorld) (o : ActObs) (s' : PooledWorld) : Prop
  | unseen (ring : List Addr) (queue : List ActMsg) (O : List Obj) (hs : Seen s' ring queue O)
      (hsame : seen s' queue O = t) (ho : Unseen o)
  | move (a : ActivityAct) (o' : ActObs) (ring : List Addr) (queue : List ActMsg) (O : List Obj)
      (hmove : ActMove handler t a o' (seen s' queue O)) (hmsgs : plainMsgs t a)
      (ho : ShownAs o o') (hs : Seen s' ring queue O)

/-! ## Copies -/

/-- What a step does to the copies that are outstanding, and that are seen to be. -/
inductive CopiesMove (out O : List Obj) : List Obj → List Obj → Prop
  | same : CopiesMove out O out O
  | take (c : ℕ) (hfresh : Obj.copy c ∉ out) : CopiesMove out O (.copy c :: out) (.copy c :: O)
  | give (c : ℕ) (hc : Obj.copy c ∈ O) :
      CopiesMove out O (out.erase (.copy c)) (O.erase (.copy c))

/-- What is seen to be outstanding afterwards was so before, or is a copy. -/
theorem CopiesMove.mem (h : CopiesMove out O out' O') {x : Obj} (hx : x ∈ O') :
    x ∈ O ∨ ∃ c, x = .copy c := by
  cases h with
  | same => exact .inl hx
  | take c => exact (List.mem_cons.mp hx).symm.imp_right fun heq => ⟨c, heq⟩
  | give c hc => exact .inl (List.mem_of_mem_erase hx)

/-- No object is outstanding twice. -/
theorem CopiesMove.nodup (h : CopiesMove out O out' O') (hout : out.Nodup) : out'.Nodup := by
  cases h with
  | same => exact hout
  | take c hfresh => exact List.nodup_cons.mpr ⟨hfresh, hout⟩
  | give c hc => exact hout.erase _

/-- What is seen of the copies stays among those of the heap. -/
theorem CopiesMove.copies (h : CopiesMove out O out' O') (hO : O.Nodup)
    (hcopies : ∀ c, Obj.copy c ∈ O → Obj.copy c ∈ out) :
    ∀ c, Obj.copy c ∈ O' → Obj.copy c ∈ out' := by
  intro c hc
  cases h with
  | same => exact hcopies c hc
  | take d hfresh =>
    rcases List.mem_cons.mp hc with heq | hc
    · exact heq ▸ List.mem_cons_self
    · exact List.mem_cons_of_mem _ (hcopies c hc)
  | give d hd =>
    obtain ⟨hne, hc⟩ := hO.mem_erase_iff.mp hc
    exact (List.mem_erase_of_ne hne).mpr (hcopies c hc)

/-- What a worker has still to release stays. -/
theorem CopiesMove.owed (h : CopiesMove out O out' O') {attr : UInt16} {arg : Ptr}
    (howed : Owed out O attr arg) : Owed out' O' attr arg := by
  intro hattr
  obtain ⟨c, harg, hout, hO⟩ := howed hattr
  refine ⟨c, harg, ?_⟩
  cases h with
  | same => exact ⟨hout, hO⟩
  | take d hfresh =>
    refine ⟨List.mem_cons_of_mem _ hout, fun hc => ?_⟩
    rcases List.mem_cons.mp hc with heq | hc
    · exact hfresh (heq ▸ hout)
    · exact hO hc
  | give d hd =>
    have hne : Obj.copy c ≠ .copy d := fun heq => hO (heq ▸ hd)
    exact ⟨(List.mem_erase_of_ne hne).mpr hout, fun hc => hO (List.mem_of_mem_erase hc)⟩

/-- A release of an object that is outstanding. -/
theorem giveBack_one (shown : ActObs) (t : ActivityWorld) {x : Obj} (hx : x ∈ t.outstanding) :
    giveBack shown t (some [x]) =
      ({ shown with gave := [x] }, { t with outstanding := t.outstanding.erase x }) := by
  simp [giveBack, releaseAll, hx]

/-- A release of a copy that is outstanding. -/
theorem giveBack_copy (shown : ActObs) (t : ActivityWorld) {c : ℕ}
    (hc : Obj.copy c ∈ t.outstanding) :
    giveBack shown t (wofFree (.copy c)) = ({ shown with gave := [.copy c] },
      { t with outstanding := t.outstanding.erase (.copy c) }) :=
  giveBack_one shown t hc

/-! ## Steps beside the pools -/

/-- A step that leaves the memory of the pools and the workers with a message alone. -/
theorem Seen.beside (hs : Seen s ring queue O) (hO : O.Nodup) {act : ActivityWorld}
    (hcalls : s.act.calls.length ≤ act.calls.length)
    (hitems : ∀ i, Obj.item i ∉ O → act.items i = s.act.items i)
    (hcopies : CopiesMove s.act.outstanding O act.outstanding O')
    (hbusy : ∀ w, s.hand w ≠ .none → act.workers[w]? = some .draining)
    (hplain : ∀ (w : ℕ) (msg : ActMsg), act.workers[w]? ≠ some (.holding msg)) :
    Seen { s with act := act } ring queue O' := by
  obtain ⟨live, helems⟩ := hs.elems
  obtain ⟨items, hitemPool⟩ := hs.items
  have hmsg {n : ℕ} (hn : Obj.msg n ∈ O') : Obj.msg n ∈ O :=
    (hcopies.mem hn).resolve_right fun ⟨c, hc⟩ => by cases hc
  have hitem {n : ℕ} (hn : Obj.item n ∈ O') : Obj.item n ∈ O :=
    (hcopies.mem hn).resolve_right fun ⟨c, hc⟩ => by cases hc
  refine ⟨⟨live, helems.same (fun _ => hmsg) (fun _ _ => id) rfl rfl rfl⟩,
    ⟨items, hitemPool.same (fun _ => hitem) (fun _ _ => id) hcalls rfl rfl⟩,
    hcopies.nodup hs.nodup, hcopies.copies hO hs.copies, fun w => ?_, hbusy, hplain⟩
  exact (hs.hands w).mono (fun _ _ => rfl) (fun elem _ helem hmem => helem (hmsg hmem))
    (fun i hi => hitems i (hitemPool.hands w i hi).1) (fun _ _ => hcopies.owed) (fun _ => rfl)
    fun _ => ⟨rfl, rfl⟩

/-- A step of a call that leaves the workers and the exec items alone. -/
theorem Seen.call (hs : Seen s ring queue O) {act : ActivityWorld}
    (hcalls : s.act.calls.length ≤ act.calls.length) (hitems : act.items = s.act.items)
    (hout : act.outstanding = s.act.outstanding) (hworkers : act.workers = s.act.workers)
    (hO : O.Nodup) : Seen { s with act := act } ring queue O := by
  refine hs.beside hO hcalls (fun i _ => by rw [hitems]) ?_ ?_ ?_
  · rw [hout]
    exact .same
  · rw [hworkers]
    exact hs.busy
  · rw [hworkers]
    exact hs.plain

/-- A worker without a message moves. -/
theorem Seen.idle (hs : Seen s ring queue O) (hO : O.Nodup) {w : ℕ} (hw : s.hand w = .none)
    {act : ActivityWorld} {pc : WorkerPc} (hpc : ∀ msg, pc ≠ .holding msg)
    (hworkers : act.workers = s.act.workers.set w pc)
    (hcalls : act.calls = s.act.calls) (hitems : act.items = s.act.items)
    (hout : act.outstanding = s.act.outstanding) :
    Seen { s with act := act } ring queue O := by
  refine hs.beside hO (by rw [hcalls]) (fun i _ => by rw [hitems]) ?_ (fun v hv => ?_)
    fun v msg => ?_
  · rw [hout]
    exact .same
  · have hne : w ≠ v := by
      rintro rfl
      exact hv hw
    rw [hworkers, List.getElem?_set_ne hne]
    exact hs.busy v hv
  · rw [hworkers]
    intro heq
    rcases getElem?_set_cases heq with ⟨-, rfl⟩ | ⟨-, hold⟩
    · exact hpc msg rfl
    · exact hs.plain v msg hold

/-- A worker without a message is seen to move. -/
theorem seenWorkers_set {act : ActivityWorld} {w : ℕ} (hw : s.hand w = .none) {pc : WorkerPc}
    (hworkers : act.workers = s.act.workers.set w pc) :
    seenWorkers { s with act := act } = (seenWorkers s).set w pc := by
  have hpc : seenPc s.msgs (s.hand w) pc = pc := by rw [hw]; rfl
  rw [seenWorkers, hworkers, List.mapIdx_set, hpc]
  rfl

/-- A worker without a message is seen to move. -/
theorem idle_simulated (hs : Seen s ring queue O) (hO : O.Nodup) {w : ℕ} (hw : s.hand w = .none)
    {act : ActivityWorld} (pc : WorkerPc) (hpc : ∀ msg, pc ≠ .holding msg) {a : ActivityAct}
    (hmove : ActMove handler (seen s queue O) a o
      { act with queue := queue, outstanding := O, workers := (seenWorkers s).set w pc })
    (hmsgs : plainMsgs (seen s queue O) a) (hfault : o.fault = false)
    (hworkers : act.workers = s.act.workers.set w pc) (hcalls : act.calls = s.act.calls)
    (hitems : act.items = s.act.items) (hout : act.outstanding = s.act.outstanding) :
    Simulated handler (seen s queue O) o { s with act := act } := by
  have hseen : seen { s with act := act } queue O = { act with
      queue := queue, outstanding := O, workers := (seenWorkers s).set w pc } := by
    rw [seen, seenWorkers_set hw hworkers]
  rw [← hseen] at hmove
  exact .move a o ring queue O hmove hmsgs (.refl hfault)
    (hs.idle hO hw hpc hworkers hcalls hitems hout)

/-- The start of a call.
SOURCE: activity.c:307-317, activity.c:349-356 -/
theorem call_simulated (hs : Seen s ring queue O) (hO : O.Nodup) {c : ActivityCall}
    (hmsgs : plainMsgs (seen s queue O) (.call c)) {act : ActivityWorld}
    (hmove : ActMove handler s.act (.call c) o act) :
    Simulated handler (seen s queue O) o { s with act := act } := by
  cases hmove with
  | refuse _ rc hrc =>
    exact .move (.call c) _ ring queue O (.refuse c rc hrc) hmsgs ⟨rfl, rfl⟩
      (hs.call (by simp) rfl rfl rfl hO)
  | enter _ pc hpc =>
    exact .move (.call c) _ ring queue O (.enter c pc hpc) hmsgs ⟨rfl, rfl⟩
      (hs.call (by simp) rfl rfl rfl hO)

/-- A join.
SOURCE: activity.c:301-302 -/
theorem join_simulated (hs : Seen s ring queue O) (hO : O.Nodup) {n : ℕ} {act : ActivityWorld}
    (hmove : ActMove handler s.act (.join n) o act) :
    Simulated handler (seen s queue O) o { s with act := act } := by
  cases hmove with
  | joinRead _ hpc =>
    exact .move (.join n) _ ring queue O (.joinRead n hpc) trivial ⟨rfl, rfl⟩
      (hs.call (by simp [ActivityWorld.setCall]) rfl rfl rfl hO)
  | joinDone _ thread hpc hended =>
    have hseen : ∀ w ∈ thread, (seen s queue O).workers[w]? = some .ended := by
      intro w hw
      have hidle : s.hand w = .none := by
        by_contra hbusy
        have heq := (hs.busy w hbusy).symm.trans (hended w hw)
        cases heq
      exact (seenWorkers_idle hidle).trans (hended w hw)
    exact .move (.join n) _ ring queue O (.joinDone n thread hpc hseen) trivial ⟨rfl, rfl⟩
      (hs.call (by simp [ActivityWorld.setCall]) rfl rfl rfl hO)

/-- A step of `activity_run`.
SOURCE: activity.c:182-219, activity.c:233-241 -/
theorem run_simulated (hs : Seen s ring queue O) (hO : O.Nodup) {n : ℕ} {rc : ℤ}
    {act : ActivityWorld} (hmove : ActMove handler s.act (.run n rc) o act) :
    Simulated handler (seen s queue O) o { s with act := act } := by
  have hlen (pc : CallPc) : s.act.calls.length ≤ (s.act.calls.set n pc).length := by simp
  cases hmove with
  | runLock _ _ hpc hfree =>
    exact .move (.run n rc) _ ring queue O (.runLock n rc hpc hfree) trivial ⟨rfl, rfl⟩
      (hs.call (hlen _) rfl rfl rfl hO)
  | runBack _ _ rc' pc exited hpc hwhere =>
    exact .move (.run n rc) _ ring queue O (.runBack n rc rc' pc exited hpc hwhere) trivial
      ⟨rfl, rfl⟩ (hs.call (hlen _) rfl rfl rfl hO)
  | runNotCreated _ _ hpc hrc =>
    exact .move (.run n rc) _ ring queue O (.runNotCreated n rc hpc hrc) trivial ⟨rfl, rfl⟩
      (hs.call (hlen _) rfl rfl rfl hO)
  | runCheck _ _ hpc hstate =>
    exact .move (.run n rc) _ ring queue O (.runCheck n rc hpc hstate) trivial ⟨rfl, rfl⟩
      (hs.call (hlen _) rfl rfl rfl hO)
  | runInit _ _ hpc =>
    exact .move (.run n rc) _ ring queue O (.runInit n rc hpc) trivial ⟨rfl, rfl⟩
      (hs.call (hlen _) rfl rfl rfl hO)
  | runEventInit _ _ hpc =>
    exact .move (.run n rc) _ ring queue O (.runEventInit n rc hpc) trivial ⟨rfl, rfl⟩
      (hs.call (hlen _) rfl rfl rfl hO)
  | runStarted _ _ hpc =>
    exact .move (.run n rc) _ ring queue O (.runStarted n rc hpc) trivial ⟨rfl, rfl⟩
      (hs.call (hlen _) rfl rfl rfl hO)
  | runCreate _ hpc =>
    -- the new worker has no message
    obtain ⟨act, hact⟩ : ∃ act, act = { s.act with
      workers := s.act.workers ++ [WorkerPc.starting]
      thread := some s.act.workers.length }.setCall n .runStarted := ⟨_, rfl⟩
    have hidle : s.hand s.act.workers.length = .none := by
      by_contra hbusy
      have hlt := (List.getElem?_eq_some_iff.mp (hs.busy _ hbusy)).1
      exact absurd hlt (Nat.lt_irrefl _)
    have hseen : seen { s with act := act } queue O = { seen s queue O with
        workers := (seen s queue O).workers ++ [WorkerPc.starting]
        thread := some (seen s queue O).workers.length }.setCall n .runStarted := by
      subst hact
      have hlength : (seenWorkers s).length = s.act.workers.length := List.length_mapIdx
      have hworkers : seenWorkers { s with act := { s.act with
          workers := s.act.workers ++ [WorkerPc.starting]
          thread := some s.act.workers.length }.setCall n .runStarted } =
            seenWorkers s ++ [WorkerPc.starting] := by
        simp only [seenWorkers, ActivityWorld.setCall, List.mapIdx_append, List.mapIdx_cons,
          List.mapIdx_nil, Nat.zero_add, hidle]
        rfl
      rw [seen, hworkers]
      simp only [seen, ActivityWorld.setCall, hlength]
    have hmove : ActMove handler (seen s queue O) (.run n 0) (quiet (seen s queue O))
        (seen { s with act := act } queue O) := by
      rw [hseen]
      exact .runCreate n hpc
    rw [← hact]
    refine .move (.run n 0) _ ring queue O hmove trivial ⟨rfl, rfl⟩ ?_
    subst hact
    refine hs.beside hO (hlen _) (fun i _ => rfl) .same (fun w hw => ?_) fun w msg heq => ?_
    · have hold := hs.busy w hw
      have hlt := (List.getElem?_eq_some_iff.mp hold).1
      exact (List.getElem?_append_left hlt).trans hold
    · rcases getElem?_snoc_cases heq with ⟨-, hpc'⟩ | hold
      · cases hpc'
      · exact hs.plain w msg hold

/-- What a call owns is outstanding. -/
theorem Owned.owns {t : ActivityWorld} (h : Owned t) {n : ℕ} {pc : CallPc}
    (hpc : t.calls[n]? = some pc) {x : Obj} (hx : x ∈ callOwns pc) : x ∈ t.outstanding :=
  (h.perm_call hpc).mem_iff.mpr (List.mem_append_left _ hx)

/-- An allocation of `act_heapmem`.
SOURCE: activity.c:319-327, activity.c:366-376 -/
theorem copy_simulated (hs : Seen s ring queue O) (howned : Owned (seen s queue O)) {n : ℕ}
    {block : Option ℕ} (hcopy : ∀ a, s.act.calls[n]? ≠ some (.execItem a)) {act : ActivityWorld}
    (hmove : ActMove handler s.act (.alloc n block) o act) :
    Simulated handler (seen s queue O) o { s with act := act } := by
  have hlen (pc : CallPc) : s.act.calls.length ≤ (s.act.calls.set n pc).length := by simp
  have hO : O.Nodup := howned.nodup
  cases hmove with
  | sendNoCopy _ a hpc =>
    exact .move (.alloc n none) _ ring queue O (.sendNoCopy n a hpc) trivial ⟨rfl, rfl⟩
      (hs.call (hlen _) rfl rfl rfl hO)
  | sendCopy _ a c hpc hfresh =>
    exact .move (.alloc n (some c)) _ ring queue (.copy c :: O)
      (.sendCopy n a c hpc fun hc => hfresh (hs.copies c hc)) trivial ⟨rfl, rfl⟩
      (hs.beside hO (hlen _) (fun _ _ => rfl) (.take c hfresh) hs.busy hs.plain)
  | execNoItem _ a hpc => exact absurd hpc (hcopy a)
  | execItem _ a i hpc => exact absurd hpc (hcopy a)
  | execNoCopy _ a i hpc =>
    have hi : Obj.item i ∈ O := howned.owns hpc (by simp [callOwns])
    refine .move (.alloc n none) _ ring queue O (.execNoCopy n a i hpc) trivial ⟨rfl, rfl⟩
      (hs.beside hO (hlen _) (fun j hj => ?_) .same hs.busy hs.plain)
    exact Function.update_of_ne (by rintro rfl; exact hj hi) _ _
  | execCopy _ a i c hpc hfresh =>
    have hi : Obj.item i ∈ O := howned.owns hpc (by simp [callOwns])
    refine .move (.alloc n (some c)) _ ring queue (.copy c :: O)
      (.execCopy n a i c hpc fun hc => hfresh (hs.copies c hc)) trivial ⟨rfl, rfl⟩
      (hs.beside hO (hlen _) (fun j hj => ?_) (.take c hfresh) hs.busy hs.plain)
    exact Function.update_of_ne (by rintro rfl; exact hj hi) _ _

/-- `activity_exec` releases the copy.
SOURCE: activity.c:385-388 -/
theorem free_simulated (hs : Seen s ring queue O) (howned : Owned (seen s queue O))
    (hshape : CallShapes (seen s queue O)) {n : ℕ}
    (hcopy : ∀ a i rc, s.act.calls[n]? ≠ some (.execFreeItem a i rc)) {act : ActivityWorld}
    (hmove : ActMove handler s.act (.free n) o act) :
    Simulated handler (seen s queue O) o { s with act := act } := by
  cases hmove with
  | freeItem _ a i rc hpc => exact absurd hpc (hcopy a i rc)
  | freeArg _ a i newArg rc hpc =>
    obtain ⟨-, c, rfl⟩ := hshape n _ hpc
    have hc : Obj.copy c ∈ O := howned.owns hpc (by simp [callOwns, Ptr.obj])
    have hmove : ActMove handler (seen s queue O) (.free n) _ _ := .freeArg n a i (.copy c) rc hpc
    rw [giveBack_copy _ (seen s queue O) hc] at hmove
    rw [giveBack_copy _ s.act (hs.copies c hc)]
    refine .move (.free n) _ ring queue (O.erase (.copy c)) hmove trivial ⟨rfl, rfl⟩ ?_
    exact hs.beside howned.nodup (by simp [ActivityWorld.setCall]) (fun _ _ => rfl) (.give c hc)
      hs.busy hs.plain

end Ctools.Analysis
