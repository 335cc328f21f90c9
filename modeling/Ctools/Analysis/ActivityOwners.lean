import Ctools.Analysis.ActivityFifo

/-!
# Every object of an activity has one owner

What is outstanding is, object by object, what the messages on their way and the
calls in progress own (`Owned`).  A step moves objects between an allocator, a
call and a message, and `Transfer` lists how; from it follow that the invariant is
kept (`Accounts.owned`) and that the ledgers of a run balance, that of everything
(`ledger_step`) and that of each call until it has enqueued its message
(`callLedger_step`).  That no exec item changes under a message or another call
rests on its having one owner (`Frame`).
-/

set_option autoImplicit false

namespace Ctools.Analysis

open Ctools.Library Ctools.Program Ctools.Interface

/-! ## Well-formed messages and calls -/

/-- An exec item owns a copied argument or points to one of the client. -/
def ItemOk (item : ActMsgExecItem) : Prop :=
  (item.attr = ACT_ATTR_GC ∧ ∃ c, item.arg = .copy c) ∨ (item.attr = 0 ∧ ∃ p, item.arg = .user p)

/-- The messages that the calls make. -/
inductive MsgOk (items : ℕ → ActMsgExecItem) : ActMsg → Prop
  | stop (e : ℕ) : MsgOk items (stopMsg e)
  | exec (i e : ℕ) (hitem : ItemOk (items i)) : MsgOk items (execMsg i e)
  | send (a : SendArgs) (arg : Ptr) (e : ℕ) (hrange : IsPlain a.msg)
      (harg : if a.argSize ≠ 0 then ∃ c, arg = .copy c else arg = .user a.arg) :
      MsgOk items (sendMsg a arg e)

/-- The exec item of a call that sends it owns the copy that the call owns. -/
def CallOk (items : ℕ → ActMsgExecItem) : CallPc → Prop
  | .execLock _ i newArg =>
      ItemOk (items i) ∧ gcOwns (items i).attr (items i).arg = newArg.obj
  | _ => True

/-- With a sound exec item, what its `ACT_ATTR_GC` owns is what its argument points to. -/
theorem gcOwns_of_itemOk {item : ActMsgExecItem} (h : ItemOk item) :
    gcOwns item.attr item.arg = item.arg.obj := by
  rcases h with ⟨hattr, -⟩ | ⟨hattr, p, harg⟩
  · simp [gcOwns, hattr, ACT_ATTR_GC]
  · simp [gcOwns, hattr, harg, Ptr.obj]

/-- A stop message owns its element. -/
theorem msgOwns_stopMsg (items : ℕ → ActMsgExecItem) (e : ℕ) :
    msgOwns items (stopMsg e) = [.msg e] := by
  simp [msgOwns, stopMsg, ACTIVITY_MSG_EXEC, gcOwns]

/-- An exec message owns its element, its item and what the item owns. -/
theorem msgOwns_execMsg (items : ℕ → ActMsgExecItem) (i e : ℕ) :
    msgOwns items (execMsg i e) = .msg e :: .item i :: gcOwns (items i).attr (items i).arg := rfl

/-- A client's message is not taken for an `ACTIVITY_MSG_EXEC`. -/
theorem sendMsg_not_exec {a : SendArgs} (h : IsPlain a.msg) (arg : Ptr) (e : ℕ) :
    (sendMsg a arg e).type.toUInt32.toInt32 ≠ ACTIVITY_MSG_EXEC := by
  rw [type_of_isPlain h arg e]
  exact h.2.2.2

/-- A client's message owns its element and the copy of its argument, if there is one. -/
theorem msgOwns_sendMsg (items : ℕ → ActMsgExecItem) {a : SendArgs} {arg : Ptr} (e : ℕ)
    (hrange : IsPlain a.msg)
    (harg : if a.argSize ≠ 0 then ∃ c, arg = .copy c else arg = .user a.arg) :
    msgOwns items (sendMsg a arg e) = .msg e :: arg.obj := by
  rw [msgOwns, if_neg (sendMsg_not_exec hrange arg e)]
  by_cases hsize : a.argSize = 0
  · simp only [hsize, ne_eq, not_true_eq_false, if_false] at harg
    simp [sendMsg, gcOwns, hsize, harg, Ptr.obj]
  · simp [sendMsg, gcOwns, hsize, ACT_ATTR_GC]

/-- What handling a message reads is what the message owns. -/
theorem MsgOk.uses {items : ℕ → ActMsgExecItem} {msg : ActMsg} (h : MsgOk items msg) :
    ∀ x ∈ handleUses items msg, x ∈ msgOwns items msg := by
  cases h with
  | stop e =>
    have huses : handleUses items (stopMsg e) = [.msg e] := by
      simp [handleUses, stopMsg, ACTIVITY_MSG_EXEC, ACTIVITY_MSG_GENERAL]
    rw [huses, msgOwns_stopMsg]
    exact fun x hx => hx
  | exec i e hitem =>
    rw [msgOwns_execMsg, gcOwns_of_itemOk hitem]
    exact fun x hx => hx
  | send a arg e hrange harg =>
    rw [msgOwns_sendMsg items e hrange harg]
    rw [handleUses, if_neg (sendMsg_not_exec hrange arg e)]
    by_cases hgeneral : (sendMsg a arg e).type.toUInt32.toInt32 ≥ ACTIVITY_MSG_GENERAL
    · rw [if_pos hgeneral]
      exact fun x hx => hx
    · -- a message that is not handled is not looked into
      rw [if_neg hgeneral]
      intro x hx
      exact List.mem_cons.mpr (.inl (List.mem_singleton.mp hx))

/-- What handling a message releases is what the message owns. -/
theorem MsgOk.releases {items : ℕ → ActMsgExecItem} {msg : ActMsg} (h : MsgOk items msg) :
    ∃ objs, handleReleases items msg = some objs ∧ objs.Perm (msgOwns items msg) := by
  cases h with
  | stop e =>
    refine ⟨[.msg e], ?_, ?_⟩
    · simp [handleReleases, stopMsg, ACTIVITY_MSG_EXEC]
    · rw [msgOwns_stopMsg]
  | exec i e hitem =>
    rw [msgOwns_execMsg]
    rcases hitem with ⟨hattr, c, harg⟩ | ⟨hattr, p, harg⟩
    · refine ⟨[.copy c, .item i, .msg e], ?_, ?_⟩
      · simp [handleReleases, execMsg, ACTIVITY_MSG_EXEC, hattr, harg, ACT_ATTR_GC, wofFree]
      · simp [gcOwns, hattr, harg, ACT_ATTR_GC, Ptr.obj]
        exact (List.reverse_perm [Obj.msg e, .item i, .copy c])
    · refine ⟨[.item i, .msg e], ?_, ?_⟩
      · simp [handleReleases, execMsg, ACTIVITY_MSG_EXEC, hattr]
      · simp [gcOwns, hattr, List.Perm.swap]
  | send a arg e hrange harg =>
    rw [msgOwns_sendMsg items e hrange harg]
    have hexec := sendMsg_not_exec hrange arg e
    by_cases hsize : a.argSize = 0
    · simp only [hsize, ne_eq, not_true_eq_false, if_false] at harg
      refine ⟨[.msg e], ?_, ?_⟩
      · rw [handleReleases, if_neg hexec]
        simp [sendMsg, hsize]
      · simp [harg, Ptr.obj]
    · rw [if_pos hsize] at harg
      obtain ⟨c, rfl⟩ := harg
      refine ⟨[.copy c, .msg e], ?_, List.Perm.swap _ _ _⟩
      rw [handleReleases, if_neg hexec]
      simp [sendMsg, hsize, ACT_ATTR_GC, wofFree]

/-! ## Releases -/

variable {handler : Bool} {s s' : ActivityWorld} {o : ActObs}

/-- Objects that are outstanding are released one after another. -/
theorem releaseAll_of_perm {objs rest : List Obj} :
    ∀ {outstanding : List Obj}, outstanding.Perm (objs ++ rest) →
      ∃ left, releaseAll outstanding objs = some left ∧ left.Perm rest := by
  induction objs with
  | nil => exact fun {outstanding} hperm => ⟨outstanding, rfl, hperm⟩
  | cons x objs ih =>
    intro outstanding hperm
    have hmem : x ∈ outstanding := hperm.mem_iff.mpr (by simp)
    have herase : (outstanding.erase x).Perm (objs ++ rest) := by
      have := hperm.erase x
      rwa [List.cons_append, List.erase_cons_head] at this
    rw [releaseAll, if_pos hmem]
    exact ih herase

/-- A release of what is outstanding is no fault. -/
theorem giveBack_of_perm {objs rest : List Obj} (h : s.outstanding.Perm (objs ++ rest))
    (shown : ActObs) :
    ∃ left, giveBack shown s (some objs) = ({ shown with gave := objs },
      { s with outstanding := left }) ∧ left.Perm rest := by
  obtain ⟨left, hleft, hperm⟩ := releaseAll_of_perm h
  refine ⟨left, ?_, hperm⟩
  simp only [giveBack, hleft]

/-! ## The invariant -/

/-- What is outstanding has exactly one owner each, and messages and calls are as
the code makes them. -/
structure Owned (s : ActivityWorld) : Prop where
  nodup : s.outstanding.Nodup
  perm : s.outstanding.Perm (owners s)
  msgs : ∀ msg ∈ messages s, MsgOk s.items msg
  calls : ∀ (n : ℕ) (pc : CallPc), s.calls[n]? = some pc → CallOk s.items pc

/-- At the start nothing is outstanding, and nothing is owned. -/
theorem owned_start : Owned activityStart where
  nodup := List.nodup_nil
  perm := List.Perm.refl _
  msgs msg hmsg := by cases hmsg
  calls n pc hpc := by cases hpc

/-- What a call in progress owns is outstanding, next to what the others own. -/
theorem Owned.perm_call (h : Owned s) {n : ℕ} {pc : CallPc} (hpc : s.calls[n]? = some pc) :
    s.outstanding.Perm (callOwns pc ++
      ((messages s).flatMap (msgOwns s.items) ++ (s.calls.eraseIdx n).flatMap callOwns)) := by
  have hcalls := (perm_flatMap_set hpc callOwns).1
  refine h.perm.trans ?_
  rw [owners]
  refine (hcalls.append_left _).trans ?_
  rw [← List.append_assoc, ← List.append_assoc]
  exact List.perm_append_comm.append_right _

/-- Exec item `i` belongs to none of the messages and to no call but `n`. -/
def Unshared (s : ActivityWorld) (n i : ℕ) : Prop :=
  Obj.item i ∉ (messages s).flatMap (msgOwns s.items) ∧
    ∀ (m : ℕ) (q : CallPc), m ≠ n → s.calls[m]? = some q → Obj.item i ∉ callOwns q

/-- Nobody holds an item that is not outstanding. -/
theorem Owned.unshared_of_fresh (h : Owned s) {i : ℕ} (hfresh : Obj.item i ∉ s.outstanding)
    (n : ℕ) : Unshared s n i := by
  have hnone : Obj.item i ∉ owners s := fun hmem => hfresh (h.perm.mem_iff.mpr hmem)
  rw [owners, List.mem_append, not_or] at hnone
  refine ⟨hnone.1, fun m q _ hq hmem => hnone.2 ?_⟩
  exact List.mem_flatMap.mpr ⟨q, List.mem_of_getElem? hq, hmem⟩

/-- Nobody else holds an item that a call owns. -/
theorem Owned.unshared_of_owned (h : Owned s) {n i : ℕ} {pc : CallPc}
    (hpc : s.calls[n]? = some pc) (hi : Obj.item i ∈ callOwns pc) : Unshared s n i := by
  have hnodup : (owners s).Nodup := h.perm.nodup_iff.mp h.nodup
  rw [owners, List.nodup_append] at hnodup
  refine ⟨fun hmem => ?_, fun m q hne hq => ?_⟩
  · exact hnodup.2.2 _ hmem _ (List.mem_flatMap.mpr ⟨pc, List.mem_of_getElem? hpc, hi⟩) rfl
  · exact not_mem_of_nodup_flatMap hnodup.2.1 hpc hq hne.symm hi

/-- A message that does not own exec item `i` does not see it change. -/
theorem msgOwns_update {items : ℕ → ActMsgExecItem} {i : ℕ} {msg : ActMsg}
    (h : MsgOk items msg) (hi : Obj.item i ∉ msgOwns items msg) (item : ActMsgExecItem) :
    msgOwns (Function.update items i item) msg = msgOwns items msg ∧
      MsgOk (Function.update items i item) msg := by
  cases h with
  | stop e => exact ⟨by rw [msgOwns_stopMsg, msgOwns_stopMsg], .stop e⟩
  | exec j e hitem =>
    rw [msgOwns_execMsg] at hi
    have hne : j ≠ i := by
      rintro rfl
      simp at hi
    have hsame : Function.update items i item j = items j := Function.update_of_ne hne _ _
    refine ⟨by rw [msgOwns_execMsg, msgOwns_execMsg, hsame], .exec j e ?_⟩
    rwa [hsame]
  | send a arg e hrange harg =>
    exact ⟨by rw [msgOwns_sendMsg _ e hrange harg, msgOwns_sendMsg _ e hrange harg],
      .send a arg e hrange harg⟩

/-- No message and no call but `n` sees the difference to the exec items `items`. -/
structure Frame (s : ActivityWorld) (n : ℕ) (items : ℕ → ActMsgExecItem) : Prop where
  owns : (messages s).flatMap (msgOwns items) = (messages s).flatMap (msgOwns s.items)
  msgs : ∀ msg ∈ messages s, MsgOk items msg
  calls : ∀ (m : ℕ) (q : CallPc), m ≠ n → s.calls[m]? = some q → CallOk items q

/-- Items that stay as they are keep what the others hold. -/
theorem Owned.frame (h : Owned s) (n : ℕ) : Frame s n s.items :=
  ⟨rfl, h.msgs, fun m q _ hq => h.calls m q hq⟩

/-- Writing to an item that nobody else holds keeps what the others hold. -/
theorem Owned.frame_update (h : Owned s) {n i : ℕ} (hi : Unshared s n i) (item : ActMsgExecItem) :
    Frame s n (Function.update s.items i item) := by
  have hmsg : ∀ msg ∈ messages s, Obj.item i ∉ msgOwns s.items msg :=
    fun msg hmem hown => hi.1 (List.mem_flatMap.mpr ⟨msg, hmem, hown⟩)
  refine ⟨List.flatMap_congr fun msg hmem => ?_, fun msg hmem => ?_, fun m q hne hq => ?_⟩
  · exact (msgOwns_update (h.msgs msg hmem) (hmsg msg hmem) item).1
  · exact (msgOwns_update (h.msgs msg hmem) (hmsg msg hmem) item).2
  · have hold := h.calls m q hq
    have hother := hi.2 m q hne hq
    cases q with
    | execLock a j newArg =>
      have hji : j ≠ i := by
        rintro rfl
        simp [callOwns] at hother
      simp only [CallOk, Function.update_of_ne hji]
      exact hold
    | _ => trivial

/-! ## What a step does -/

/-- The allocators' side of a step. -/
structure Booked (s : ActivityWorld) (o : ActObs) (s' : ActivityWorld) : Prop where
  fault : o.fault = false
  fresh : (s.outstanding ++ o.took).Nodup
  perm : (s.outstanding ++ o.took).Perm (o.gave ++ s'.outstanding)

/-- The books of a step that neither allocates nor releases. -/
theorem booked_still (h : s.outstanding.Nodup) (hfault : o.fault = false) (htook : o.took = [])
    (hgave : o.gave = []) (hout : s'.outstanding = s.outstanding) : Booked s o s' := by
  refine ⟨hfault, ?_, ?_⟩
  · rwa [htook, List.append_nil]
  · rw [htook, hgave, hout, List.append_nil, List.nil_append]

/-- The books of an allocation. -/
theorem booked_take {x : Obj} (h : s.outstanding.Nodup) (hfresh : x ∉ s.outstanding)
    (hfault : o.fault = false) (htook : o.took = [x]) (hgave : o.gave = [])
    (hout : s'.outstanding = x :: s.outstanding) : Booked s o s' := by
  have hperm : (s.outstanding ++ [x]).Perm (x :: s.outstanding) := List.perm_append_singleton x _
  refine ⟨hfault, ?_, ?_⟩
  · rw [htook]
    exact hperm.nodup_iff.mpr (List.nodup_cons.mpr ⟨hfresh, h⟩)
  · rw [htook, hgave, hout]
    exact hperm

/-- The books of a step that only releases. -/
theorem booked_give (h : s.outstanding.Nodup) (hfault : o.fault = false) (htook : o.took = [])
    (hperm : s.outstanding.Perm (o.gave ++ s'.outstanding)) : Booked s o s' := by
  refine ⟨hfault, ?_, ?_⟩
  · rwa [htook, List.append_nil]
  · rwa [htook, List.append_nil]

/-- What the messages on their way own. -/
def msgsOwn (s : ActivityWorld) : List Obj := (messages s).flatMap (msgOwns s.items)

/-- What a step does to what is owned: a call starts; a call takes or, failing,
gives back; a call hands what it owns to the message it enqueues; a message is
handled; or nothing. -/
inductive Transfer (s : ActivityWorld) (a : ActivityAct) (o : ActObs) (s' : ActivityWorld) : Prop
  | starts (pc : CallPc) (hmover : mover a = none) (hcalls : s'.calls = s.calls ++ [pc])
      (hnothing : callOwns pc = []) (hsame : msgsOwn s' = msgsOwn s) (htook : o.took = [])
      (hgave : o.gave = [])
  | call (n : ℕ) (pc pc' : CallPc) (hmover : mover a = some n) (hpc : s.calls[n]? = some pc)
      (hcalls : s'.calls = s.calls.set n pc')
      (howns : (callOwns pc ++ o.took).Perm (o.gave ++ callOwns pc'))
      (hsame : msgsOwn s' = msgsOwn s) (hsettled : Settled pc → Settled pc')
      (hfails : o.gave ≠ [] → Fails pc' ∧ o.took = [])
  | enqueues (n : ℕ) (pc pc' : CallPc) (msg : ActMsg) (hmover : mover a = some n)
      (hpc : s.calls[n]? = some pc) (hcalls : s'.calls = s.calls.set n pc')
      (howns : (callOwns pc ++ o.took).Perm (msgOwns s.items msg)) (hgave : o.gave = [])
      (hnothing : callOwns pc' = []) (hsettled : Settled pc')
      (hmsgs : messages s' = messages s ++ [msg]) (hitems : s'.items = s.items)
  | handles (msg : ActMsg) (hmover : mover a = none) (hcalls : s'.calls = s.calls)
      (hmsgs : messages s = msg :: messages s') (hitems : s'.items = s.items)
      (htook : o.took = []) (hgave : o.gave.Perm (msgOwns s.items msg))
      (hhandled : o.handled = some msg)
  | moves (hmover : mover a = none) (hcalls : s'.calls = s.calls) (hsame : msgsOwn s' = msgsOwn s)
      (htook : o.took = []) (hgave : o.gave = [])

/-- What has an owner before a step and what it takes is what it gives back and
what has an owner after it. -/
theorem Transfer.owners_perm {a : ActivityAct} (h : Transfer s a o s') :
    (owners s ++ o.took).Perm (o.gave ++ owners s') := by
  have hsplit (t : ActivityWorld) : owners t = msgsOwn t ++ t.calls.flatMap callOwns := rfl
  rw [List.perm_iff_count]
  intro x
  rw [hsplit s, hsplit s']
  cases h with
  | starts pc hmover hcalls hnothing hsame htook hgave =>
    simp [hsame, hcalls, hnothing, htook, hgave]
  | call n pc pc' hmover hpc hcalls howns hsame =>
    obtain ⟨hbefore, hafter⟩ := perm_flatMap_set hpc callOwns
    have hcount := howns.count_eq x
    have hcount_before := hbefore.count_eq x
    have hcount_after := (hafter pc').count_eq x
    rw [hsame, hcalls]
    simp only [List.count_append] at *
    omega
  | enqueues n pc pc' msg hmover hpc hcalls howns hgave hnothing hsettled hmsgs hitems =>
    obtain ⟨hbefore, hafter⟩ := perm_flatMap_set hpc callOwns
    have hcount := howns.count_eq x
    have hcount_before := hbefore.count_eq x
    have hcount_after := (hafter pc').count_eq x
    have hmsgsOwn : msgsOwn s' = msgsOwn s ++ msgOwns s.items msg := by
      simp [msgsOwn, hmsgs, hitems]
    rw [hmsgsOwn, hcalls, hgave]
    rw [hnothing] at hcount_after
    simp only [List.count_append, List.count_nil] at *
    omega
  | handles msg hmover hcalls hmsgs hitems htook hgave =>
    have hcount := hgave.count_eq x
    have hmsgsOwn : msgsOwn s = msgOwns s.items msg ++ msgsOwn s' := by
      simp [msgsOwn, hmsgs, hitems]
    rw [hmsgsOwn, hcalls, htook]
    simp only [List.count_append, List.count_nil]
    omega
  | moves hmover hcalls hsame htook hgave => simp [hsame, hcalls, htook, hgave]

/-- What a step keeps. -/
structure Accounts (s : ActivityWorld) (a : ActivityAct) (o : ActObs) (s' : ActivityWorld) :
    Prop where
  transfer : Transfer s a o s'
  booked : Booked s o s'
  msgs : ∀ msg ∈ messages s', MsgOk s'.items msg
  calls : ∀ (n : ℕ) (pc : CallPc), s'.calls[n]? = some pc → CallOk s'.items pc

/-- A step with sound accounts keeps the ownership. -/
theorem Accounts.owned {a : ActivityAct} (hs : Owned s) (h : Accounts s a o s') : Owned s' where
  nodup := (List.nodup_append.mp (h.booked.perm.nodup_iff.mp h.booked.fresh)).2.1
  perm := by
    have htook : (s.outstanding ++ o.took).Perm (o.gave ++ owners s') :=
      (hs.perm.append_right _).trans h.transfer.owners_perm
    exact (List.perm_append_left_iff _).mp (h.booked.perm.symm.trans htook)
  msgs := h.msgs
  calls := h.calls

/-- A step of call `n` that leaves the messages alone. -/
theorem accounts_call {a : ActivityAct} {n : ℕ} {pc pc' : CallPc} (hmover : mover a = some n)
    (hpc : s.calls[n]? = some pc) (hcalls : s'.calls = s.calls.set n pc')
    (hmsgs : messages s' = messages s) (hframe : Frame s n s'.items) (hok : CallOk s'.items pc')
    (howns : (callOwns pc ++ o.took).Perm (o.gave ++ callOwns pc'))
    (hsettled : Settled pc → Settled pc') (hfails : o.gave ≠ [] → Fails pc' ∧ o.took = [])
    (hbooked : Booked s o s') : Accounts s a o s' := by
  have hsame : msgsOwn s' = msgsOwn s := by rw [msgsOwn, msgsOwn, hmsgs, hframe.owns]
  refine ⟨.call n pc pc' hmover hpc hcalls howns hsame hsettled hfails, hbooked, ?_, ?_⟩
  · rw [hmsgs]
    exact hframe.msgs
  · intro m q hq
    rw [hcalls] at hq
    rcases getElem?_set_cases hq with ⟨-, rfl⟩ | ⟨hne, hold⟩
    · exact hok
    · exact hframe.calls m q hne hold

/-- A step of a call that takes and gives back nothing. -/
theorem accounts_quiet {a : ActivityAct} {n : ℕ} {pc pc' : CallPc} (h : Owned s)
    (hmover : mover a = some n) (hpc : s.calls[n]? = some pc)
    (hcalls : s'.calls = s.calls.set n pc')
    (hmsgs : messages s' = messages s) (hitems : s'.items = s.items) (hok : CallOk s.items pc')
    (howns : callOwns pc = callOwns pc') (hsettled : Settled pc → Settled pc')
    (htook : o.took = []) (hgave : o.gave = []) (hfault : o.fault = false)
    (hout : s'.outstanding = s.outstanding) : Accounts s a o s' := by
  refine accounts_call hmover hpc hcalls hmsgs (hitems ▸ h.frame n) (hitems ▸ hok) ?_ hsettled
    (fun hne => absurd hgave hne) (booked_still h.nodup hfault htook hgave hout)
  rw [htook, hgave, howns, List.append_nil, List.nil_append]

/-- A call enqueues `msg`, whose element is fresh, and hands it what it owns. -/
theorem accounts_enqueue {a : ActivityAct} {n : ℕ} {pc pc' : CallPc} {msg : ActMsg} (h : Owned s)
    (hmover : mover a = some n) (hpc : s.calls[n]? = some pc)
    (hcalls : s'.calls = s.calls.set n pc')
    (hworkers : s'.workers = s.workers) (hqueue : s'.queue = s.queue ++ [msg])
    (hitems : s'.items = s.items) (hmsg : MsgOk s.items msg)
    (howns : msgOwns s.items msg = .msg msg.elem :: callOwns pc) (hnothing : callOwns pc' = [])
    (hok : CallOk s.items pc') (hsettled : Settled pc') (hfresh : .msg msg.elem ∉ s.outstanding)
    (htook : o.took = [.msg msg.elem]) (hgave : o.gave = []) (hfault : o.fault = false)
    (hout : s'.outstanding = .msg msg.elem :: s.outstanding) : Accounts s a o s' := by
  have hmsgs : messages s' = messages s ++ [msg] := by
    rw [messages, messages, hands, hands, hworkers, hqueue, List.append_assoc]
  refine ⟨.enqueues n pc pc' msg hmover hpc hcalls ?_ hgave hnothing hsettled hmsgs hitems,
    booked_take h.nodup hfresh hfault htook hgave hout, ?_, ?_⟩
  · rw [htook, howns]
    exact List.perm_append_singleton _ _
  · intro m hm
    rw [hmsgs, List.mem_append, List.mem_singleton] at hm
    rw [hitems]
    rcases hm with hold | rfl
    · exact h.msgs m hold
    · exact hmsg
  · intro m q hq
    rw [hcalls] at hq
    rw [hitems]
    rcases getElem?_set_cases hq with ⟨-, rfl⟩ | ⟨-, hold⟩
    · exact hok
    · exact h.calls m q hold

/-- A step of a worker that handles nothing. -/
theorem accounts_worker {a : ActivityAct} (h : Owned s) (hmover : mover a = none)
    (hcalls : s'.calls = s.calls) (hmsgs : messages s' = messages s) (hitems : s'.items = s.items)
    (htook : o.took = []) (hgave : o.gave = []) (hfault : o.fault = false)
    (hout : s'.outstanding = s.outstanding) : Accounts s a o s' := by
  refine ⟨.moves hmover hcalls ?_ htook hgave, booked_still h.nodup hfault htook hgave hout, ?_, ?_⟩
  · rw [msgsOwn, msgsOwn, hmsgs, hitems]
  · rw [hmsgs, hitems]
    exact h.msgs
  · rw [hcalls, hitems]
    exact h.calls

/-- A worker goes on with nothing in its hand, before and after. -/
theorem Life.messages_eq (h : Life s) {w : ℕ} {pc : WorkerPc} (hpc : s.workers[w]? = some pc)
    (hlive : pc ≠ .ended) (pc' : WorkerPc) (hheld : held pc = held pc')
    (hworkers : s'.workers = s.workers.set w pc') (hqueue : s'.queue = s.queue) :
    messages s' = messages s := by
  obtain ⟨hbefore, hafter⟩ := h.hands_eq hpc hlive pc'
  rw [messages, messages, hbefore, hands, hworkers, hafter, hheld, hqueue]

/-- A call starts. -/
theorem accounts_start {c : ActivityCall} {pc : CallPc} (h : Owned s) (hnothing : callOwns pc = [])
    (hok : CallOk s.items pc) (htook : o.took = []) (hgave : o.gave = [])
    (hfault : o.fault = false) :
    Accounts s (.call c) o { s with calls := s.calls ++ [pc] } := by
  refine ⟨.starts pc rfl rfl hnothing rfl htook hgave,
    booked_still h.nodup hfault htook hgave rfl, h.msgs, ?_⟩
  intro m q hq
  rcases getElem?_snoc_cases hq with ⟨-, rfl⟩ | hold
  · exact hok
  · exact h.calls m q hold

/-- `activity_msg_send` unwinds: the copy is released.
SOURCE: activity.c:342-347 -/
theorem accounts_sendRefusedFree (h : Owned s) (hshape : CallShapes s) {n : ℕ} {a : SendArgs}
    {arg : Ptr} {rc : ℤ} (elem : Option ℕ) (hpc : s.calls[n]? = some (.sendLock a arg))
    (hrc : rc ≠ 0) (hsize : a.argSize ≠ 0) :
    Accounts s (.locked n elem)
        (giveBack { quiet s with ret := some (.send a, rc) } s (wofFree arg)).1
      ((giveBack { quiet s with ret := some (.send a, rc) } s (wofFree arg)).2.setCall n
        (.returned rc)) := by
  have hcopy : ∃ c, arg = .copy c := by
    have hcarries := (hshape n _ hpc).2
    rwa [if_pos hsize] at hcarries
  obtain ⟨c, rfl⟩ := hcopy
  obtain ⟨left, hgive, hleft⟩ :=
    giveBack_of_perm (h.perm_call hpc) { quiet s with ret := some (.send a, rc) }
  have hfree : wofFree (.copy c) = some (callOwns (.sendLock a (.copy c))) := rfl
  rw [hfree, hgive]
  refine accounts_call rfl hpc rfl rfl (h.frame n) trivial (List.Perm.refl _) (fun hf => hf.elim)
    (fun _ => ⟨hrc, rfl⟩) (booked_give h.nodup rfl rfl ?_)
  exact (h.perm_call hpc).trans (hleft.symm.append_left _)

/-- `activity_exec` unwinds: the copy is released.
SOURCE: activity.c:385-388 -/
theorem accounts_freeArg (h : Owned s) (hshape : CallShapes s) {n : ℕ} {a : ExecArgs} {i : ℕ}
    {newArg : Ptr} {rc : ℤ} (hpc : s.calls[n]? = some (.execFreeArg a i newArg rc)) :
    Accounts s (.free n) (giveBack (quiet s) s (wofFree newArg)).1
      ((giveBack (quiet s) s (wofFree newArg)).2.setCall n (.execFreeItem a i rc)) := by
  obtain ⟨hrc, c, rfl⟩ := hshape n _ hpc
  have hswap : (callOwns (.execFreeArg a i (.copy c) rc)).Perm
      ([Obj.copy c] ++ callOwns (.execFreeItem a i rc)) := List.Perm.swap _ _ _
  have hout := (h.perm_call hpc).trans (hswap.append_right _)
  rw [List.append_assoc] at hout
  obtain ⟨left, hgive, hleft⟩ := giveBack_of_perm hout (quiet s)
  have hfree : wofFree (.copy c) = some [.copy c] := rfl
  rw [hfree, hgive]
  refine accounts_call rfl hpc rfl rfl (h.frame n) trivial hswap (fun hf => hf.elim)
    (fun _ => ⟨hrc, rfl⟩) (booked_give h.nodup rfl rfl ?_)
  exact hout.trans (hleft.symm.append_left _)

/-- `activity_exec` unwinds: the exec item is released.
SOURCE: activity.c:389-392 -/
theorem accounts_freeItem (h : Owned s) (hshape : CallShapes s) {n : ℕ} {a : ExecArgs} {i : ℕ}
    {rc : ℤ} (hpc : s.calls[n]? = some (.execFreeItem a i rc)) :
    Accounts s (.free n) (giveBack { quiet s with ret := some (.exec a, rc) } s (some [.item i])).1
      ((giveBack { quiet s with ret := some (.exec a, rc) } s (some [.item i])).2.setCall n
        (.returned rc)) := by
  have hrc : rc ≠ 0 := hshape n _ hpc
  obtain ⟨left, hgive, hleft⟩ :=
    giveBack_of_perm (h.perm_call hpc) { quiet s with ret := some (.exec a, rc) }
  have hitem : callOwns (.execFreeItem a i rc) = [.item i] := rfl
  rw [hitem] at hgive
  rw [hgive]
  refine accounts_call rfl hpc rfl rfl (h.frame n) trivial (List.Perm.refl _) (fun hf => hf.elim)
    (fun _ => ⟨hrc, rfl⟩) (booked_give h.nodup rfl rfl ?_)
  exact (h.perm_call hpc).trans (hleft.symm.append_left _)

/-- The worker handles a message and releases what it owns.
SOURCE: activity.c:87-149 -/
theorem accounts_handle (h : Owned s) (hlife : Life s) {w : ℕ} {msg : ActMsg}
    (hpc : s.workers[w]? = some (.holding msg)) :
    Accounts s (.worker w) (handleMsg handler s msg).1
      ((handleMsg handler s msg).2.setWorker w .draining) := by
  obtain ⟨hbefore, hafter⟩ := hlife.hands_eq hpc (by simp) .draining
  have hmsgs : messages s = msg :: s.queue := by rw [messages, hbefore]; rfl
  have hok : MsgOk s.items msg := h.msgs msg (by simp [hmsgs])
  have hsplit : s.outstanding.Perm
      (msgOwns s.items msg ++ (s.queue.flatMap (msgOwns s.items) ++ s.calls.flatMap callOwns)) := by
    have hperm := h.perm
    rwa [owners, hmsgs, List.flatMap_cons, List.append_assoc] at hperm
  obtain ⟨objs, hreleases, hobjs⟩ := hok.releases
  have hout := hsplit.trans (hobjs.symm.append_right _)
  -- what the handler reads is outstanding, so nothing is used after its release
  have huses : (handleUses s.items msg).all (· ∈ s.outstanding) = true := by
    rw [List.all_eq_true]
    intro x hx
    have howns : x ∈ msgOwns s.items msg := hok.uses x hx
    exact decide_eq_true (hsplit.mem_iff.mpr (List.mem_append_left _ howns))
  rw [handleMsg, hreleases]
  obtain ⟨left, hgive, hleft⟩ := giveBack_of_perm
    (s := { s with exited := s.exited || msg.type.toUInt32.toInt32 = ACTIVITY_MSG_STOP }) hout
    { quiet s with
      handled := some msg
      called := handlerCall handler s.items msg
      fault := !(handleUses s.items msg).all (· ∈ s.outstanding) }
  rw [hgive]
  have hmsgs' : messages s = msg :: messages ({ s with
      exited := s.exited || msg.type.toUInt32.toInt32 = ACTIVITY_MSG_STOP
      outstanding := left }.setWorker w .draining) := by
    rw [hmsgs, messages, hands, ActivityWorld.setWorker, hafter]
    rfl
  refine ⟨.handles msg rfl rfl hmsgs' rfl rfl hobjs rfl, booked_give h.nodup ?_ rfl ?_, ?_, h.calls⟩
  · simp only [huses]
    rfl
  · exact hout.trans (hleft.symm.append_left _)
  · intro m hm
    exact h.msgs m (by rw [hmsgs']; exact List.mem_cons_of_mem _ hm)

/-- **Every step** of an activity keeps its accounts. -/
theorem accounts_step {a : ActivityAct} (hmove : ActMove handler s a o s') (hliving : Living s)
    (h : Owned s) (hguard : plainMsgs s a) : Accounts s a o s' := by
  have hshape := hliving.shape
  cases hmove with
  | refuse c rc hrc => exact accounts_start h rfl trivial rfl rfl rfl
  | enter c pc hpc =>
    have howns : callOwns pc = [] := by cases hpc <;> rfl
    have hok : CallOk s.items pc := by cases hpc <;> trivial
    exact accounts_start h howns hok rfl rfl rfl
  | sendNoCopy n a hpc =>
    exact accounts_quiet h rfl hpc rfl rfl rfl trivial rfl (fun hf => hf.elim) rfl rfl rfl rfl
  | sendCopy n a c hpc hfresh =>
    exact accounts_call rfl hpc rfl rfl (h.frame n) trivial (List.Perm.refl _) (fun hf => hf.elim)
      (fun hne => absurd rfl hne) (booked_take h.nodup hfresh rfl rfl rfl rfl)
  | execNoItem n a hpc =>
    exact accounts_quiet h rfl hpc rfl rfl rfl trivial rfl (fun hf => hf.elim) rfl rfl rfl rfl
  | execItem n a i hpc hfresh =>
    have hframe := h.frame_update (h.unshared_of_fresh hfresh n) ⟨a.func, .user a.arg, 0⟩
    refine accounts_call rfl hpc rfl rfl hframe ?_ ?_ (fun hf => hf.elim)
      (fun hne => absurd rfl hne) (booked_take h.nodup hfresh rfl rfl rfl rfl)
    · split
      · trivial
      · simp [CallOk, ItemOk, gcOwns, Ptr.null, Ptr.obj, ActivityWorld.setCall]
    · split <;> exact List.Perm.refl _
  | execNoCopy n a i hpc =>
    have hunshared := h.unshared_of_owned (i := i) hpc (by simp [callOwns])
    exact accounts_call rfl hpc rfl rfl (h.frame_update hunshared _) trivial (List.Perm.refl _)
      (fun hf => hf.elim) (fun hne => absurd rfl hne) (booked_still h.nodup rfl rfl rfl rfl)
  | execCopy n a i c hpc hfresh =>
    have hunshared := h.unshared_of_owned (i := i) hpc (by simp [callOwns])
    refine accounts_call rfl hpc rfl rfl (h.frame_update hunshared _) ?_ (List.Perm.refl _)
      (fun hf => hf.elim) (fun hne => absurd rfl hne) (booked_take h.nodup hfresh rfl rfl rfl rfl)
    simp [CallOk, ItemOk, gcOwns, ACT_ATTR_GC, ActivityWorld.setCall]
  | sendRefused n a arg rc elem hpc hrc hsize =>
    have harg : arg = .user a.arg := by
      have hcarries := (hshape n _ hpc).2
      rwa [if_neg (not_not.mpr hsize)] at hcarries
    have howns : callOwns (.sendLock a arg) = [] := by rw [harg]; rfl
    exact accounts_quiet h rfl hpc rfl rfl rfl trivial howns (fun hf => hf.elim) rfl rfl rfl rfl
  | sendRefusedFree n a arg rc elem hpc hrc hsize =>
    exact accounts_sendRefusedFree h hshape elem hpc hrc hsize
  | sendAccepted n a arg e hpc hrun hfresh =>
    obtain ⟨hrange, harg⟩ := hshape n _ hpc
    exact accounts_enqueue h rfl hpc rfl rfl rfl rfl (.send a arg e hrange harg)
      (msgOwns_sendMsg s.items e hrange harg) rfl trivial rfl hfresh rfl rfl rfl rfl
  | execRefused n a i newArg rc elem hpc hrc =>
    have hcarries := hshape n _ hpc
    refine accounts_quiet h rfl hpc rfl rfl rfl ?_ ?_ (fun hf => hf.elim) rfl rfl rfl rfl
    · split <;> trivial
    · split
      · rfl
      · rename_i hsize
        simp only [CallShape, if_neg hsize] at hcarries
        rw [hcarries]
        rfl
  | execAccepted n a i newArg e hpc hrun hfresh =>
    obtain ⟨hitem, howns⟩ := h.calls n _ hpc
    refine accounts_enqueue h rfl hpc rfl rfl rfl rfl (.exec i e hitem) ?_ rfl trivial rfl hfresh
      rfl rfl rfl rfl
    rw [msgOwns_execMsg, howns]
    rfl
  | stopRefused n waitFinish rc elem hpc hrc =>
    exact accounts_quiet h rfl hpc rfl rfl rfl trivial rfl (fun hf => hf.elim) rfl rfl rfl rfl
  | stopAccepted n waitFinish e hpc hrun hfresh =>
    refine accounts_enqueue h rfl hpc rfl rfl rfl rfl (.stop e) (msgOwns_stopMsg s.items e) ?_ ?_ ?_
      hfresh rfl rfl rfl rfl
    · split <;> rfl
    · split <;> trivial
    · split
      · trivial
      · rfl
  | freeArg n a i newArg rc hpc => exact accounts_freeArg h hshape hpc
  | freeItem n a i rc hpc => exact accounts_freeItem h hshape hpc
  | runLock n rc hpc hfree =>
    exact accounts_quiet h rfl hpc rfl rfl rfl trivial rfl (fun hf => hf.elim) rfl rfl rfl rfl
  | runBack n rc rc' pc exited hpc hwhere =>
    have hpc' : callOwns pc = [] ∧ ¬ Settled pc := by
      rcases hwhere with ⟨rfl, -⟩ | ⟨rfl, -⟩ | ⟨rfl, -⟩ <;> exact ⟨rfl, id⟩
    exact accounts_quiet h rfl hpc rfl rfl rfl trivial hpc'.1 (fun hf => absurd hf hpc'.2)
      rfl rfl rfl rfl
  | runCreate n hpc =>
    have hmsgs : messages ({ s with
        workers := s.workers ++ [WorkerPc.starting]
        thread := some s.workers.length }.setCall n .runStarted) = messages s := by
      simp [messages, hands, ActivityWorld.setCall, held]
    exact accounts_quiet h rfl hpc rfl hmsgs rfl trivial rfl (fun hf => hf.elim) rfl rfl rfl rfl
  | runCheck n rc hpc | runInit n rc hpc | runEventInit n rc hpc | runStarted n rc hpc =>
    exact accounts_quiet h rfl hpc rfl rfl rfl trivial rfl (fun hf => hf.elim) rfl rfl rfl rfl
  | runNotCreated n rc hpc hrc =>
    exact accounts_quiet h rfl hpc rfl rfl rfl trivial rfl (fun hf => hf.elim) rfl rfl rfl rfl
  | joinRead n hpc =>
    exact accounts_quiet h rfl hpc rfl rfl rfl trivial rfl id rfl rfl rfl rfl
  | joinDone n thread hpc hended =>
    exact accounts_quiet h rfl hpc rfl rfl rfl trivial rfl (fun _ => rfl) rfl rfl rfl rfl
  | handle w msg hpc => exact accounts_handle h hliving.life hpc
  | dequeue w msg queue hpc hqueue =>
    obtain ⟨hbefore, hafter⟩ := hliving.life.hands_eq hpc (by simp) (.holding msg)
    refine accounts_worker h rfl rfl ?_ rfl rfl rfl rfl rfl
    rw [messages, messages, hbefore, hqueue, hands, ActivityWorld.setWorker, hafter]
    rfl
  | workerStart w hpc =>
    exact accounts_worker h rfl rfl (hliving.life.messages_eq hpc (by simp) .polling rfl rfl rfl)
      rfl rfl rfl rfl rfl
  | drained w hpc hqueue =>
    exact accounts_worker h rfl rfl (hliving.life.messages_eq hpc (by simp) .polling rfl rfl rfl)
      rfl rfl rfl rfl rfl
  | workerEnd w hpc =>
    exact accounts_worker h rfl rfl (hliving.life.messages_eq hpc (by simp) .ended rfl rfl rfl)
      rfl rfl rfl rfl rfl
  | pollBack w hpc hexited =>
    exact accounts_worker h rfl rfl (hliving.life.messages_eq hpc (by simp) .leaving rfl rfl rfl)
      rfl rfl rfl rfl rfl
  | pollCall w hpc =>
    exact accounts_worker h rfl rfl (hliving.life.messages_eq hpc (by simp) .draining rfl rfl rfl)
      rfl rfl rfl rfl rfl

/-! ## The ledger of a run -/

/-- What holds of a run and the state it reached. -/
structure Accounted (h : List (ActivityAct × ActObs)) (s : ActivityWorld) : Prop where
  living : Living s
  owned : Owned s
  faultless : ∀ e ∈ h, e.2.fault = false
  ledger : (took h).Perm (gave h ++ s.outstanding)
  unstarted : ∀ n, s.calls.length ≤ n → stepsOf n h = []
  callLedger : ∀ (n : ℕ) (pc : CallPc), s.calls[n]? = some pc → ¬ Settled pc →
    (took (stepsOf n h)).Perm (gave (stepsOf n h) ++ callOwns pc)

/-- What a longer run took. -/
theorem took_snoc (h : List (ActivityAct × ActObs)) (a : ActivityAct) (o : ActObs) :
    took (h ++ [(a, o)]) = took h ++ o.took := by
  simp [took]

/-- What a longer run gave back. -/
theorem gave_snoc (h : List (ActivityAct × ActObs)) (a : ActivityAct) (o : ActObs) :
    gave (h ++ [(a, o)]) = gave h ++ o.gave := by
  simp [gave]

/-- The steps of a call in a longer run. -/
theorem stepsOf_snoc (n : ℕ) (h : List (ActivityAct × ActObs)) (a : ActivityAct) (o : ActObs) :
    stepsOf n (h ++ [(a, o)]) =
      if mover a = some n then stepsOf n h ++ [(a, o)] else stepsOf n h := by
  by_cases hm : mover a = some n <;> simp [stepsOf, List.filter_append, hm]

/-- The ledger of all, after a step. -/
theorem ledger_step {h : List (ActivityAct × ActObs)} {a : ActivityAct} (hbooked : Booked s o s')
    (hledger : (took h).Perm (gave h ++ s.outstanding)) :
    (took (h ++ [(a, o)])).Perm (gave (h ++ [(a, o)]) ++ s'.outstanding) := by
  rw [took_snoc, gave_snoc, List.append_assoc]
  refine (hledger.append_right _).trans ?_
  rw [List.append_assoc]
  exact hbooked.perm.append_left _

/-- A step of call `n` is a step of its ledger only. -/
theorem callLedger_set {h : List (ActivityAct × ActObs)} {a : ActivityAct} {n : ℕ} {pc' : CallPc}
    (hs : Accounted h s) (hmover : mover a = some n) (hcalls : s'.calls = s.calls.set n pc')
    (hown : ¬ Settled pc' → (took (stepsOf n h) ++ o.took).Perm
      (gave (stepsOf n h) ++ o.gave ++ callOwns pc')) :
    ∀ (m : ℕ) (q : CallPc), s'.calls[m]? = some q → ¬ Settled q →
      (took (stepsOf m (h ++ [(a, o)]))).Perm (gave (stepsOf m (h ++ [(a, o)])) ++ callOwns q) := by
  intro m q hq hopen
  rw [hcalls] at hq
  rw [stepsOf_snoc, hmover]
  rcases getElem?_set_cases hq with ⟨rfl, rfl⟩ | ⟨hne, hold⟩
  · rw [if_pos rfl, took_snoc, gave_snoc]
    exact hown hopen
  · have hother : ¬ some n = some m := fun heq => hne (Option.some.inj heq).symm
    rw [if_neg hother]
    exact hs.callLedger m q hold hopen

/-- The calls' ledgers, after a step. -/
theorem callLedger_step {h : List (ActivityAct × ActObs)} {a : ActivityAct} (hs : Accounted h s)
    (htransfer : Transfer s a o s') :
    (∀ n, s'.calls.length ≤ n → stepsOf n (h ++ [(a, o)]) = []) ∧
    ∀ (m : ℕ) (q : CallPc), s'.calls[m]? = some q → ¬ Settled q →
      (took (stepsOf m (h ++ [(a, o)]))).Perm (gave (stepsOf m (h ++ [(a, o)])) ++ callOwns q) := by
  cases htransfer with
  | starts pc hmover hcalls hnothing hsame htook hgave =>
    refine ⟨fun n hn => ?_, fun m q hq hopen => ?_⟩
    · rw [hcalls, List.length_append] at hn
      rw [stepsOf_snoc, hmover, if_neg (by simp)]
      exact hs.unstarted n (by omega)
    · rw [hcalls] at hq
      rw [stepsOf_snoc, hmover, if_neg (by simp)]
      rcases getElem?_snoc_cases hq with ⟨rfl, rfl⟩ | hold
      · rw [hs.unstarted _ le_rfl, hnothing]
        exact List.Perm.refl _
      · exact hs.callLedger m q hold hopen
  | call n pc pc' hmover hpc hcalls howns hsame hsettled hfails =>
    have hn : n < s.calls.length := (List.getElem?_eq_some_iff.mp hpc).1
    refine ⟨fun m hm => ?_, callLedger_set hs hmover hcalls fun hopen => ?_⟩
    · rw [hcalls, List.length_set] at hm
      rw [stepsOf_snoc, hmover, if_neg (by simp; omega)]
      exact hs.unstarted m hm
    · have hopen' : ¬ Settled pc := fun hset => hopen (hsettled hset)
      refine ((hs.callLedger n pc hpc hopen').append_right _).trans ?_
      rw [List.append_assoc, List.append_assoc]
      exact howns.append_left _
  | enqueues n pc pc' msg hmover hpc hcalls howns hgave hnothing hsettled hmsgs hitems =>
    have hn : n < s.calls.length := (List.getElem?_eq_some_iff.mp hpc).1
    refine ⟨fun m hm => ?_, callLedger_set hs hmover hcalls fun hopen => absurd hsettled hopen⟩
    rw [hcalls, List.length_set] at hm
    rw [stepsOf_snoc, hmover, if_neg (by simp; omega)]
    exact hs.unstarted m hm
  | handles msg hmover hcalls | moves hmover hcalls =>
    refine ⟨fun n hn => ?_, fun m q hq hopen => ?_⟩
    · rw [hcalls] at hn
      rw [stepsOf_snoc, hmover, if_neg (by simp)]
      exact hs.unstarted n hn
    · rw [hcalls] at hq
      rw [stepsOf_snoc, hmover, if_neg (by simp)]
      exact hs.callLedger m q hq hopen

/-- The accounts of every run are in order. -/
theorem accounted_of_run {h : List (ActivityAct × ActObs)}
    (hrun : (activityMachine handler).Run plainMsgs activityStart h s) : Accounted h s := by
  refine hrun.invariant Accounted ⟨living_start, owned_start, by simp, List.Perm.refl _,
    fun _ _ => rfl, fun n pc hpc => by cases hpc⟩ ?_
  intro h s a o s' hs hguard hstep
  have hmove := actMove_of_step hstep
  have haccounts := accounts_step hmove hs.living hs.owned hguard
  obtain ⟨hunstarted, hcalls⟩ := callLedger_step hs haccounts.transfer
  refine ⟨living_step hs.living hguard hmove, haccounts.owned hs.owned, fun e he => ?_,
    ledger_step haccounts.booked hs.ledger, hunstarted, hcalls⟩
  rcases List.mem_append.mp he with hold | hlast
  · exact hs.faultless e hold
  · rw [List.mem_singleton.mp hlast]
    exact haccounts.booked.fault

/-- What is given back is given back by its owner. -/
theorem Transfer.released {a : ActivityAct} (h : Transfer s a o s') : ReleasedByOwner s a o s' := by
  cases h with
  | starts pc hmover hcalls hnothing hsame htook hgave => exact .inl hgave
  | call n pc pc' hmover hpc hcalls howns hsame hsettled hfails =>
    by_cases hgave : o.gave = []
    · exact .inl hgave
    · obtain ⟨hfail, htook⟩ := hfails hgave
      rw [htook, List.append_nil] at howns
      exact .inr (.inr ⟨n, pc, pc', hmover, hpc, hcalls,
        fun x hx => howns.mem_iff.mpr (List.mem_append_left _ hx), hfail⟩)
  | enqueues n pc pc' msg hmover hpc hcalls howns hgave => exact .inl hgave
  | handles msg hmover hcalls hmsgs hitems htook hgave hhandled =>
    exact .inr (.inl ⟨msg, by rw [hmsgs]; exact List.mem_cons_self, hhandled, hgave⟩)
  | moves hmover hcalls hsame htook hgave => exact .inl hgave

end Ctools.Analysis

open Ctools.Library Ctools.Program Ctools.Interface Ctools.Analysis in
/-- **Resources are accounted for.**  Whatever calls clients make, however they
interleave with the workers and whichever allocations fail: what is outstanding has
exactly one owner each, a message on its way or a call in progress; nothing is
released twice or used after its release; all that was handed out was given back
once or is outstanding; a call that returned an error gave back all it took; and
only the handling of a message or its failing call releases what it owns.
SOURCE: activity.c:42-149, activity.c:307-393 -/
theorem Ctools.Analysis.activity_resources_accounted (handler : Bool)
    (h : List (ActivityAct × ActObs)) (s : ActivityWorld)
    (hrun : (activityMachine handler).Run clientMsgs activityStart h s) :
    s.outstanding.Nodup ∧ s.outstanding.Perm (owners s) ∧ (∀ e ∈ h, e.2.fault = false) ∧
      (took h).Perm (gave h ++ s.outstanding) ∧
      (∀ (n : ℕ) (rc : ℤ), s.calls[n]? = some (.returned rc) → rc ≠ 0 →
        (took (stepsOf n h)).Perm (gave (stepsOf n h))) ∧
      ∀ a o s', clientMsgs s a → activityStep handler s a = some (o, s') →
        ReleasedByOwner s a o s' := by
  have hs := accounted_of_run (hrun.weaken plainMsgs_of_clientMsgs)
  refine ⟨hs.owned.nodup, hs.owned.perm, hs.faultless, hs.ledger, fun n rc hpc hrc => ?_,
    fun a o s' hguard hstep => ?_⟩
  · have hcall := hs.callLedger n _ hpc hrc
    have hnothing : callOwns (.returned rc) = [] := rfl
    rwa [hnothing, List.append_nil] at hcall
  · have hmove := actMove_of_step hstep
    have hplain := plainMsgs_of_clientMsgs s a hguard
    exact (accounts_step hmove hs.living hs.owned hplain).transfer.released

open Ctools.Library Ctools.Program Ctools.Interface Ctools.Analysis in
/-- The theorem at a run in which a message with a copied argument is queued, one
call of `activity_exec` gets no copy and another one no element. -/
theorem Ctools.Analysis.activity_resources_accounted_unwound :
    ∃ h s, (activityMachine true).Run clientMsgs activityStart h s ∧
      s.outstanding = [.msg 0, .copy 3] ∧ s.outstanding.Perm (owners s) ∧
      s.calls = [.returned 0, .returned 0, .returned (-ENOMEM), .returned (-ENOMEM)] ∧
      (took (stepsOf 3 h)).Perm (gave (stepsOf 3 h)) := by
  have hrun := Machine.run_of_execUnder (m := activityMachine true) clientMsgs activityStart
    [.call .run, .run 0 0, .run 0 0, .run 0 0, .run 0 0, .run 0 0, .run 0 0,
      .call (.send ⟨50, 7, 4, 0⟩), .alloc 1 (some 3), .locked 1 (some 0),
      .call (.exec ⟨9, 3, 4, 0⟩), .call (.exec ⟨9, 3, 4, 0⟩),
      .alloc 2 (some 0), .alloc 2 none, .alloc 3 (some 1), .alloc 3 (some 5), .locked 3 none,
      .free 2, .free 3, .free 3] rfl
  have haccounted := activity_resources_accounted true _ _ hrun
  exact ⟨_, _, hrun, rfl, haccounted.2.1, rfl, haccounted.2.2.2.2.1 3 (-ENOMEM) rfl (by decide)⟩
