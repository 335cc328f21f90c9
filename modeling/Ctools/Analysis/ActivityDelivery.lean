import Ctools.Analysis.ActivityOwners
import Ctools.Interface.DeliverySpec

/-!
# Every accepted call is served with what it asked for

A call fills its exec item in before it sends it (`Fills`), and nobody writes to the item
of a message on its way, since the message owns it (`items_kept`).  So what handling a
message will call is settled when the message is accepted (`handlerCall_kept`), and a step
takes from the front what it calls and puts at the end what it is asked for
(`delivery_step`).
-/

set_option autoImplicit false

namespace Ctools.Analysis

open Ctools.Library Ctools.Program Ctools.Interface

variable {handler : Bool} {s s' : ActivityWorld} {o : ActObs}

/-- What is to be called for the client's messages on their way. -/
def pending (handler : Bool) (s : ActivityWorld) : List (Option HandlerCall) :=
  (pipeline s).map (handlerCall handler s.items)

/-! ## The exec items -/

/-- The exec item of a call is filled in as the call asks. -/
def Fills (items : ℕ → ActMsgExecItem) : CallPc → Prop
  | .execCopy a i => items i = ⟨a.func, .user a.arg, 0⟩
  | .execLock a i newArg =>
      (items i).func = a.func ∧ (items i).arg = if a.argSize ≠ 0 then newArg else .user a.arg
  | _ => True

/-- The calls of a world have filled their exec items in. -/
def Filled (s : ActivityWorld) : Prop :=
  ∀ (n : ℕ) (pc : CallPc), s.calls[n]? = some pc → Fills s.items pc

/-- The other calls do not see what is written to an item that they do not hold. -/
theorem Filled.update (h : Filled s) {n i : ℕ} (hi : Unshared s n i) (item : ActMsgExecItem)
    {m : ℕ} {q : CallPc} (hne : m ≠ n) (hq : s.calls[m]? = some q) :
    Fills (Function.update s.items i item) q := by
  have hold := h m q hq
  have hother := hi.2 m q hne hq
  cases q with
  | execCopy a j =>
    have hji : j ≠ i := by rintro rfl; simp [callOwns] at hother
    simpa only [Fills, Function.update_of_ne hji] using hold
  | execLock a j newArg =>
    have hji : j ≠ i := by rintro rfl; simp [callOwns] at hother
    simpa only [Fills, Function.update_of_ne hji] using hold
  | _ => trivial

/-- A call moves, and the items of the other calls stay filled in. -/
theorem filled_call {n : ℕ} {pc' : CallPc} (hcalls : s'.calls = s.calls.set n pc')
    (hothers : ∀ (m : ℕ) (q : CallPc), m ≠ n → s.calls[m]? = some q → Fills s'.items q)
    (hpc' : Fills s'.items pc') : Filled s' := by
  intro m q hq
  rw [hcalls] at hq
  rcases getElem?_set_cases hq with ⟨-, rfl⟩ | ⟨hne, hold⟩
  · exact hpc'
  · exact hothers m q hne hold

/-- A call moves and writes to no item. -/
theorem Filled.quiet (h : Filled s) {n : ℕ} {pc' : CallPc}
    (hcalls : s'.calls = s.calls.set n pc') (hpc' : Fills s.items pc')
    (hitems : s'.items = s.items := by rfl) : Filled s' :=
  filled_call hcalls (fun m q _ hq => hitems ▸ h m q hq) (hitems ▸ hpc')

/-- A call starts. -/
theorem Filled.start (h : Filled s) {pc : CallPc} (hpc : Fills s.items pc) :
    Filled { s with calls := s.calls ++ [pc] } := by
  intro m q hq
  rcases getElem?_snoc_cases hq with ⟨-, rfl⟩ | hold
  · exact hpc
  · exact h m q hold

/-- No call has an item at the start. -/
theorem filled_start : Filled activityStart := fun n pc hpc => by cases hpc

/-- Every step keeps the items filled in. -/
theorem filled_step {a : ActivityAct} (hmove : ActMove handler s a o s') (howned : Owned s)
    (hshape : CallShapes s) (h : Filled s) : Filled s' := by
  cases hmove with
  | refuse c rc hrc => exact h.start trivial
  | enter c pc hpc => exact h.start (by cases hpc <;> trivial)
  | execItem n a i hpc hfresh =>
    refine filled_call rfl (fun _ _ => h.update (howned.unshared_of_fresh hfresh n) _) ?_
    split
    · exact Function.update_self ..
    · rename_i hsize
      simp [Fills, hsize, ActivityWorld.setCall]
  | execNoCopy n a i hpc =>
    have hi := howned.unshared_of_owned (i := i) hpc (by simp [callOwns])
    exact filled_call rfl (fun _ _ => h.update hi _) trivial
  | execCopy n a i c hpc hfresh =>
    have hi := howned.unshared_of_owned (i := i) hpc (by simp [callOwns])
    refine filled_call rfl (fun _ _ => h.update hi _) ?_
    have hitem : s.items i = ⟨a.func, .user a.arg, 0⟩ := h n _ hpc
    have hsize : a.argSize ≠ 0 := hshape n _ hpc
    simp [Fills, hitem, hsize, ActivityWorld.setCall]
  | sendRefusedFree | freeItem | freeArg =>
    rw [giveBack_snd]
    exact h.quiet rfl trivial
  | handle =>
    rw [handleMsg_snd]
    exact h
  | execRefused n a i newArg rc elem hpc hrc =>
    refine h.quiet rfl ?_
    split <;> trivial
  | stopAccepted n waitFinish e hpc hstate hfresh =>
    refine h.quiet rfl ?_
    split <;> trivial
  | workerStart | drained | dequeue | workerEnd | pollBack | pollCall => exact h
  | _ => exact h.quiet rfl trivial

/-- Nobody writes to the item of a message on its way. -/
theorem items_kept {a : ActivityAct} (hmove : ActMove handler s a o s') (howned : Owned s) {i : ℕ}
    (hi : Obj.item i ∈ (messages s).flatMap (msgOwns s.items)) : s'.items i = s.items i := by
  have hkeep {n j : ℕ} (hj : Unshared s n j) (item : ActMsgExecItem) :
      Function.update s.items j item i = s.items i :=
    Function.update_of_ne (by rintro rfl; exact hj.1 hi) _ _
  cases hmove with
  | execItem n a j hpc hfresh => exact hkeep (howned.unshared_of_fresh hfresh n) _
  | execNoCopy n a j hpc => exact hkeep (howned.unshared_of_owned hpc (by simp [callOwns])) _
  | execCopy n a j c hpc hfresh =>
    exact hkeep (howned.unshared_of_owned hpc (by simp [callOwns])) _
  | sendRefusedFree | freeItem | freeArg => rw [giveBack_snd]; rfl
  | handle => rw [handleMsg_snd]; rfl
  | _ => rfl

/-! ## What is called -/

/-- What is called for an exec message is what is in its item. -/
theorem handlerCall_exec (items : ℕ → ActMsgExecItem) (i e : ℕ) :
    handlerCall handler items (execMsg i e) = some (.exec (items i).func (items i).arg) := rfl

/-- Of another message only itself counts. -/
theorem handlerCall_plain (items items' : ℕ → ActMsgExecItem) {msg : ActMsg}
    (hexec : msg.type.toUInt32.toInt32 ≠ ACTIVITY_MSG_EXEC) :
    handlerCall handler items msg = handlerCall handler items' msg := by
  simp only [handlerCall, if_neg hexec]

/-- What is to be called for a message on its way stays. -/
theorem handlerCall_kept {a : ActivityAct} (hmove : ActMove handler s a o s') (howned : Owned s)
    {msg : ActMsg} (hmsg : msg ∈ messages s) :
    handlerCall handler s'.items msg = handlerCall handler s.items msg := by
  have howns : ∀ x ∈ msgOwns s.items msg, x ∈ (messages s).flatMap (msgOwns s.items) :=
    fun x hx => List.mem_flatMap.mpr ⟨msg, hmsg, hx⟩
  cases howned.msgs msg hmsg with
  | stop e =>
    have hstop : (1 : UInt16).toUInt32.toInt32 ≠ ACTIVITY_MSG_EXEC := by decide
    exact handlerCall_plain _ _ hstop
  | exec i e hitem =>
    have hitem : Obj.item i ∈ msgOwns s.items (execMsg i e) := by simp [msgOwns_execMsg]
    rw [handlerCall_exec, handlerCall_exec, items_kept hmove howned (howns _ hitem)]
  | send a arg e hrange harg => exact handlerCall_plain _ _ (sendMsg_not_exec hrange arg e)

/-- A step calls what the message it handles is for. -/
theorem called_eq {a : ActivityAct} (hmove : ActMove handler s a o s') {msg : ActMsg}
    (hhandled : o.handled = some msg) :
    o.called = handlerCall handler s.items msg ∧ msg ∈ messages s := by
  cases hmove with
  | handle w msg' hpc =>
    rw [handleMsg_fst] at hhandled ⊢
    cases hhandled
    refine ⟨rfl, List.mem_append_left _ (List.mem_flatMap.mpr ⟨_, List.mem_of_getElem? hpc, ?_⟩)⟩
    exact List.mem_singleton_self _
  | sendRefusedFree | freeItem | freeArg =>
    rw [giveBack_fst] at hhandled
    cases hhandled
  | _ => cases hhandled

/-- A call that is accepted has its message enqueued, which asks for what the call asks for. -/
theorem serves_step {a : ActivityAct} (hmove : ActMove handler s a o s') (hshape : CallShapes s)
    (h : Filled s) :
    List.Forall₂ (Serves handler) (acceptsCall o)
      ((accepts o).map (handlerCall handler s'.items)) := by
  have hrefused {c : ActivityCall} {rc : ℤ} (hret : o.ret = some (c, rc)) (hrc : rc ≠ 0) :
      List.Forall₂ (Serves handler) (acceptsCall o)
        ((accepts o).map (handlerCall handler s'.items)) := by
    rw [accepts_of_error hret hrc, acceptsCall, hret]
    cases c <;> simp [hrc]
  cases hmove with
  | refuse c rc hrc => exact hrefused rfl hrc
  | sendNoCopy | execNoItem => exact hrefused rfl (by decide)
  | sendRefused n a arg rc elem hpc hrc hsize => exact hrefused rfl hrc
  | sendRefusedFree n a arg rc elem hpc hrc hsize =>
    rw [giveBack_fst] at hrefused ⊢
    exact hrefused rfl hrc
  | freeItem n a i rc hpc =>
    rw [giveBack_fst] at hrefused ⊢
    exact hrefused rfl (hshape n _ hpc)
  | freeArg | handle =>
    first | rw [giveBack_fst] | rw [handleMsg_fst]
    exact .nil
  | sendAccepted n a arg e hpc hstate hfresh =>
    obtain ⟨hrange, harg⟩ := hshape n _ hpc
    refine .cons ?_ .nil
    have htype := type_of_isPlain hrange arg e
    rw [handlerCall, htype, if_neg hrange.2.2.1, if_neg hrange.2.2.2]
    split
    · rename_i hgeneral
      exact ⟨hgeneral.2, htype, harg⟩
    · rename_i hnot
      rw [not_and_or] at hnot
      exact hnot.symm.imp (by simp) id
  | execAccepted n a i newArg e hpc hstate hfresh =>
    refine .cons ?_ .nil
    obtain ⟨hfunc, harg⟩ := h n _ hpc
    have hcarries := hshape n _ hpc
    refine ⟨hfunc, ?_⟩
    show HandsOn a.argSize a.arg (s.items i).arg
    rw [harg, HandsOn]
    simp only [CallShape] at hcarries
    split
    · rename_i hsize
      rwa [if_pos hsize] at hcarries
    · rfl
  | stopAccepted n waitFinish e hpc hstate hfresh =>
    cases waitFinish <;> exact .nil
  | _ => exact .nil

/-- **A step of an activity** takes from the front what it calls, and puts at the end what
it is asked for. -/
theorem delivery_step {a : ActivityAct} (hmove : ActMove handler s a o s') (hliving : Living s)
    (howned : Owned s) (hfilled : Filled s) :
    ∃ asked, List.Forall₂ (Serves handler) (acceptsCall o) asked ∧
      pending handler s ++ asked = delivers o ++ pending handler s' := by
  refine ⟨_, serves_step hmove hliving.shape hfilled, ?_⟩
  have hsame : pending handler s = (pipeline s).map (handlerCall handler s'.items) := by
    refine List.map_congr_left fun msg hmsg => (handlerCall_kept hmove howned ?_).symm
    rw [pipeline, ← List.filter_append] at hmsg
    exact (List.mem_filter.mp hmsg).1
  have hcalled : delivers o = (handles o).map (handlerCall handler s'.items) := by
    refine List.map_congr_left fun msg hmsg => ?_
    have hhandled : o.handled = some msg := by
      simpa using (List.mem_filter.mp hmsg).1
    obtain ⟨hcall, hmem⟩ := called_eq hmove hhandled
    rw [hcall, handlerCall_kept hmove howned hmem]
  rw [hsame, hcalled, ← List.map_append, pipeline_step hmove hliving.shape hliving.life,
    List.map_append]
  rfl

end Ctools.Analysis
