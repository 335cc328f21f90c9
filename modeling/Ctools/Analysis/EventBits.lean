import Ctools.Analysis.EventMoves
import Ctools.Analysis.EventFlags

/-!
# Every event bit is raised and consumed in turn

In any run of `event1.c` a bit leaves `e->value` only at the tail of a wait
that was called with `EVENT_FLAG_CLEAR`, asked for the bit and reports it, so
the raises of a bit (posts that turn it from 0 to 1) and its consumptions
(reports of the bit by such waits) alternate, starting with a raise.

The invariant is `BitAccount`: the bit is set exactly when the last of its
events is a raise.  One step keeps it because `bitStep` says what one step does
to one bit.
-/

set_option autoImplicit false

namespace Ctools.Analysis

open Ctools.Library Ctools.Program

variable {T : Type}

/-- Called with `EVENT_FLAG_CLEAR`. -/
def clears (call : WaitCall) : Bool := call.option &&& EVENT_FLAG_CLEAR ≠ 0

/-- A wait that matched and clears takes its flags, and leaves the others. -/
theorem valueAfter_eq (value : UInt32) (frame : WaitFrame) :
    valueAfter value frame =
      if frame.matched && clears frame.call then value &&& ~~~frame.call.set else value := rfl

/-- What a return can mean for one bit. -/
inductive BitEvent where
  | raise
  | consume
deriving DecidableEq

/-- The event of bit `b` in a step: a post that turns it from 0 to 1, or a wait
with `EVENT_FLAG_CLEAR` that returns 0 and reports it. -/
def bitEvent (b : ℕ) (o : EventObs T) : Option BitEvent :=
  match o.ret with
  | some ⟨_, .post _, _, _⟩ => if !bitSet o.before b && bitSet o.after b then some .raise else none
  | some ⟨_, .wait call, rc, some recved⟩ =>
      if rc = 0 ∧ clears call ∧ bitSet recved b then some .consume else none
  | _ => none

/-- The events of bit `b` in a history, in order. -/
def bitEvents (b : ℕ) (h : List (EventAct T × EventObs T)) : List BitEvent :=
  h.filterMap fun e => bitEvent b e.2

/-- The last step comes last. -/
theorem bitEvents_snoc (b : ℕ) (h : List (EventAct T × EventObs T)) (a : EventAct T)
    (o : EventObs T) : bitEvents b (h ++ [(a, o)]) = bitEvents b h ++ (bitEvent b o).toList := by
  cases ho : bitEvent b o <;> simp [bitEvents, List.filterMap_append, ho]

/-- The events of a bit and whether it is set: raise and consume alternate,
from a raise on, and the bit is set while the last event is a raise. -/
inductive BitAccount : List BitEvent → Bool → Prop
  | start : BitAccount [] false
  | raise {l : List BitEvent} (before : BitAccount l false) : BitAccount (l ++ [.raise]) true
  | consume {l : List BitEvent} (before : BitAccount l true) : BitAccount (l ++ [.consume]) false

/-- The last event of a bit, if any, is a raise exactly while it is set. -/
theorem BitAccount.getLast {l : List BitEvent} {set : Bool} (h : BitAccount l set) :
    (.consume :: l).getLast? = some (if set then BitEvent.raise else .consume) := by
  cases h with
  | start => rfl
  | raise before => rw [← List.cons_append, List.getLast?_append]; rfl
  | consume before => rw [← List.cons_append, List.getLast?_append]; rfl

/-- An event other than the last one keeps the events alternating. -/
theorem BitAccount.alternates_concat {l : List BitEvent} {set : Bool} (before : BitAccount l set)
    (hchain : (.consume :: l).IsChain (· ≠ ·)) {e : BitEvent}
    (hne : (if set then BitEvent.raise else .consume) ≠ e) :
    (.consume :: (l ++ [e])).IsChain (· ≠ ·) := by
  rw [← List.cons_append]
  refine hchain.append (.singleton _) ?_
  intro last hlast e' he'
  rw [before.getLast] at hlast
  cases hlast
  cases he'
  exact hne

/-- The first event of a bit is a raise, and no two in a row are the same. -/
theorem BitAccount.alternates {l : List BitEvent} {set : Bool} (h : BitAccount l set) :
    (.consume :: l).IsChain (· ≠ ·) := by
  induction h with
  | start => exact .singleton _
  | raise before ih => exact before.alternates_concat ih BitEvent.noConfusion
  | consume before ih => exact before.alternates_concat ih BitEvent.noConfusion

/-- One more raise than consumptions while the bit is set, else as many. -/
theorem BitAccount.count {l : List BitEvent} {set : Bool} (h : BitAccount l set) :
    l.count .raise = l.count .consume + set.toNat := by
  induction h with
  | start => rfl
  | raise before ih => simp [ih]
  | consume before ih => simp [ih]

variable [DecidableEq T]

/-- **One step on one bit.**  Either the bit keeps its value and has no event,
or a post raises it, or a wait with `EVENT_FLAG_CLEAR` that asked for the bit
consumes it and reports it.
SOURCE: event1.c:33-127 -/
theorem bit_step {s s' : EventState T} {a : EventAct T} {o : EventObs T}
    (hmove : EventMove s a o s') (b : ℕ) :
    (bitSet s'.value b = bitSet s.value b ∧ bitEvent b o = none) ∨
      (bitSet s.value b = false ∧ bitSet s'.value b = true ∧ bitEvent b o = some .raise) ∨
      (bitSet s.value b = true ∧ bitSet s'.value b = false ∧ bitEvent b o = some .consume ∧
        ∃ t call recved, o.ret = some ⟨t, .wait call, 0, some recved⟩ ∧ clears call = true ∧
          bitSet call.set b = true ∧ bitSet recved b = true) := by
  obtain ⟨hbefore, hafter, hcase⟩ := value_step hmove
  rcases hcase with ⟨t, set, -, hret, hval⟩ | ⟨t, frame, -, -, hret, hval⟩ | ⟨hval, hret⟩
  · -- a post
    rw [hval]
    simp only [bitEvent, hret, hbefore, hafter, hval, bitSet_or]
    cases bitSet s.value b <;> cases bitSet set b <;> simp
  · -- the tail of a wait, which takes the whole set, and reports what was there
    rw [hval, valueAfter_eq]
    cases hmatched : frame.matched with
    | false => simp [bitEvent, hret, waitResult, hmatched, ETIMEDOUT]
    | true =>
      cases hclears : clears frame.call with
      | false => simp [bitEvent, hret, waitResult, hmatched, hclears]
      | true =>
        cases hset : bitSet frame.call.set b with
        | false => simp [bitEvent, hret, waitResult, hmatched, hset]
        | true =>
          cases hbit : bitSet s.value b with
          | false => simp [bitEvent, hret, waitResult, hmatched, hbit, hset]
          | true =>
            refine .inr (.inr ⟨rfl, by simp [hset], ?_, t, frame.call,
              s.value &&& frame.call.set, ?_, hclears, hset, by simp [hbit, hset]⟩)
            · simp [bitEvent, hret, waitResult, hmatched, hclears, hset, hbit]
            · rw [hret]; simp [waitResult, hmatched]
  · -- no other step touches the value, and none returns 0
    refine .inl ⟨by rw [hval], ?_⟩
    have hsame : o.after = o.before := by rw [hafter, hval, hbefore]
    unfold bitEvent
    split
    · simp [hsame]
    · rename_i t call rc recved hr
      have hrc : rc ≠ 0 := hret _ hr
      simp [hrc]
    · rfl

/-- The events of a bit account for its value after every run from value 0. -/
theorem bitAccount_run {h : List (EventAct T × EventObs T)} {s : EventState T}
    (hrun : (eventMachine T).Run Machine.anyStep (eventStart 0) h s) (b : ℕ) :
    BitAccount (bitEvents b h) (bitSet s.value b) := by
  refine Machine.Run.invariant (fun h s => BitAccount (bitEvents b h) (bitSet s.value b))
    (by simpa [eventStart, bitEvents] using BitAccount.start) ?_ hrun
  intro h s a o s' hacc _ hstep
  rw [bitEvents_snoc]
  rcases bit_step (eventMove_of_step hstep) b with
    ⟨hsame, hev⟩ | ⟨hclear, hset, hev⟩ | ⟨hset, hclear, hev, -⟩
  · simpa [hev, hsame] using hacc
  · rw [hclear] at hacc
    simpa [hev, hset] using hacc.raise
  · rw [hset] at hacc
    simpa [hev, hclear] using hacc.consume

/-- What every step of a run does to a bit: if the bit leaves, a wait called
with `EVENT_FLAG_CLEAR` for it returns 0 and reports it; no wait changes a bit
it did not ask for; and only a return changes any bit. -/
def TakesOnlyReported (b : ℕ) (o : EventObs T) : Prop :=
  (bitSet o.before b = true → bitSet o.after b = false →
    ∃ t call recved, o.ret = some ⟨t, .wait call, 0, some recved⟩ ∧ clears call = true ∧
      bitSet call.set b = true ∧ bitSet recved b = true) ∧
  (∀ t call rc recved, o.ret = some ⟨t, .wait call, rc, recved⟩ → bitSet call.set b = false →
    bitSet o.after b = bitSet o.before b) ∧
  (o.ret = none → o.after = o.before)

/-- **A step** takes only bits that it reports. -/
theorem takesOnlyReported_step {s s' : EventState T} {a : EventAct T} {o : EventObs T}
    (hmove : EventMove s a o s') (b : ℕ) : TakesOnlyReported b o := by
  obtain ⟨hbefore, hafter, hcase⟩ := value_step hmove
  refine ⟨?_, ?_, ?_⟩
  · intro hset hclear
    rw [hbefore] at hset
    rw [hafter] at hclear
    rcases bit_step hmove b with ⟨hsame, -⟩ | ⟨hold, -⟩ | ⟨-, -, -, hreported⟩
    · simp [hset, hclear] at hsame
    · simp [hset] at hold
    · exact hreported
  · intro t call rc recved hret hnot
    rw [hbefore, hafter]
    rcases hcase with ⟨u, set, -, hr, -⟩ | ⟨u, frame, -, -, hr, hval⟩ | ⟨hval, -⟩
    · simp [hret] at hr
    · have hcall : frame.call = call := by
        simp only [hret, Option.some.injEq, EventRet.mk.injEq, EventCall.wait.injEq] at hr
        exact hr.2.1.symm
      rw [hval, valueAfter_eq]
      split
      · simp [hcall, hnot]
      · rfl
    · rw [hval]
  · intro hret
    rcases hcase with ⟨u, set, -, hr, -⟩ | ⟨u, frame, -, -, hr, -⟩ | ⟨hval, -⟩
    · simp [hret] at hr
    · simp [hret] at hr
    · rw [hbefore, hafter, hval]

end Ctools.Analysis

open Ctools.Library Ctools.Program Ctools.Analysis in
/-- **No event bit is lost or delivered twice.**  In every run from value 0, and
for every bit: it leaves `e->value` only in a wait called with
`EVENT_FLAG_CLEAR` for it, which reports it, and no wait changes a bit outside
its set; its raises and reported consumptions alternate, from a raise on; and it
is set exactly when there was one more raise than consumptions.
SOURCE: event1.c:33-127 -/
theorem Ctools.Analysis.event_bits_conserved {T : Type} [DecidableEq T]
    {h : List (EventAct T × EventObs T)} {s : EventState T}
    (hrun : (eventMachine T).Run Machine.anyStep (eventStart 0) h s) (b : ℕ) :
    (∀ e ∈ h, TakesOnlyReported b e.2) ∧
      (BitEvent.consume :: bitEvents b h).IsChain (· ≠ ·) ∧
      (bitSet s.value b = true ↔
        (bitEvents b h).count .raise = (bitEvents b h).count .consume + 1) ∧
      (bitSet s.value b = false ↔
        (bitEvents b h).count .raise = (bitEvents b h).count .consume) := by
  have hacc := bitAccount_run hrun b
  have hcount := hacc.count
  refine ⟨?_, hacc.alternates, ?_, ?_⟩
  · refine (hrun.invariant_shows (fun _ => True) (TakesOnlyReported b) trivial ?_).2
    intro s a o s' _ _ hstep
    exact ⟨trivial, takesOnlyReported_step (eventMove_of_step hstep) b⟩
  · cases hbit : bitSet s.value b <;> simp [hbit] at hcount ⊢ <;> omega
  · cases hbit : bitSet s.value b <;> simp [hbit] at hcount ⊢ <;> omega

open Ctools.Library Ctools.Program Ctools.Analysis in
/-- The theorem at a run of two threads: a post of bits 0 and 2, and a wait that
takes bit 0 of them. -/
theorem Ctools.Analysis.event_bits_conserved_post_wait :
    ∃ h s, (eventMachine (Fin 2)).Run Machine.anyStep (eventStart 0) h s ∧
      bitEvents 0 h = [.raise, .consume] ∧ bitEvents 2 h = [.raise] ∧ s.value = 4 ∧
      (BitEvent.consume :: bitEvents 0 h).IsChain (· ≠ ·) := by
  have hrun := Machine.run_of_exec (m := eventMachine (Fin 2)) (eventStart 0)
    [.call 1 (.wait ⟨1, EVENT_FLAG_OR ||| EVENT_FLAG_CLEAR, none, true⟩), .lock 1,
      .loop 1 none, .call 0 (.post 5), .lock 0, .post 0, .lock 1, .loop 1 none, .finish 1] rfl
  exact ⟨_, _, hrun, by decide, by decide, by decide, (event_bits_conserved hrun 0).2.1⟩
