import Ctools.Program.Event

/-!
# Flag words bit by bit

`bitSet` reads one bit of an event's value, and the test of both waiting loops
is a statement about bits: all bits of the set, or some bit of it.  So a test
that holds still holds with more bits (`eventMatch_mono`): a post cannot make
it fail, and a consumer cannot make it hold.
-/

set_option autoImplicit false

namespace Ctools.Analysis

open Ctools.Program

/-- Bit `b` of a word of flags. -/
def bitSet (value : UInt32) (b : ℕ) : Bool := value.toBitVec.getLsbD b

/-- No bit of 0 is set. -/
@[simp] theorem bitSet_zero (b : ℕ) : bitSet 0 b = false := by
  simp [bitSet]

/-- The bits of a disjunction. -/
@[simp] theorem bitSet_or (v w : UInt32) (b : ℕ) :
    bitSet (v ||| w) b = (bitSet v b || bitSet w b) := by
  simp [bitSet]

/-- The bits of a conjunction. -/
@[simp] theorem bitSet_and (v w : UInt32) (b : ℕ) :
    bitSet (v &&& w) b = (bitSet v b && bitSet w b) := by
  simp [bitSet]

/-- Clearing a set clears exactly its bits. -/
@[simp high] theorem bitSet_clear (v w : UInt32) (b : ℕ) :
    bitSet (v &&& ~~~w) b = (bitSet v b && !bitSet w b) := by
  by_cases hb : b < 32
  · simp [bitSet, hb]
  · have hv : v.toBitVec.getLsbD b = false := BitVec.getLsbD_of_ge _ _ (by omega)
    simp [bitSet, hv]

/-- Words with the same bits are equal. -/
theorem eq_of_bitSet {v w : UInt32} (h : ∀ b, bitSet v b = bitSet w b) : v = w :=
  UInt32.toBitVec_inj.mp (BitVec.eq_of_getLsbD_eq fun b _ => h b)

/-- All flags of `w` are set. -/
theorem and_eq_right_iff (v w : UInt32) :
    v &&& w = w ↔ ∀ b, bitSet w b = true → bitSet v b = true := by
  constructor
  · intro h b hb
    rw [← h] at hb
    simp at hb
    exact hb.1
  · intro h
    refine eq_of_bitSet fun b => ?_
    rw [bitSet_and]
    cases hb : bitSet w b with
    | false => simp
    | true => simp [h b hb]

/-- Some flag of `w` is set. -/
theorem and_ne_zero_iff (v w : UInt32) :
    v &&& w ≠ 0 ↔ ∃ b, bitSet v b = true ∧ bitSet w b = true := by
  constructor
  · intro h
    by_contra hnone
    refine h (eq_of_bitSet fun b => ?_)
    rw [bitSet_and, bitSet_zero, Bool.and_eq_false_imp]
    intro hv
    exact Bool.eq_false_iff.mpr fun hw => hnone ⟨b, hv, hw⟩
  · rintro ⟨b, hv, hw⟩ h
    have hzero : bitSet (v &&& w) b = false := by rw [h, bitSet_zero]
    rw [bitSet_and, hv, hw] at hzero
    cases hzero

/-- More bits keep the test of a loop true.
SOURCE: event1.c:55-66, event1.c:102-111 -/
theorem eventMatch_mono {v w set : UInt32} {option : UInt8}
    (hbits : ∀ b, bitSet v b = true → bitSet w b = true) (h : eventMatch v set option = true) :
    eventMatch w set option = true := by
  unfold eventMatch at h ⊢
  split
  · rename_i hand
    rw [if_pos hand, decide_eq_true_eq, and_eq_right_iff] at h
    rw [decide_eq_true_eq, and_eq_right_iff]
    exact fun b hb => hbits b (h b hb)
  · rename_i hand
    rw [if_neg hand] at h
    split
    · rename_i hor
      rw [if_pos hor, decide_eq_true_eq, and_ne_zero_iff] at h
      obtain ⟨b, hv, hset⟩ := h
      rw [decide_eq_true_eq, and_ne_zero_iff]
      exact ⟨b, hbits b hv, hset⟩
    · rename_i hor
      rw [if_neg hor] at h
      exact h

/-- A post cannot make the test fail. -/
theorem eventMatch_post {v set : UInt32} {option : UInt8} (posted : UInt32)
    (h : eventMatch v set option = true) : eventMatch (v ||| posted) set option = true :=
  eventMatch_mono (fun b hb => by simp [hb]) h

/-- The tail of a wait cannot make the test hold. -/
theorem eventMatch_of_valueAfter {v set : UInt32} {option : UInt8} {frame : WaitFrame}
    (h : eventMatch (valueAfter v frame) set option = true) : eventMatch v set option = true := by
  unfold valueAfter at h
  split at h
  · refine eventMatch_mono (fun b hb => ?_) h
    rw [bitSet_clear, Bool.and_eq_true] at hb
    exact hb.1
  · exact h

/-- Exactly one of `EVENT_FLAG_AND` and `EVENT_FLAG_OR`. -/
def exactlyOne (option : UInt8) : Bool :=
  (option &&& EVENT_FLAG_AND ≠ 0) != (option &&& EVENT_FLAG_OR ≠ 0)

/-- What a wait reports when its condition holds: `set` with `EVENT_FLAG_AND`,
and something of `set` with `EVENT_FLAG_OR`. -/
def Reports (call : WaitCall) (recved : UInt32) : Prop :=
  (call.option &&& EVENT_FLAG_AND ≠ 0 → recved = call.set) ∧
    (call.option &&& EVENT_FLAG_OR ≠ 0 → recved ≠ 0)

/-- With exactly one of the two flags, the test says what is reported. -/
theorem reports_of_eventMatch {v : UInt32} {call : WaitCall} (hone : exactlyOne call.option = true)
    (h : eventMatch v call.set call.option = true) : Reports call (v &&& call.set) := by
  unfold exactlyOne at hone
  unfold eventMatch at h
  constructor
  · intro hand
    rw [if_pos hand, decide_eq_true_eq] at h
    exact h
  · intro hor
    have hnot : ¬ call.option &&& EVENT_FLAG_AND ≠ 0 := by
      intro hand
      simp [hand, hor] at hone
    rw [if_neg hnot, if_pos hor, decide_eq_true_eq] at h
    exact h

end Ctools.Analysis
