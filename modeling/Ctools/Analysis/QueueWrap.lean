import Ctools.Analysis.QueueView

/-!
# When a ring position wraps modulo 2^16

`uint16_t tail = head + num_items` is truncated before it is compared with the
capacity.  As long as the sums of the calls fit (`noWrap`) every position is the
exact one and no byte in the queue is touched (`positions_exact_iff`,
`bytesKept_step`).  Up to a capacity of 32768 they always fit.  Beyond it three
calls lead to a queue whose next append stores over the second byte in it
(`append_overwrites`).
-/

set_option autoImplicit false

namespace Ctools.Analysis

open Ctools.Library Ctools.Program Ctools.Interface

/-- The position, or the wrap test, that a call derives in `uint16_t` is the
exact one. -/
def PositionsExact (queue : Queue) : QueueOp → Prop
  | .clear => (queueClear queue).2.head = 0
  | .append _ =>
      (queueTail queue).toNat = (queue.head.toNat + queue.numItems.toNat) % queue.size.toNat
  | .enqueue arg => (arg.size.toNat : ℤ) ≤ (queue.size.toNat : ℤ) - queue.numItems.toNat →
      (queueTail queue).toNat = (queue.head.toNat + queue.numItems.toNat) % queue.size.toNat
  | .get item => ∀ first after, queueGet queue item = some (true, first, after) →
      after.head.toNat = (queue.head.toNat + 1) % queue.size.toNat
  | .peekConsequent _ | .peekNoncopy => queue.head + queue.numItems > queue.size ↔
      queue.head.toNat + queue.numItems.toNat > queue.size.toNat
  | .release size => (queueRelease queue size).2.head.toNat =
      (queue.head.toNat + min size.toNat queue.numItems.toNat) % queue.size.toNat

/-- Every byte in `queue` lies in `queue'` where it lay. -/
def BytesKept (queue queue' : Queue) : Prop :=
  ∀ i < queue.numItems.toNat, queue'.buff[(queue.head.toNat + i) % queue.size.toNat]? =
    queue.buff[(queue.head.toNat + i) % queue.size.toNat]?

/-- The call stays inside the block and overwrites no byte in the queue. -/
def StaysInside (queue : Queue) (op : QueueOp) : Prop :=
  ∃ o queue', queueStep queue op = some (o, queue') ∧ BytesKept queue queue'

variable {cap : ℕ} {queue queue' : Queue} {f f' : Fifo UInt8 cap}

/-! ## Where the sums fit -/

/-- The tail is exact exactly where `head + num_items` fits. -/
theorem queueTail_exact_iff (hq : QueueHolds queue f) (hcap : 0 < cap) :
    (queueTail queue).toNat = (queue.head.toNat + queue.numItems.toNat) % queue.size.toNat ↔
      queue.head.toNat + queue.numItems.toNat < 2 ^ 16 := by
  have hpos := hq.pos_lt
  have hle := f.items_le
  have hlt := hq.cap_lt
  rw [hq.head_eq, hq.num_eq, hq.size_eq]
  constructor
  · intro htail
    by_contra hwrap
    -- the truncated sum is below the capacity and is taken as it is
    have hsum : (queue.head + queue.numItems).toNat = f.pos + f.items.length - 2 ^ 16 := by
      rw [UInt16.toNat_add, hq.head_eq, hq.num_eq]
      omega
    have hbelow : ¬ queue.head + queue.numItems ≥ queue.size := by
      rw [ge_iff_le, UInt16.le_iff_toNat_le, hsum, hq.size_eq]
      omega
    rw [queueTail, if_neg hbelow, hsum, ← wrap_eq_mod (by omega), wrap] at htail
    split_ifs at htail <;> omega
  · intro hsum
    rw [toNat_queueTail hq hsum, wrap_eq_mod (by omega)]

/-- The wrap test is exact exactly where `head + num_items` fits. -/
theorem wrapTest_exact_iff (hq : QueueHolds queue f) (hcap : 0 < cap) :
    (queue.head + queue.numItems > queue.size ↔
      queue.head.toNat + queue.numItems.toNat > queue.size.toNat) ↔
        queue.head.toNat + queue.numItems.toNat < 2 ^ 16 := by
  have hpos := hq.pos_lt
  have hle := f.items_le
  have hlt := hq.cap_lt
  rw [gt_iff_lt, UInt16.lt_iff_toNat_lt, UInt16.toNat_add, hq.head_eq, hq.num_eq, hq.size_eq]
  omega

/-- The new head of a release is exact exactly where its sum fits. -/
theorem release_exact_iff (hq : QueueHolds queue f) (hcap : 0 < cap) (size : UInt16) :
    (queueRelease queue size).2.head.toNat =
      (queue.head.toNat + min size.toNat queue.numItems.toNat) % queue.size.toNat ↔
        queue.head.toNat + min size.toNat queue.numItems.toNat < 2 ^ 16 := by
  have hpos := hq.pos_lt
  have hle := f.items_le
  have hlt := hq.cap_lt
  constructor
  · intro hhead
    by_contra hwrap
    have hnum := hq.num_eq
    have htaken : (if size > queue.numItems then queue.numItems else size).toNat =
        min size.toNat f.items.length := by
      simp only [gt_iff_lt, UInt16.lt_iff_toNat_lt]
      split_ifs <;> omega
    rw [hq.head_eq, hq.num_eq, hq.size_eq] at hhead
    rw [hq.head_eq, hq.num_eq] at hwrap
    generalize hcut : (if size > queue.numItems then queue.numItems else size) = taken at htaken
    have hsum : (queue.head + taken).toNat = f.pos + min size.toNat f.items.length - 2 ^ 16 := by
      rw [UInt16.toNat_add, hq.head_eq, htaken]
      omega
    have hbelow : ¬ queue.head + taken ≥ queue.size := by
      rw [ge_iff_le, UInt16.le_iff_toNat_le, hsum, hq.size_eq]
      omega
    simp only [queueRelease, hcut, if_neg hbelow, hsum] at hhead
    rw [← wrap_eq_mod (by omega), wrap] at hhead
    split_ifs at hhead <;> omega
  · intro hsum
    obtain ⟨o, after, f', hstep, hspec, hafter⟩ := queue_step hq (.release size) hsum
    simp only [queueStep, Option.some.injEq, Prod.mk.injEq] at hstep
    simp only [fifoStep, Prod.mk.injEq] at hspec
    obtain ⟨-, rfl⟩ := hstep
    obtain ⟨-, rfl⟩ := hspec
    rw [hafter.head_eq, Fifo.drop_pos, hq.head_eq, hq.num_eq, hq.size_eq]

/-- The new head of a get is exact: `head + 1` always fits. -/
theorem get_exact (hq : QueueHolds queue f) (item : UInt8) :
    PositionsExact queue (.get item) := by
  intro first after hget
  obtain ⟨o, after', f', hstep, hspec, hafter⟩ := get_step hq item
  simp only [queueStep, hget, Option.bind_eq_bind, Option.bind_some, Option.pure_def,
    Option.some.injEq, Prod.mk.injEq] at hstep
  obtain ⟨rfl, rfl⟩ := hstep
  cases hitems : f.items with
  | nil => simp [fifoStep, hitems] at hspec
  | cons head rest =>
    simp only [fifoStep, hitems, Prod.mk.injEq] at hspec
    rw [hafter.head_eq, ← hspec.2, Fifo.drop_pos, hq.head_eq, hq.size_eq]

/-- **The positions of a call are exact exactly where its sums fit.** -/
theorem positions_exact_iff (hq : QueueHolds queue f) (hcap : 0 < cap) (op : QueueOp) :
    PositionsExact queue op ↔ noWrap queue op := by
  cases op with
  | clear => exact iff_of_true rfl trivial
  | append item => exact queueTail_exact_iff hq hcap
  | get item => exact iff_of_true (get_exact hq item) trivial
  | enqueue arg => exact imp_congr_right fun _ => queueTail_exact_iff hq hcap
  | peekConsequent arg => exact wrapTest_exact_iff hq hcap
  | peekNoncopy => exact wrapTest_exact_iff hq hcap
  | release size => exact release_exact_iff hq hcap size

/-- The byte at distance `i` from the head. -/
theorem QueueHolds.byte_eq (hq : QueueHolds queue f) {i : ℕ} (hi : i < f.items.length) :
    queue.buff[(f.pos + i) % cap]? = f.items[i]? := by
  have hpos := hq.pos_lt
  have hle := f.items_le
  have hlen := hq.length_buff
  have hread := ringRead_getElem? (n := f.items.length) (show f.pos ≤ queue.buff.length by omega)
    (by omega) i
  rw [hq.items_eq, if_pos hi, hlen, wrap_eq_mod (by omega)] at hread
  exact hread.symm

/-- A call that is not a producer's leaves the block alone. -/
theorem buff_eq_of_consumer {op : QueueOp} {o : QueueOut}
    (hstep : queueStep queue op = some (o, queue'))
    (hcons : ¬ IsProducer op) : queue'.buff = queue.buff := by
  cases op with
  | append item => exact absurd (.append item) hcons
  | enqueue arg => exact absurd (.enqueue arg) hcons
  | clear =>
    simp only [queueStep, queueClear, Option.some.injEq, Prod.mk.injEq] at hstep
    rw [← hstep.2]
  | get item =>
    by_cases hempty : queue.numItems = 0
    · simp only [queueStep, queueGet, if_pos hempty, Option.bind_eq_bind, Option.bind_some,
        Option.pure_def, Option.some.injEq, Prod.mk.injEq] at hstep
      rw [← hstep.2]
    · simp only [queueStep, queueGet, if_neg hempty, Option.bind_eq_bind, Option.pure_def,
        Option.bind_eq_some_iff, Option.some.injEq, Prod.mk.injEq, Prod.exists] at hstep
      obtain ⟨-, -, -, ⟨-, -, -, -, rfl⟩, -, rfl⟩ := hstep
      rfl
  | peekConsequent arg =>
    simp only [queueStep, Option.bind_eq_bind, Option.pure_def, Option.bind_eq_some_iff,
      Option.some.injEq, Prod.mk.injEq, Prod.exists] at hstep
    obtain ⟨-, -, -, -, rfl⟩ := hstep
    rfl
  | peekNoncopy =>
    simp only [queueStep, Option.bind_eq_bind, Option.pure_def, Option.bind_eq_some_iff,
      Option.some.injEq, Prod.mk.injEq] at hstep
    obtain ⟨-, -, -, rfl⟩ := hstep
    rfl
  | release size =>
    simp only [queueStep, queueRelease, Option.some.injEq, Prod.mk.injEq] at hstep
    rw [← hstep.2]

/-- **A call whose sums fit stays inside the block and keeps the queue's bytes.** -/
theorem staysInside_of_noWrap (hq : QueueHolds queue f) (op : QueueOp) (hfits : noWrap queue op) :
    StaysInside queue op := by
  obtain ⟨o, queue', f', hstep, hspec, hq'⟩ := queue_step hq op hfits
  refine ⟨o, queue', hstep, ?_⟩
  intro i hi
  by_cases hprod : IsProducer op
  · have hext : f.Extends f' := by
      have := extends_fifoStep f hprod
      rwa [hspec] at this
    rw [hq.num_eq] at hi
    have hkept : f'.items[i]? = f.items[i]? := by
      obtain ⟨added, hadded⟩ := hext.items_prefix
      rw [← hadded, List.getElem?_append_left hi]
    have hbyte := hq'.byte_eq (hi.trans_le hext.items_prefix.length_le)
    rw [hq.head_eq, hq.size_eq, ← hext.pos_eq, hbyte, hext.pos_eq, hq.byte_eq hi, hkept]
  · rw [buff_eq_of_consumer hstep hprod]

/-- Under a guard that lets no sum wrap, a run leaves the queue in the shape of a
buffer. -/
theorem run_holds {guard : Queue → QueueOp → Prop} {size : UInt16} {buff : List UInt8}
    (hguard : ∀ queue (f : Fifo UInt8 size.toNat) op, QueueHolds queue f → guard queue op →
      noWrap queue op) (hbuff : buff.length = size.toNat) {h : List (QueueOp × QueueOut)}
    (hrun : queueMachine.Run guard (queueInit buff size) h queue) :
    ∃ f : Fifo UInt8 size.toNat, QueueHolds queue f := by
  refine hrun.invariant (fun _ queue => ∃ f : Fifo UInt8 size.toNat, QueueHolds queue f)
    ⟨_, queueHolds_init buff size hbuff⟩ ?_
  rintro - queue op o queue' ⟨f, hq⟩ hmet hstep
  obtain ⟨o', queue'', f', hstep', -, hq'⟩ := queue_step hq op (hguard queue f op hq hmet)
  have hsame : (o, queue') = (o', queue'') := Option.some.inj (hstep.symm.trans hstep')
  rw [(Prod.mk.inj hsame).2]
  exact ⟨f', hq'⟩

/-! ## Where they do not -/

/-- `n` zero bytes. -/
def zeros (n : UInt16) : Extent := ⟨List.replicate n.toNat 0, n, by simp⟩

/-- An enqueue that fits. -/
theorem enqueue_fits (hq : QueueHolds queue f) (n : UInt16) (hroom : n.toNat ≤ f.room)
    (hsum : f.pos + f.items.length < 2 ^ 16) :
    ∃ o queue' f', queueMachine.step queue (.enqueue (zeros n)) = some (o, queue') ∧
      QueueHolds queue' (f' : Fifo UInt8 cap) ∧ f'.pos = f.pos ∧
      f'.items = f.items ++ List.replicate n.toNat 0 := by
  obtain ⟨o, queue', f', hstep, hspec, hq'⟩ := enqueue_step hq (zeros n) fun _ => hsum
  have htake : (zeros n).data.take (zeros n).size.toNat = List.replicate n.toNat 0 := by
    simp [zeros]
  have hfits : ((zeros n).data.take (zeros n).size.toNat).length ≤ f.room := by
    rwa [htake, List.length_replicate]
  rw [fifoStep, dif_pos hfits, Prod.mk.injEq] at hspec
  obtain ⟨-, rfl⟩ := hspec
  exact ⟨o, queue', _, hstep, hq', rfl, by rw [Fifo.put_items, htake]⟩

/-- With a capacity over 32768: fill all but one place, take everything out, and
add as many bytes as bring `head + num_items` to 2^16. -/
theorem wrapped_reachable {size : UInt16} (hsize : 32768 < size.toNat) {buff : List UInt8}
    (hbuff : buff.length = size.toNat) :
    ∃ h queue, ∃ f : Fifo UInt8 size.toNat,
      queueMachine.Run Machine.anyStep (queueInit buff size) h queue ∧ QueueHolds queue f ∧
      f.pos = size.toNat - 1 ∧ f.items = List.replicate (65537 - size.toNat) 0 := by
  have hlt := size.toNat_lt
  have hmost : (size - 1).toNat = size.toNat - 1 := by
    rw [UInt16.toNat_sub, UInt16.toNat_one]
    omega
  have hrest : (1 - size).toNat = 65537 - size.toNat := by
    rw [UInt16.toNat_sub, UInt16.toNat_one]
    omega
  obtain ⟨o₁, queue₁, f₁, hstep₁, hq₁, hpos₁, hitems₁⟩ :=
    enqueue_fits (queueHolds_init buff size hbuff) (size - 1)
      (by simp only [Fifo.room, Fifo.empty_items, List.length_nil]; omega) (by simp)
  have hlen₁ : f₁.items.length = size.toNat - 1 := by simp [hitems₁, hmost]
  have hzero₁ : f₁.pos = 0 := hpos₁
  obtain ⟨o₂, queue₂, f₂, hstep₂, hspec₂, hq₂⟩ := release_step hq₁ (size - 1)
    (by rw [hzero₁, hlen₁, hmost]; omega)
  simp only [fifoStep, Prod.mk.injEq, hlen₁, hmost, Nat.min_self] at hspec₂
  obtain ⟨-, rfl⟩ := hspec₂
  have hempty₂ : (f₁.drop (size.toNat - 1)).items = [] := by
    rw [Fifo.drop_items, ← hlen₁, List.drop_length]
  have hpos₂ : (f₁.drop (size.toNat - 1)).pos = size.toNat - 1 := by
    rw [Fifo.drop_pos, hzero₁, Nat.zero_add]
    exact Nat.mod_eq_of_lt (by omega)
  obtain ⟨o₃, queue₃, f₃, hstep₃, hq₃, hpos₃, hitems₃⟩ := enqueue_fits hq₂ (1 - size)
    (by rw [Fifo.room, hempty₂, hrest, List.length_nil]; omega)
    (by rw [hempty₂, hpos₂, List.length_nil]; omega)
  have hitems : f₃.items = List.replicate (65537 - size.toNat) 0 := by
    rw [hitems₃, hempty₂, hrest, List.nil_append]
  have hreleased : queueMachine.step queue₁ (.release (size - 1)) = some (o₂, _) := hstep₂
  have hrun : queueMachine.Run Machine.anyStep (queueInit buff size) _ queue₃ :=
    .next (.next (.next .start trivial hstep₁) trivial hreleased) trivial hstep₃
  exact ⟨_, queue₃, f₃, hrun, hq₃, hpos₃.trans hpos₂, hitems⟩

/-- In that queue the next append takes 0 for the tail, where the second byte lies. -/
theorem append_overwrites {size : UInt16} (hsize : 32768 < size.toNat) {f : Fifo UInt8 size.toNat}
    (hq : QueueHolds queue f) (hpos : f.pos = size.toNat - 1)
    (hitems : f.items = List.replicate (65537 - size.toNat) 0) :
    ¬ PositionsExact queue (.append 7) ∧ ¬ StaysInside queue (.append 7) := by
  have hlt := size.toNat_lt
  have hlen : f.items.length = 65537 - size.toNat := by rw [hitems, List.length_replicate]
  have hwraps : ¬ noWrap queue (.append 7) := by
    simp only [noWrap, hq.head_eq, hq.num_eq, hpos, hlen]
    omega
  have hsum : queue.head + queue.numItems = 0 := by
    rw [← UInt16.toNat_inj, UInt16.toNat_add, hq.head_eq, hq.num_eq, hpos, hlen, UInt16.toNat_zero]
    omega
  have htail : queueTail queue = 0 := by
    have hsome : ¬ (0 : UInt16) ≥ queue.size := by
      rw [ge_iff_le, UInt16.le_iff_toNat_le, hq.size_eq, UInt16.toNat_zero]
      omega
    rw [queueTail, hsum, if_neg hsome]
  have hfree : queue.numItems < queue.size := by
    rw [UInt16.lt_iff_toNat_lt, hq.num_eq, hq.size_eq, hlen]
    omega
  refine ⟨mt (positions_exact_iff hq (by omega) _).mp hwraps, ?_⟩
  rintro ⟨o, queue', hstep, hkept⟩
  obtain ⟨buff, hwrite, -, hcell⟩ := exists_writeCells queue.buff [(7 : UInt8)] 0
    (by rw [hq.length_buff, List.length_singleton]; omega)
  have hstored : queue'.buff[0]? = some 7 := by
    simp only [queueStep, queueAppend, htail, if_pos hfree, UInt16.toNat_zero, hwrite,
      Option.bind_eq_bind, Option.bind_some, Option.pure_def, Option.some.injEq,
      Prod.mk.injEq] at hstep
    rw [← hstep.2]
    simpa using hcell 0
  have hsecond : queue.buff[0]? = some 0 := by
    have hbyte := hq.byte_eq (show 1 < f.items.length by omega)
    rw [hpos, Nat.sub_add_cancel (by omega), Nat.mod_self, hitems] at hbyte
    rw [hbyte, List.getElem?_replicate, if_pos (by omega)]
  have hsame := hkept 1 (by rw [hq.num_eq, hlen]; omega)
  rw [hq.head_eq, hq.size_eq, hpos, Nat.sub_add_cancel (by omega), Nat.mod_self, hstored,
    hsecond] at hsame
  exact absurd hsame (by decide)

end Ctools.Analysis

open Ctools.Library Ctools.Program Ctools.Analysis in
/-- **Where ring positions are exact.**  In every state a queue of any capacity
reaches by calls whose 16-bit sums fit, a call's positions are exact if and only
if its own sums fit, and such a call stays inside the block and keeps the bytes
in the queue.  All calls in all reachable states are exact and safe if and only
if the capacity is at most 32768.
SOURCE: queue.c:32-55, queue.c:108-126, queue.c:145-182, queue.c:195-205 -/
theorem Ctools.Analysis.queue_positions_exact (size : UInt16) (hsize : 1 ≤ size.toNat)
    (buff : List UInt8) (hbuff : buff.length = size.toNat) :
    (∀ h queue, queueMachine.Run noWrap (queueInit buff size) h queue → ∀ op,
      (PositionsExact queue op ↔ noWrap queue op) ∧
      (noWrap queue op → StaysInside queue op)) ∧
    ((∀ h queue, queueMachine.Run Machine.anyStep (queueInit buff size) h queue → ∀ op,
      PositionsExact queue op ∧ StaysInside queue op) ↔ size.toNat ≤ 32768) := by
  constructor
  · intro h queue hrun op
    obtain ⟨f, hq⟩ := run_holds (fun _ _ _ _ hmet => hmet) hbuff hrun
    exact ⟨positions_exact_iff hq hsize op, staysInside_of_noWrap hq op⟩
  · constructor
    · intro hall
      by_contra hbig
      obtain ⟨h, queue, f, hrun, hq, hpos, hitems⟩ := wrapped_reachable (by omega) hbuff
      exact (append_overwrites (by omega) hq hpos hitems).1 (hall h queue hrun (.append 7)).1
    · intro hsmall h queue hrun op
      obtain ⟨f, hq⟩ := run_holds (fun _ _ op hq _ => hq.noWrap hsmall op) hbuff hrun
      have hfits := hq.noWrap hsmall op
      exact ⟨(positions_exact_iff hq hsize op).mpr hfits, staysInside_of_noWrap hq op hfits⟩

open Ctools.Library Ctools.Program Ctools.Analysis in
/-- The rule at the largest capacity. -/
theorem Ctools.Analysis.queue_positions_exact_largest :
    (∀ h queue, queueMachine.Run noWrap (queueInit (List.replicate 65535 0) 65535) h queue → ∀ op,
      (PositionsExact queue op ↔ noWrap queue op) ∧
      (noWrap queue op → StaysInside queue op)) ∧
    ((∀ h queue,
        queueMachine.Run Machine.anyStep (queueInit (List.replicate 65535 0) 65535) h queue →
      ∀ op, PositionsExact queue op ∧ StaysInside queue op) ↔ (65535 : UInt16).toNat ≤ 32768) :=
  queue_positions_exact 65535 (by decide) (List.replicate 65535 0) (List.length_replicate ..)

open Ctools.Library Ctools.Program Ctools.Analysis in
/-- A queue of 65535 bytes, with two of them in it from position 65534 on: the
append's tail is 0 instead of 1, and its byte replaces the second one. -/
theorem Ctools.Analysis.queue_append_overwrites :
    ∃ h queue, queueMachine.Run Machine.anyStep (queueInit (List.replicate 65535 0) 65535) h queue ∧
      queue.head = 65534 ∧ queue.numItems = 2 ∧
      ¬ PositionsExact queue (.append 7) ∧ ¬ StaysInside queue (.append 7) := by
  obtain ⟨h, queue, f, hrun, hq, hpos, hitems⟩ := wrapped_reachable
    (show 32768 < (65535 : UInt16).toNat by decide) (List.length_replicate ..)
  refine ⟨h, queue, hrun, ?_, ?_, append_overwrites (by decide) hq hpos hitems⟩
  · rw [← UInt16.toNat_inj, hq.head_eq, hpos]
    rfl
  · rw [← UInt16.toNat_inj, hq.num_eq, hitems, List.length_replicate]
    rfl
