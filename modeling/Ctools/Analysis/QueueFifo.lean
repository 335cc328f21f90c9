import Ctools.Library.Ring
import Ctools.Interface.QueueSpec

/-!
# The byte queue is a bounded FIFO

Where the 16-bit sums of its calls do not wrap (`noWrap`), as for every capacity
up to 32768, the queue under any sequence of calls answers as a bounded first-in
first-out buffer does.  `QueueHolds` ties the two: `num_items` counts the buffer's items, `head`
is the buffer's read position, and the items lie in the ring from `head` on.
One lemma for each call shows that it keeps the tie (`append_step`, `get_step`,
…); `queue_simulates_fifo` runs them.
-/

set_option autoImplicit false

namespace Ctools.Analysis

open Ctools.Library Ctools.Program Ctools.Interface

/-- The queue holds exactly the items of the buffer `f`. -/
structure QueueHolds {cap : ℕ} (queue : Queue) (f : Fifo UInt8 cap) : Prop where
  size_eq : queue.size.toNat = cap
  length_buff : queue.buff.length = cap
  num_eq : queue.numItems.toNat = f.items.length
  head_eq : queue.head.toNat = f.pos
  pos_lt : f.pos < cap ∨ (cap = 0 ∧ f.pos = 0)
  items_eq : ringRead queue.buff f.pos f.items.length = f.items

variable {cap : ℕ} {queue : Queue} {f : Fifo UInt8 cap}

/-- An initialised queue holds nothing. -/
theorem queueHolds_init (buff : List UInt8) (size : UInt16) (hbuff : buff.length = size.toNat) :
    QueueHolds (queueInit buff size) (Fifo.empty UInt8 size.toNat) where
  size_eq := rfl
  length_buff := hbuff
  num_eq := rfl
  head_eq := rfl
  pos_lt := by
    simp only [Fifo.empty_pos, and_true]
    omega
  items_eq := rfl

/-- The capacity is a `uint16_t`. -/
theorem QueueHolds.cap_lt (hq : QueueHolds queue f) : cap < 2 ^ 16 :=
  hq.size_eq ▸ queue.size.toNat_lt

/-- Up to a capacity of 32768 the position behind the items fits. -/
theorem QueueHolds.sum_lt (hq : QueueHolds queue f) (hcap : cap ≤ 32768) :
    f.pos + f.items.length < 2 ^ 16 := by
  have := f.items_le
  have := hq.pos_lt
  omega

/-- Where `head + num_items` fits, the tail is one wrap away from it.
SOURCE: queue.c:32-37 -/
theorem toNat_queueTail (hq : QueueHolds queue f) (hsum : f.pos + f.items.length < 2 ^ 16) :
    (queueTail queue).toNat = wrap cap (f.pos + f.items.length) := by
  have := f.items_le
  have := hq.pos_lt
  have := hq.cap_lt
  unfold queueTail wrap
  simp only [ge_iff_le, UInt16.le_iff_toNat_le, UInt16.toNat_add, hq.size_eq, hq.num_eq, hq.head_eq]
  split_ifs with h
  · omega
  · rw [UInt16.toNat_sub, UInt16.toNat_add, hq.size_eq, hq.num_eq, hq.head_eq]
    omega
  · rw [UInt16.toNat_add, hq.num_eq, hq.head_eq]
    omega
  · omega

/-- Storing `cells` behind the items and counting them adds them to the buffer. -/
theorem queueHolds_put (hq : QueueHolds queue f) {buff cells : List UInt8}
    {num : UInt16} (hroom : cells.length ≤ f.room)
    (hnum : num.toNat = f.items.length + cells.length)
    (hw : RingWritten queue.buff buff (wrap cap (f.pos + f.items.length)) cells) :
    QueueHolds { queue with numItems := num, buff := buff } (f.put cells hroom) where
  size_eq := hq.size_eq
  length_buff := hw.length_eq.trans hq.length_buff
  num_eq := by simpa using hnum
  head_eq := hq.head_eq
  pos_lt := hq.pos_lt
  items_eq := by
    have hle := f.items_le
    have hlen := hq.length_buff
    have hfit : cells.length ≤ cap - f.items.length := hroom
    simp only [Fifo.put_items, Fifo.put_pos, List.length_append]
    rcases hq.pos_lt with hpos | ⟨hzero, -⟩
    · rw [ringRead_append queue.buff cells (by omega) (by omega)
        (by rw [hlen]; exact hw), hq.items_eq]
    · have hitems : f.items = [] := List.eq_nil_of_length_eq_zero (by omega)
      have hcells : cells = [] := List.eq_nil_of_length_eq_zero (by omega)
      rw [hitems, hcells]
      rfl

/-- Advancing `head` over `n` items and discounting them removes them. -/
theorem queueHolds_drop (hq : QueueHolds queue f) {head num : UInt16} {n : ℕ}
    (hn : n ≤ f.items.length) (hhead : head.toNat = (f.pos + n) % cap)
    (hnum : num.toNat = f.items.length - n) :
    QueueHolds { queue with head := head, numItems := num } (f.drop n) where
  size_eq := hq.size_eq
  length_buff := hq.length_buff
  num_eq := by simpa using hnum
  head_eq := hhead
  pos_lt := by
    have := f.items_le
    rcases hq.pos_lt with hpos | ⟨hzero, hpos⟩
    · exact Or.inl (Nat.mod_lt _ (by omega))
    · refine Or.inr ⟨hzero, ?_⟩
      rw [Fifo.drop_pos, hpos, hzero, Nat.mod_zero]
      omega
  items_eq := by
    have hle := f.items_le
    have hlen := hq.length_buff
    simp only [Fifo.drop_items, Fifo.drop_pos, List.length_drop]
    rcases hq.pos_lt with hpos | ⟨hzero, -⟩
    · have hdrop := ringRead_drop queue.buff f.pos (by omega) (by omega) hn
      rw [hlen, wrap_eq_mod (by omega)] at hdrop
      rw [hdrop, hq.items_eq]
    · have hitems : f.items = [] := List.eq_nil_of_length_eq_zero (by omega)
      simp [hitems]

/-- The items that lie in one piece from `head` can be copied from there. -/
theorem readCells_items (hq : QueueHolds queue f) {n : ℕ} (hn : n ≤ f.contiguous) :
    readCells queue.buff f.pos n = some (f.items.take n) := by
  have := hq.pos_lt
  have := hq.length_buff
  unfold Fifo.contiguous at hn
  rw [readCells_eq_take_ringRead (n := f.items.length) (by omega) (by omega), hq.items_eq]

/-! ## One call -/

/-- `queue_append` adds its byte, and refuses when the buffer is full.
SOURCE: queue.c:25-59 -/
theorem append_step (hq : QueueHolds queue f) (hsum : f.pos + f.items.length < 2 ^ 16)
    (item : UInt8) :
    ∃ o queue' f', queueStep queue (.append item) = some (o, queue') ∧
      fifoStep f (.append item) = (o, f') ∧ QueueHolds queue' f' := by
  have hle := f.items_le
  have hcap := hq.cap_lt
  by_cases hroom : [item].length ≤ f.room
  · have hlt : queue.numItems < queue.size := by
      rw [UInt16.lt_iff_toNat_lt, hq.num_eq, hq.size_eq]
      simp only [Fifo.room, List.length_singleton] at hroom
      omega
    have htail : wrap cap (f.pos + f.items.length) + 1 ≤ queue.buff.length := by
      rw [hq.length_buff]
      have := hq.pos_lt
      simp only [Fifo.room, List.length_singleton] at hroom
      exact wrap_lt (by omega)
    obtain ⟨buff, hcopy, hw⟩ := ringWritten_copy queue.buff [item] _ 1 htail (by simp)
    have hbuff : writeCells queue.buff (wrap cap (f.pos + f.items.length)) [item] = some buff := by
      simpa [memcpy, readCells] using hcopy
    have hnum : (queue.numItems + 1).toNat = f.items.length + [item].length := by
      rw [UInt16.lt_iff_toNat_lt, hq.num_eq, hq.size_eq] at hlt
      rw [UInt16.toNat_add, hq.num_eq]
      simp only [UInt16.toNat_one, List.length_singleton]
      omega
    refine ⟨_, _, _, ?_, dif_pos hroom, queueHolds_put hq hroom hnum hw⟩
    simp [queueStep, queueAppend, hlt, toNat_queueTail hq hsum, hbuff]
  · have hfull : ¬ queue.numItems < queue.size := by
      rw [UInt16.lt_iff_toNat_lt, hq.num_eq, hq.size_eq]
      simp only [Fifo.room, List.length_singleton] at hroom
      omega
    refine ⟨_, _, _, ?_, dif_neg hroom, hq⟩
    simp [queueStep, queueAppend, hfull]

/-- `queue_get` removes the first byte, and refuses when the buffer is empty.
SOURCE: queue.c:61-89 -/
theorem get_step (hq : QueueHolds queue f) (item : UInt8) :
    ∃ o queue' f', queueStep queue (.get item) = some (o, queue') ∧
      fifoStep f (.get item) = (o, f') ∧ QueueHolds queue' f' := by
  cases hitems : f.items with
  | nil =>
    have hzero : queue.numItems = 0 := by
      rw [← UInt16.toNat_inj, hq.num_eq, hitems]
      rfl
    refine ⟨.item false item, queue, f, ?_, ?_, hq⟩
    · simp [queueStep, queueGet, hzero]
    · simp [fifoStep, hitems]
  | cons first rest =>
    have hlen : f.items.length = rest.length + 1 := by rw [hitems]; rfl
    have hle := f.items_le
    have hpos := hq.pos_lt
    have hcap := hq.cap_lt
    have hnz : queue.numItems ≠ 0 := by
      rw [Ne, ← UInt16.toNat_inj, hq.num_eq]
      simp only [UInt16.toNat_zero]
      omega
    have hread : queue.buff[f.pos]? = some first := by
      have h0 := congrArg (fun l => l[0]?) hq.items_eq
      simp only [hitems] at h0
      rw [ringRead_getElem? (by rw [hq.length_buff]; omega)
        (by rw [hq.length_buff]; simp at *; omega)] at h0
      simpa [wrap_of_lt (show f.pos < queue.buff.length by rw [hq.length_buff]; omega)] using h0
    have hhead : (if queue.head + 1 ≥ queue.size then 0 else queue.head + 1).toNat =
        (f.pos + 1) % cap := by
      rw [← wrap_eq_mod (by omega), wrap]
      simp only [ge_iff_le, UInt16.le_iff_toNat_le, UInt16.toNat_add, UInt16.toNat_one, hq.size_eq,
        hq.head_eq]
      split_ifs with h1 h2 h2
      · omega
      · simp only [UInt16.toNat_zero]; omega
      · rw [UInt16.toNat_add, hq.head_eq, UInt16.toNat_one]; omega
      · omega
    have hnum : (queue.numItems - 1).toNat = f.items.length - 1 := by
      rw [UInt16.toNat_sub, hq.num_eq, UInt16.toNat_one]
      omega
    refine ⟨.item true first, _, f.drop 1, ?_, ?_, queueHolds_drop hq (by omega) hhead hnum⟩
    · simp [queueStep, queueGet, hnz, hq.head_eq, hread]
    · simp [fifoStep, hitems]

/-- `queue_enqueue` adds all its bytes or none.
SOURCE: queue.c:101-135 -/
theorem enqueue_step (hq : QueueHolds queue f) (arg : Extent)
    (hsum : arg.size.toNat ≤ f.room → f.pos + f.items.length < 2 ^ 16) :
    ∃ o queue' f', queueStep queue (.enqueue arg) = some (o, queue') ∧
      fifoStep f (.enqueue arg) = (o, f') ∧ QueueHolds queue' f' := by
  have hle := f.items_le
  have hpos := hq.pos_lt
  have hlen := hq.length_buff
  have hcap := hq.cap_lt
  have htake : (arg.data.take arg.size.toNat).length = arg.size.toNat := by
    rw [List.length_take, Nat.min_eq_left arg.size_le]
  have hfree : ((arg.size.toNat : ℤ) ≤ (queue.size.toNat : ℤ) - queue.numItems.toNat) ↔
      (arg.data.take arg.size.toNat).length ≤ f.room := by
    rw [htake, hq.size_eq, hq.num_eq, Fifo.room]
    omega
  by_cases hroom : (arg.data.take arg.size.toNat).length ≤ f.room
  · have hfit : arg.size.toNat ≤ cap - f.items.length := by rw [htake] at hroom; exact hroom
    have hsum := hsum hfit
    have hnum : (queue.numItems + arg.size).toNat =
        f.items.length + (arg.data.take arg.size.toNat).length := by
      rw [UInt16.toNat_add, hq.num_eq, htake]
      omega
    have htail := toNat_queueTail hq hsum
    have htail_le : wrap cap (f.pos + f.items.length) ≤ cap := by
      unfold wrap
      split_ifs <;> omega
    have htemp : (queue.size - queueTail queue).toNat =
        cap - wrap cap (f.pos + f.items.length) := by
      rw [UInt16.toNat_sub, hq.size_eq, htail]
      omega
    by_cases hone : arg.size < queue.size - queueTail queue
    · have hend : wrap cap (f.pos + f.items.length) + arg.size.toNat ≤ queue.buff.length := by
        rw [UInt16.lt_iff_toNat_lt, htemp] at hone
        omega
      obtain ⟨buff, hcopy, hw⟩ := ringWritten_copy _ _ _ _ hend arg.size_le
      refine ⟨_, _, _, ?_, dif_pos hroom, queueHolds_put hq hroom hnum hw⟩
      simp [queueStep, queueEnqueue, hfree.mpr hroom, hone, htail, hcopy]
    · have hreach : queue.buff.length - wrap cap (f.pos + f.items.length) ≤ arg.size.toNat := by
        rw [UInt16.lt_iff_toNat_lt, htemp] at hone
        omega
      obtain ⟨buff₁, buff, hcopy₁, hcopy, hw⟩ :=
        ringWritten_splitCopy _ _ _ _ (by omega) hreach (by omega) arg.size_le
      have hrest : (arg.size - (queue.size - queueTail queue)).toNat =
          arg.size.toNat - (cap - wrap cap (f.pos + f.items.length)) := by
        rw [UInt16.toNat_sub, htemp]
        omega
      rw [hlen] at hcopy₁ hcopy
      refine ⟨_, _, _, ?_, dif_pos hroom, queueHolds_put hq hroom hnum hw⟩
      simp [queueStep, queueEnqueue, hfree.mpr hroom, hone, htail, htemp, hrest, hcopy₁, hcopy]
  · refine ⟨_, _, _, ?_, dif_neg hroom, hq⟩
    simp [queueStep, queueEnqueue, mt hfree.mp hroom]

/-- The wrap test `head + num_items > size` holds exactly when the items do not
lie in one piece.
SOURCE: queue.c:149-151, queue.c:174-175 -/
theorem tail_gt_size_iff (hq : QueueHolds queue f) (hsum : f.pos + f.items.length < 2 ^ 16) :
    queue.head + queue.numItems > queue.size ↔ cap < f.pos + f.items.length := by
  have := f.items_le
  have := hq.pos_lt
  rw [gt_iff_lt, UInt16.lt_iff_toNat_lt, UInt16.toNat_add, hq.size_eq, hq.num_eq, hq.head_eq]
  omega

/-- The room from `head` to the end of the block. -/
theorem toNat_size_sub_head (hq : QueueHolds queue f) :
    (queue.size - queue.head).toNat = cap - f.pos := by
  have := hq.pos_lt
  have := hq.cap_lt
  rw [UInt16.toNat_sub, hq.size_eq, hq.head_eq]
  omega

/-- `queue_peek_consequent` copies the first bytes that lie in one piece.
SOURCE: queue.c:137-164 -/
theorem peekConsequent_step (hq : QueueHolds queue f)
    (hsum : f.pos + f.items.length < 2 ^ 16) (arg : Extent) :
    ∃ o queue' f', queueStep queue (.peekConsequent arg) = some (o, queue') ∧
      fifoStep f (.peekConsequent arg) = (o, f') ∧ QueueHolds queue' f' := by
  have hpos := hq.pos_lt
  have hle := f.items_le
  have hdata := arg.size_le
  let n := min arg.size.toNat f.contiguous
  -- the two cuts of `size` leave the smallest of the three bounds
  have hcut : (let size := if arg.size > queue.numItems then queue.numItems else arg.size
      if queue.head + queue.numItems > queue.size then
        if size > queue.size - queue.head then queue.size - queue.head else size
      else size).toNat = n := by
    have hnum := hq.num_eq
    have hroom := toNat_size_sub_head hq
    simp only [n, tail_gt_size_iff hq hsum, Fifo.contiguous, gt_iff_lt, UInt16.lt_iff_toNat_lt]
    split_ifs <;> omega
  have hread : readCells queue.buff f.pos n = some (f.items.take n) :=
    readCells_items hq (Nat.min_le_right _ _)
  have hfit : n ≤ arg.data.length := (Nat.min_le_left _ _).trans hdata
  have hcopy : memcpy arg.data 0 queue.buff f.pos n = some (f.items.take n ++ arg.data.drop n) := by
    have hn : (f.items.take n).length = n := by
      rw [List.length_take]
      simp only [n, Fifo.contiguous]
      omega
    simp [memcpy, hread, writeCells, hn, hfit]
  refine ⟨.copied n (f.items.take n ++ arg.data.drop n), queue, f, ?_, rfl, hq⟩
  simp only [queueStep, queuePeekConsequent, hq.head_eq]
  simp only at hcut
  simp [hcut, hcopy]

/-- `queue_peek_noncopy` counts the bytes that lie in one piece.
SOURCE: queue.c:174-179 -/
theorem toNat_peekNoncopy (hq : QueueHolds queue f) (hsum : f.pos + f.items.length < 2 ^ 16) :
    (queuePeekNoncopy queue).1.toNat = f.contiguous := by
  have := f.items_le
  have := hq.pos_lt
  simp only [queuePeekNoncopy, tail_gt_size_iff hq hsum, Fifo.contiguous]
  split_ifs
  · rw [toNat_size_sub_head hq]
    omega
  · rw [hq.num_eq]
    omega

/-- `queue_peek_noncopy` points at the first bytes that lie in one piece.
SOURCE: queue.c:166-186 -/
theorem peekNoncopy_step (hq : QueueHolds queue f) (hsum : f.pos + f.items.length < 2 ^ 16) :
    ∃ o queue' f', queueStep queue .peekNoncopy = some (o, queue') ∧
      fifoStep f .peekNoncopy = (o, f') ∧ QueueHolds queue' f' := by
  have hptr : (queuePeekNoncopy queue).2 = f.pos := hq.head_eq
  refine ⟨_, queue, f, ?_, rfl, hq⟩
  simp [queueStep, toNat_peekNoncopy hq hsum, hptr, readCells_items hq le_rfl]

/-- `queue_release` drops the first bytes, as many as there are.
SOURCE: queue.c:188-210 -/
theorem release_step (hq : QueueHolds queue f) (size : UInt16)
    (hsum : f.pos + min size.toNat f.items.length < 2 ^ 16) :
    ∃ o queue' f', queueStep queue (.release size) = some (o, queue') ∧
      fifoStep f (.release size) = (o, f') ∧ QueueHolds queue' f' := by
  have hle := f.items_le
  have hpos := hq.pos_lt
  have hcap := hq.cap_lt
  have hsize : (if size > queue.numItems then queue.numItems else size).toNat =
      min size.toNat f.items.length := by
    have hnum := hq.num_eq
    simp only [gt_iff_lt, UInt16.lt_iff_toNat_lt]
    split_ifs <;> omega
  generalize hcut : (if size > queue.numItems then queue.numItems else size) = taken at hsize
  have hhead : (if queue.head + taken ≥ queue.size then queue.head + taken - queue.size
      else queue.head + taken).toNat = (f.pos + min size.toNat f.items.length) % cap := by
    have hsum : (queue.head + taken).toNat = f.pos + min size.toNat f.items.length := by
      rw [UInt16.toNat_add, hq.head_eq, hsize]
      omega
    rcases hpos with hlt | ⟨hzero, hp⟩
    · rw [← wrap_eq_mod (by omega), wrap]
      simp only [ge_iff_le, UInt16.le_iff_toNat_le, hsum, hq.size_eq]
      split_ifs <;> simp only [UInt16.toNat_sub, hsum, hq.size_eq] <;> omega
    · have h0 : queue.head + taken ≥ queue.size := by
        rw [ge_iff_le, UInt16.le_iff_toNat_le, hsum, hq.size_eq]
        omega
      have hnone : f.pos + min size.toNat f.items.length = 0 := by omega
      rw [if_pos h0, UInt16.toNat_sub, hsum, hq.size_eq, hnone, Nat.zero_mod]
      omega
  have hnum : (queue.numItems - taken).toNat = f.items.length - min size.toNat f.items.length := by
    rw [UInt16.toNat_sub, hq.num_eq, hsize]
    omega
  refine ⟨_, _, f.drop _, ?_, rfl, queueHolds_drop hq (Nat.min_le_right _ _) hhead hnum⟩
  simp only [queueStep, queueRelease, hcut, hsize]

/-- `queue_clear` empties the buffer and rewinds it.
SOURCE: queue.c:12-23 -/
theorem clear_step (hq : QueueHolds queue f) :
    ∃ o queue' f', queueStep queue .clear = some (o, queue') ∧
      fifoStep f .clear = (o, f') ∧ QueueHolds queue' f' := by
  refine ⟨.flag true, _, _, rfl, rfl, ?_⟩
  exact { size_eq := hq.size_eq
          length_buff := hq.length_buff
          num_eq := rfl
          head_eq := rfl
          pos_lt := by simp only [Fifo.empty_pos, and_true]; omega
          items_eq := rfl }

/-- The 16-bit sums of a call do not wrap.
SOURCE: queue.c:33, queue.c:111, queue.c:149, queue.c:174, queue.c:200 -/
def noWrap (queue : Queue) : QueueOp → Prop
  | .append _ | .peekConsequent _ | .peekNoncopy =>
      queue.head.toNat + queue.numItems.toNat < 2 ^ 16
  | .enqueue arg => (arg.size.toNat : ℤ) ≤ (queue.size.toNat : ℤ) - queue.numItems.toNat →
      queue.head.toNat + queue.numItems.toNat < 2 ^ 16
  | .release size => queue.head.toNat + min size.toNat queue.numItems.toNat < 2 ^ 16
  | .clear | .get _ => True

/-- Up to a capacity of 32768 no sum wraps. -/
theorem QueueHolds.noWrap (hq : QueueHolds queue f) (hcap : cap ≤ 32768) (op : QueueOp) :
    noWrap queue op := by
  have hsum := hq.sum_lt hcap
  rw [← hq.head_eq, ← hq.num_eq] at hsum
  cases op with
  | append _ | peekConsequent _ | peekNoncopy => exact hsum
  | enqueue arg => exact fun _ => hsum
  | release size =>
    simp only [Analysis.noWrap]
    omega
  | clear | get _ => trivial

/-- Every call whose sums do not wrap is matched by the buffer. -/
theorem queue_step (hq : QueueHolds queue f) (op : QueueOp) (hfits : noWrap queue op) :
    ∃ o queue' f', queueStep queue op = some (o, queue') ∧
      fifoStep f op = (o, f') ∧ QueueHolds queue' f' := by
  have hsum : queue.head.toNat + queue.numItems.toNat = f.pos + f.items.length := by
    rw [hq.head_eq, hq.num_eq]
  cases op with
  | clear => exact clear_step hq
  | append item => exact append_step hq (hsum ▸ hfits) item
  | get item => exact get_step hq item
  | enqueue arg =>
    refine enqueue_step hq arg fun hroom => hsum ▸ hfits ?_
    have hle := f.items_le
    rw [hq.size_eq, hq.num_eq]
    unfold Fifo.room at hroom
    omega
  | peekConsequent arg => exact peekConsequent_step hq (hsum ▸ hfits) arg
  | peekNoncopy => exact peekNoncopy_step hq (hsum ▸ hfits)
  | release size =>
    refine release_step hq size ?_
    rw [← hq.head_eq, ← hq.num_eq]
    exact hfits

/-- `queue_num_available` is the buffer's free room. -/
theorem toNat_queueNumAvailable (hq : QueueHolds queue f) :
    (queueNumAvailable queue).toNat = f.room := by
  have := f.items_le
  have := queue.size.toNat_lt
  unfold queueNumAvailable Fifo.room
  have := hq.size_eq
  rw [UInt16.toNat_sub, hq.size_eq, hq.num_eq]
  omega

/-- Up to a capacity of 32768 every sequence of calls on an initialised queue
runs, and the buffer runs it with the same answers. -/
theorem queue_exec {size : UInt16} (hsize : size.toNat ≤ 32768) (buff : List UInt8)
    (hbuff : buff.length = size.toNat) (ops : List QueueOp) :
    ∃ h queue f, queueMachine.exec (queueInit buff size) ops = some (h, queue) ∧
      (fifoMachine size.toNat).exec (Fifo.empty UInt8 size.toNat) ops = some (h, f) ∧
      QueueHolds queue f := by
  refine Machine.exec_simulates (m := queueMachine) (a := fifoMachine size.toNat) QueueHolds ops ?_
    _ _ (queueHolds_init buff size hbuff)
  intro op _ queue f hq
  obtain ⟨o, queue', f', hstep, hspec, hq'⟩ := queue_step hq op (hq.noWrap hsize op)
  exact ⟨o, queue', f', hstep, congrArg some hspec, hq'⟩

end Ctools.Analysis

open Ctools.Library Ctools.Program Ctools.Interface in
/-- **The ring queue is a bounded FIFO.**  From `QUEUE_INIT` with any capacity
up to 32768, every sequence of calls runs without leaving the block, answers
call by call as the bounded buffer does, and ends with the buffer's items in
the ring, its read position in `head` and its counts in `queue_num_items` and
`queue_num_available`.
SOURCE: queue.c:12-210 -/
theorem Ctools.Analysis.queue_simulates_fifo (size : UInt16) (hsize : size.toNat ≤ 32768)
    (buff : List UInt8) (hbuff : buff.length = size.toNat) (ops : List QueueOp) :
    ∃ h queue f, queueMachine.exec (queueInit buff size) ops = some (h, queue) ∧
      (fifoMachine size.toNat).exec (Fifo.empty UInt8 size.toNat) ops = some (h, f) ∧
      queue.size = size ∧ queue.head.toNat = f.pos ∧
      ringRead queue.buff queue.head.toNat f.items.length = f.items ∧
      (queueNumItems queue).toNat = f.items.length ∧
      (queueNumAvailable queue).toNat = size.toNat - f.items.length := by
  obtain ⟨h, queue, f, hexec, haexec, hq⟩ := queue_exec hsize buff hbuff ops
  refine ⟨h, queue, f, hexec, haexec, UInt16.toNat_inj.mp hq.size_eq, hq.head_eq, ?_, hq.num_eq,
    toNat_queueNumAvailable hq⟩
  rw [hq.head_eq]
  exact hq.items_eq

open Ctools.Library Ctools.Program Ctools.Interface in
/-- The simulation on a queue of three bytes that fills, refuses, and wraps. -/
theorem Ctools.Analysis.queue_simulates_fifo_three :
    ∃ h queue f, queueMachine.exec (queueInit [0, 0, 0] 3)
        [.append 1, .append 2, .get 0, .enqueue ⟨[3, 4], 2, by decide⟩, .append 5] =
        some (h, queue) ∧
      (fifoMachine 3).exec (Fifo.empty UInt8 3)
        [.append 1, .append 2, .get 0, .enqueue ⟨[3, 4], 2, by decide⟩, .append 5] = some (h, f) ∧
      queue.size = 3 ∧ queue.head.toNat = f.pos ∧
      ringRead queue.buff queue.head.toNat f.items.length = f.items ∧
      (queueNumItems queue).toNat = f.items.length ∧
      (queueNumAvailable queue).toNat = 3 - f.items.length :=
  queue_simulates_fifo 3 (by decide) [0, 0, 0] rfl _
