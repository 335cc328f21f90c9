import Ctools.Analysis.QueueFifo

/-!
# A view stays valid while producers run

The consumer reads what `queue_peek_noncopy` points at outside the critical
section, so appends and enqueues may come between.  They leave the buffer's read
position where it is and add behind its items (`Fifo.Extends`), so what could be
read in one piece before them can be read unchanged after them, and is what the
next release removes.
-/

set_option autoImplicit false

namespace Ctools.Analysis

open Ctools.Library Ctools.Program Ctools.Interface

/-- The calls of a producer. -/
inductive IsProducer : QueueOp → Prop
  | append (item : UInt8) : IsProducer (.append item)
  | enqueue (arg : Extent) : IsProducer (.enqueue arg)

/-- The bytes in the queue, oldest first. -/
def queueContents (queue : Queue) : List UInt8 :=
  ringRead queue.buff queue.head.toNat queue.numItems.toNat

variable {cap : ℕ} {queue queue' : Queue} {f f' : Fifo UInt8 cap}

/-- The contents of the queue are its items. -/
theorem QueueHolds.contents_eq (hq : QueueHolds queue f) : queueContents queue = f.items := by
  rw [queueContents, hq.head_eq, hq.num_eq, hq.items_eq]

/-- A producer adds at the back or leaves the buffer as it is. -/
theorem extends_fifoStep (f : Fifo UInt8 cap) {op : QueueOp} (hprod : IsProducer op) :
    f.Extends (fifoStep f op).2 := by
  cases hprod with
  | append item =>
    by_cases hroom : [item].length ≤ f.room
    · rw [fifoStep, dif_pos hroom]
      exact f.extends_put [item] hroom
    · rw [fifoStep, dif_neg hroom]
      exact .refl f
  | enqueue arg =>
    by_cases hroom : (arg.data.take arg.size.toNat).length ≤ f.room
    · rw [fifoStep, dif_pos hroom]
      exact f.extends_put _ hroom
    · rw [fifoStep, dif_neg hroom]
      exact .refl f

/-- Producers run, whatever the queue refuses, and the buffer is extended. -/
theorem producers_extend (hcap : cap ≤ 32768) (hq : QueueHolds queue f) {producers : List QueueOp}
    (hprod : ∀ op ∈ producers, IsProducer op) :
    ∃ h queue' f', queueMachine.exec queue producers = some (h, queue') ∧
      QueueHolds queue' f' ∧ f.Extends f' := by
  have hsteps : ∀ op ∈ producers, ∀ queue g, QueueHolds queue g ∧ f.Extends g →
      ∃ o queue' g', queueMachine.step queue op = some (o, queue') ∧
        (fifoMachine cap).step g op = some (o, g') ∧ QueueHolds queue' g' ∧ f.Extends g' := by
    rintro op hmem queue g ⟨hg, hext⟩
    obtain ⟨o, queue', g', hstep, hspec, hg'⟩ := queue_step hg op (hg.noWrap hcap op)
    have hgrow : g.Extends g' := by
      have := extends_fifoStep g (hprod op hmem)
      rwa [hspec] at this
    exact ⟨o, queue', g', hstep, congrArg some hspec, hg', hext.trans hgrow⟩
  obtain ⟨h, queue', f', hexec, -, hq', hext⟩ := Machine.exec_simulates _ producers hsteps
    queue f ⟨hq, .refl f⟩
  exact ⟨h, queue', f', hexec, hq', hext⟩

/-- The pointer and the count of `queue_peek_noncopy`.
SOURCE: queue.c:166-186 -/
theorem peekNoncopy_eq (hcap : cap ≤ 32768) (hq : QueueHolds queue f) :
    (queuePeekNoncopy queue).1.toNat = f.contiguous ∧ (queuePeekNoncopy queue).2 = f.pos := by
  refine ⟨?_, hq.head_eq⟩
  exact toNat_peekNoncopy hq (hq.sum_lt hcap)

/-- A release of what is there removes it from the front.
SOURCE: queue.c:188-210 -/
theorem release_drops (hcap : cap ≤ 32768) (hq : QueueHolds queue f) {m : UInt16}
    (hm : m.toNat ≤ f.items.length) :
    (queueRelease queue m).1 = m ∧ QueueHolds (queueRelease queue m).2 (f.drop m.toNat) := by
  obtain ⟨o, after, f', hstep, hspec, hafter⟩ :=
    queue_step hq (.release m) (hq.noWrap hcap (.release m))
  have hmin : min m.toNat f.items.length = m.toNat := Nat.min_eq_left hm
  simp only [queueStep, Option.some.injEq, Prod.mk.injEq] at hstep
  simp only [fifoStep, Prod.mk.injEq, hmin] at hspec
  obtain ⟨hcount, rfl⟩ := hstep
  obtain ⟨hcount', rfl⟩ := hspec
  rw [← hcount', QueueOut.count.injEq] at hcount
  exact ⟨UInt16.toNat_inj.mp hcount, hafter⟩

/-- What a release leaves in the queue. -/
theorem release_removes (hcap : cap ≤ 32768) (hq : QueueHolds queue f) {m : UInt16}
    (hm : m.toNat ≤ f.items.length) :
    (queueRelease queue m).1 = m ∧
      queueContents (queueRelease queue m).2 = (queueContents queue).drop m.toNat := by
  obtain ⟨hcount, hafter⟩ := release_drops hcap hq hm
  refine ⟨hcount, ?_⟩
  rw [hafter.contents_eq, hq.contents_eq, Fifo.drop_items]

end Ctools.Analysis

open Ctools.Library Ctools.Program Ctools.Analysis in
/-- **Views stay valid.**  In every state a queue of capacity up to 32768
reaches, `queue_peek_noncopy` points at `n` bytes of the block; after any appends
and enqueues those bytes lie there unchanged, they are the first `n` of the
queue, and `queue_release (m)` with `m ≤ n` removes the first `m`.
SOURCE: queue.c:26-59, queue.c:101-135, queue.c:166-210 -/
theorem Ctools.Analysis.queue_view_survives (size : UInt16) (hsize : size.toNat ≤ 32768)
    (buff : List UInt8) (hbuff : buff.length = size.toNat) (ops producers : List QueueOp)
    (hprod : ∀ op ∈ producers, IsProducer op) :
    ∃ h queue h' queue', queueMachine.exec (queueInit buff size) ops = some (h, queue) ∧
      queueMachine.exec queue producers = some (h', queue') ∧
      ∃ cells, cells.length = (queuePeekNoncopy queue).1.toNat ∧
        readCells queue.buff (queuePeekNoncopy queue).2 (queuePeekNoncopy queue).1.toNat =
          some cells ∧
        readCells queue'.buff (queuePeekNoncopy queue).2 (queuePeekNoncopy queue).1.toNat =
          some cells ∧
        (queueContents queue').take (queuePeekNoncopy queue).1.toNat = cells ∧
        ∀ m, m ≤ (queuePeekNoncopy queue).1 → (queueRelease queue' m).1 = m ∧
          queueContents (queueRelease queue' m).2 = (queueContents queue').drop m.toNat := by
  obtain ⟨h, queue, f, hexec, -, hq⟩ := queue_exec hsize buff hbuff ops
  obtain ⟨h', queue', f', hexec', hq', hext⟩ := producers_extend hsize hq hprod
  obtain ⟨hcount, hptr⟩ := peekNoncopy_eq hsize hq
  have hitems : f.contiguous ≤ f.items.length := Nat.min_le_left _ _
  have hkept : f'.items.take f.contiguous = f.items.take f.contiguous := hext.take_eq hitems
  refine ⟨h, queue, h', queue', hexec, hexec', f.items.take f.contiguous, ?_, ?_, ?_, ?_, ?_⟩
  · rw [List.length_take, Nat.min_eq_left hitems, hcount]
  · rw [hcount, hptr]
    exact readCells_items hq le_rfl
  · rw [hcount, hptr, ← hext.pos_eq, readCells_items hq' hext.contiguous_le, hkept]
  · rw [hq'.contents_eq, hcount, hkept]
  · intro m hm
    rw [UInt16.le_iff_toNat_le, hcount] at hm
    apply release_removes hsize hq'
    exact hm.trans (hitems.trans hext.items_prefix.length_le)

open Ctools.Library Ctools.Program Ctools.Analysis in
/-- A view of two bytes at the end of a block of four, which two producers then
fill. -/
theorem Ctools.Analysis.queue_view_survives_full :
    ∃ h queue h' queue', queueMachine.exec (queueInit [0, 0, 0, 0] 4)
        [.enqueue ⟨[1, 2, 3, 4], 4, by decide⟩, .release 2] = some (h, queue) ∧
      queueMachine.exec queue [.append 5, .enqueue ⟨[6], 1, by decide⟩] = some (h', queue') ∧
      ∃ cells, cells.length = (queuePeekNoncopy queue).1.toNat ∧
        readCells queue.buff (queuePeekNoncopy queue).2 (queuePeekNoncopy queue).1.toNat =
          some cells ∧
        readCells queue'.buff (queuePeekNoncopy queue).2 (queuePeekNoncopy queue).1.toNat =
          some cells ∧
        (queueContents queue').take (queuePeekNoncopy queue).1.toNat = cells ∧
        ∀ m, m ≤ (queuePeekNoncopy queue).1 → (queueRelease queue' m).1 = m ∧
          queueContents (queueRelease queue' m).2 = (queueContents queue').drop m.toNat :=
  queue_view_survives 4 (by decide) [0, 0, 0, 0] rfl _ _ (by
    intro op hop
    simp only [List.mem_cons, List.not_mem_nil, or_false] at hop
    rcases hop with rfl | rfl
    · exact .append 5
    · exact .enqueue _)
