import Ctools.Analysis.QueueView

/-!
# The bulk path agrees with the byte path

Two consumers empty a queue: one takes the bytes that `queue_peek_noncopy` shows
and releases them, round after round; the other calls `queue_get` until it
refuses.  Two producers fill it: one `queue_enqueue`, or a `queue_append` for each
byte.  Each is tied to the bounded buffer (`QueueHolds`), where the two of a pair
do the same; that two rounds are enough is `Fifo.contiguous_drop_contiguous`.
-/

set_option autoImplicit false

namespace Ctools.Analysis

open Ctools.Library Ctools.Program Ctools.Interface

/-- The consumer that peeks, takes the bytes it is shown and releases them, until
it is shown none; the result is what the rounds before took.  `fuel` bounds the
rounds. -/
def drainBulk : ℕ → Queue → Option (List (List UInt8) × Queue)
  | 0, _ => none
  | fuel + 1, queue => do
      let (n, ptr) := queuePeekNoncopy queue
      let cells ← readCells queue.buff ptr n.toNat
      let (_, queue) := queueRelease queue n
      if n = 0 then
        pure ([], queue)
      else do
        let (rounds, queue) ← drainBulk fuel queue
        pure (cells :: rounds, queue)

/-- The consumer that gets bytes until it is refused one.  `fuel` bounds the
calls. -/
def drainBytes : ℕ → Queue → UInt8 → Option (List UInt8 × Queue)
  | 0, _, _ => none
  | fuel + 1, queue, item => do
      let (ok, item, queue) ← queueGet queue item
      if ok then do
        let (items, queue) ← drainBytes fuel queue item
        pure (item :: items, queue)
      else
        pure ([], queue)

/-- The producer that appends byte by byte; the result is what each call answers. -/
def appendAll (queue : Queue) : List UInt8 → Option (List Bool × Queue)
  | [] => some ([], queue)
  | item :: items => do
      let (ok, queue) ← queueAppend queue item
      let (oks, queue) ← appendAll queue items
      pure (ok :: oks, queue)

variable {cap : ℕ} {queue : Queue} {f : Fifo UInt8 cap}

/-! ## The consumers -/

/-- A queue without items counts none. -/
theorem QueueHolds.num_zero (hq : QueueHolds queue f) (hnil : f.items = []) :
    queue.numItems = 0 := by
  have hnum := hq.num_eq
  rw [hnil, List.length_nil] at hnum
  exact UInt16.toNat_inj.mp hnum

/-- A queue with items in it has a position to read from. -/
theorem QueueHolds.pos_lt_of_ne (hq : QueueHolds queue f) (hne : f.items ≠ []) : f.pos < cap := by
  have hlen := List.length_pos_of_ne_nil hne
  have hle := f.items_le
  have hpos := hq.pos_lt
  omega

/-- The round that finds the queue empty is the last one. -/
theorem drainBulk_done (hcap : cap ≤ 32768) (hq : QueueHolds queue f) (hnil : f.items = [])
    (fuel : ℕ) :
    ∃ queue', drainBulk (fuel + 1) queue = some ([], queue') ∧ queue'.numItems = 0 := by
  obtain ⟨hcount, hptr⟩ := peekNoncopy_eq hcap hq
  have hnone : f.contiguous = 0 := by
    have := f.contiguous_le
    rw [hnil, List.length_nil] at this
    omega
  have hn : (queuePeekNoncopy queue).1 = 0 := by
    rw [hnone] at hcount
    exact UInt16.toNat_inj.mp hcount
  have hread := readCells_items hq (Nat.zero_le f.contiguous)
  obtain ⟨-, hafter⟩ := release_drops hcap hq (m := 0) (Nat.zero_le _)
  refine ⟨(queueRelease queue 0).2, ?_, hafter.num_zero ?_⟩
  · simp [drainBulk, hn, hptr, hread]
  · rw [Fifo.drop_items, hnil, List.drop_nil]

/-- Any other round takes the first piece. -/
theorem drainBulk_round (hcap : cap ≤ 32768) (hq : QueueHolds queue f) (hne : f.items ≠ []) :
    ∃ queue', QueueHolds queue' (f.drop f.contiguous) ∧
      ∀ fuel rounds last, drainBulk fuel queue' = some (rounds, last) →
        drainBulk (fuel + 1) queue = some (f.items.take f.contiguous :: rounds, last) := by
  obtain ⟨hcount, hptr⟩ := peekNoncopy_eq hcap hq
  have hsome := f.contiguous_pos (hq.pos_lt_of_ne hne) hne
  have hn : (queuePeekNoncopy queue).1 ≠ 0 := by
    intro hzero
    rw [hzero, UInt16.toNat_zero] at hcount
    omega
  obtain ⟨-, hafter⟩ := release_drops hcap hq (m := (queuePeekNoncopy queue).1)
    (hcount ▸ f.contiguous_le)
  rw [hcount] at hafter
  refine ⟨_, hafter, ?_⟩
  intro fuel rounds last hrest
  have hread := readCells_items hq (le_refl f.contiguous)
  simp [drainBulk, hcount, hptr, hread, hn, hrest]

/-- The bulk consumer ends after at most two rounds with something in them, and
has taken every item. -/
theorem drainBulk_items (hcap : cap ≤ 32768) (hq : QueueHolds queue f) :
    ∃ rounds, rounds.length ≤ 2 ∧ (∀ cells ∈ rounds, cells ≠ []) ∧ rounds.flatten = f.items ∧
      ∀ fuel, ∃ queue', drainBulk (fuel + 3) queue = some (rounds, queue') ∧
        queue'.numItems = 0 := by
  by_cases hne : f.items = []
  · refine ⟨[], Nat.zero_le 2, by simp, hne.symm, ?_⟩
    intro fuel
    exact drainBulk_done hcap hq hne (fuel + 2)
  have hpos := hq.pos_lt_of_ne hne
  have hpiece : f.items.take f.contiguous ≠ [] := by
    rw [Ne, List.take_eq_nil_iff, not_or]
    exact ⟨(f.contiguous_pos hpos hne).ne', hne⟩
  obtain ⟨queue₁, hq₁, hround₁⟩ := drainBulk_round hcap hq hne
  by_cases hne₁ : (f.drop f.contiguous).items = []
  · refine ⟨[f.items.take f.contiguous], Nat.le_succ 1, ?_, ?_, ?_⟩
    · simpa using hpiece
    · have hsplit := List.take_append_drop f.contiguous f.items
      rw [Fifo.drop_items] at hne₁
      rw [List.flatten_singleton]
      rwa [hne₁, List.append_nil] at hsplit
    · intro fuel
      obtain ⟨queue', hdone, hzero⟩ := drainBulk_done hcap hq₁ hne₁ (fuel + 1)
      exact ⟨queue', hround₁ _ _ _ hdone, hzero⟩
  -- the second piece is all that is left
  obtain ⟨queue₂, hq₂, hround₂⟩ := drainBulk_round hcap hq₁ hne₁
  have hall := f.contiguous_drop_contiguous hpos
  have hne₂ : ((f.drop f.contiguous).drop (f.drop f.contiguous).contiguous).items = [] := by
    rw [Fifo.drop_items, hall, List.drop_length]
  rw [hall, List.take_length] at hround₂
  refine ⟨[f.items.take f.contiguous, (f.drop f.contiguous).items], le_refl 2, ?_, ?_, ?_⟩
  · simpa using And.intro hpiece hne₁
  · rw [List.flatten_cons, List.flatten_singleton, Fifo.drop_items, List.take_append_drop]
  · intro fuel
    obtain ⟨queue', hdone, hzero⟩ := drainBulk_done hcap hq₂ hne₂ fuel
    exact ⟨queue', hround₁ _ _ _ (hround₂ _ _ _ hdone), hzero⟩

/-- `queue_get` refuses an empty queue.
SOURCE: queue.c:67-71 -/
theorem get_refuses (hq : QueueHolds queue f) (hnil : f.items = []) (item : UInt8) :
    queueGet queue item = some (false, item, queue) := by
  rw [queueGet, if_pos (hq.num_zero hnil)]

/-- `queue_get` takes the first byte.
SOURCE: queue.c:73-88 -/
theorem get_takes (hq : QueueHolds queue f) {first : UInt8} {rest : List UInt8}
    (hitems : f.items = first :: rest) (item : UInt8) :
    ∃ queue', queueGet queue item = some (true, first, queue') ∧ QueueHolds queue' (f.drop 1) := by
  obtain ⟨o, queue', f', hstep, hspec, hafter⟩ := get_step hq item
  simp only [fifoStep, hitems, Prod.mk.injEq] at hspec
  obtain ⟨rfl, rfl⟩ := hspec
  simp only [queueStep, Option.bind_eq_bind, Option.bind_eq_some_iff, Option.pure_def,
    Option.some.injEq, Prod.exists, Prod.mk.injEq, QueueOut.item.injEq] at hstep
  obtain ⟨ok, got, left, hget, ⟨rfl, rfl⟩, rfl⟩ := hstep
  exact ⟨left, hget, hafter⟩

/-- The byte consumer ends and has taken every item. -/
theorem drainBytes_items (hq : QueueHolds queue f) (item : UInt8) {fuel : ℕ}
    (hfuel : f.items.length < fuel) :
    ∃ queue', drainBytes fuel queue item = some (f.items, queue') ∧ queue'.numItems = 0 := by
  induction fuel generalizing queue f item with
  | zero => exact absurd hfuel (Nat.not_lt_zero _)
  | succ fuel ih =>
    cases hitems : f.items with
    | nil =>
      refine ⟨queue, ?_, hq.num_zero hitems⟩
      simp [drainBytes, get_refuses hq hitems]
    | cons first rest =>
      obtain ⟨queue₁, hget, hq₁⟩ := get_takes hq hitems item
      have hrest : (f.drop 1).items = rest := by
        rw [Fifo.drop_items, hitems, List.drop_one, List.tail_cons]
      have hless : (f.drop 1).items.length < fuel := by
        rw [hitems, List.length_cons] at hfuel
        rw [hrest]
        omega
      obtain ⟨queue', hdrain, hzero⟩ := ih hq₁ first hless
      rw [hrest] at hdrain
      refine ⟨queue', ?_, hzero⟩
      simp [drainBytes, hget, hdrain]

/-! ## The producers -/

/-- `queue_append` adds a byte for which there is room.
SOURCE: queue.c:25-59 -/
theorem append_puts (hcap : cap ≤ 32768) (hq : QueueHolds queue f) (item : UInt8)
    (hroom : [item].length ≤ f.room) :
    ∃ queue', queueAppend queue item = some (true, queue') ∧
      QueueHolds queue' (f.put [item] hroom) := by
  obtain ⟨o, queue', f', hstep, hspec, hafter⟩ := append_step hq (hq.sum_lt hcap) item
  rw [fifoStep, dif_pos hroom, Prod.mk.injEq] at hspec
  obtain ⟨rfl, rfl⟩ := hspec
  simp only [queueStep, Option.bind_eq_bind, Option.bind_eq_some_iff, Option.pure_def,
    Option.some.injEq, Prod.exists, Prod.mk.injEq, QueueOut.flag.injEq] at hstep
  obtain ⟨ok, left, happend, rfl, rfl⟩ := hstep
  exact ⟨left, happend, hafter⟩

/-- `queue_enqueue` runs, and where it returns the count it was given it has added
all the bytes.
SOURCE: queue.c:101-135 -/
theorem enqueue_puts (hcap : cap ≤ 32768) (hq : QueueHolds queue f) (arg : Extent) :
    ∃ n queue', queueEnqueue queue arg.data arg.size = some (n, queue') ∧
      (n = arg.size → ∃ hroom, QueueHolds queue' (f.put (arg.data.take arg.size.toNat) hroom)) := by
  obtain ⟨o, queue', f', hstep, hspec, hafter⟩ :=
    enqueue_step hq arg (fun _ => hq.sum_lt hcap)
  simp only [queueStep, Option.bind_eq_bind, Option.bind_eq_some_iff, Option.pure_def,
    Option.some.injEq, Prod.exists, Prod.mk.injEq] at hstep
  obtain ⟨n, left, henqueue, rfl, rfl⟩ := hstep
  refine ⟨n, left, henqueue, ?_⟩
  intro hall
  by_cases hroom : (arg.data.take arg.size.toNat).length ≤ f.room
  · rw [fifoStep, dif_pos hroom, Prod.mk.injEq] at hspec
    obtain ⟨-, rfl⟩ := hspec
    exact ⟨hroom, hafter⟩
  · -- a refusal returns 0, which is the count of no refused request
    rw [fifoStep, dif_neg hroom, Prod.mk.injEq, QueueOut.count.injEq, hall] at hspec
    rw [← hspec.1, List.take_zero, List.length_nil] at hroom
    exact absurd (Nat.zero_le _) hroom

/-- The byte producer adds bytes for which there is room. -/
theorem appendAll_puts (hcap : cap ≤ 32768) (hq : QueueHolds queue f) (data : List UInt8)
    (hroom : data.length ≤ f.room) :
    ∃ queue', appendAll queue data = some (List.replicate data.length true, queue') ∧
      QueueHolds queue' (f.put data hroom) := by
  induction data generalizing queue f with
  | nil =>
    have hsame : f.put [] hroom = f := by
      unfold Fifo.put
      simp only [List.append_nil]
    exact ⟨queue, rfl, hsame.symm ▸ hq⟩
  | cons item items ih =>
    rw [List.length_cons] at hroom
    have hfirst : [item].length ≤ f.room := by
      rw [List.length_singleton]
      omega
    obtain ⟨queue₁, happend, hq₁⟩ := append_puts hcap hq item hfirst
    have hrest : items.length ≤ (f.put [item] hfirst).room := by
      unfold Fifo.room at hroom ⊢
      rw [Fifo.put_items, List.length_append, List.length_singleton]
      omega
    obtain ⟨queue', hall, hq'⟩ := ih hq₁ hrest
    refine ⟨queue', ?_, ?_⟩
    · simp [appendAll, happend, hall, List.replicate_succ]
    · rwa [Fifo.put_put f [item] items hfirst hrest hroom] at hq'

end Ctools.Analysis

open Ctools.Library Ctools.Program Ctools.Analysis in
/-- **Bulk and byte paths agree.**  In every state a queue of capacity up to 32768
reaches, the bulk consumer ends after at most two rounds with something in them
and has taken, byte for byte, what the byte consumer gets until it is refused;
both leave the queue empty.  And where `queue_enqueue` takes all of `data`, an
append for each byte of it succeeds and leaves the same contents.
SOURCE: queue.c:25-135, queue.c:166-210 -/
theorem Ctools.Analysis.queue_bulk_agrees (size : UInt16) (hsize : size.toNat ≤ 32768)
    (buff : List UInt8) (hbuff : buff.length = size.toNat) (ops : List QueueOp) :
    ∃ h queue, queueMachine.exec (queueInit buff size) ops = some (h, queue) ∧
      (∃ rounds, rounds.length ≤ 2 ∧ (∀ cells ∈ rounds, cells ≠ []) ∧
        (∀ fuel, 3 ≤ fuel → ∃ bulk, drainBulk fuel queue = some (rounds, bulk) ∧
          bulk.numItems = 0) ∧
        ∀ item fuel, queue.numItems.toNat < fuel →
          ∃ byte, drainBytes fuel queue item = some (rounds.flatten, byte) ∧
            byte.numItems = 0) ∧
      ∀ (data : List UInt8) (n : UInt16), data.length = n.toNat →
        ∃ r bulk, queueEnqueue queue data n = some (r, bulk) ∧
          (r = n → ∃ byte, appendAll queue data = some (List.replicate n.toNat true, byte) ∧
            queueContents byte = queueContents bulk) := by
  obtain ⟨h, queue, f, hexec, -, hq⟩ := queue_exec hsize buff hbuff ops
  refine ⟨h, queue, hexec, ?_, ?_⟩
  · obtain ⟨rounds, htwo, hsome, hitems, hbulk⟩ := drainBulk_items hsize hq
    refine ⟨rounds, htwo, hsome, ?_, ?_⟩
    · intro fuel hfuel
      obtain ⟨more, rfl⟩ := Nat.exists_eq_add_of_le' hfuel
      exact hbulk more
    · intro item fuel hfuel
      rw [hitems]
      rw [hq.num_eq] at hfuel
      exact drainBytes_items hq item hfuel
  · intro data n hdata
    obtain ⟨r, bulk, henqueue, hputs⟩ := enqueue_puts hsize hq ⟨data, n, hdata.ge⟩
    refine ⟨r, bulk, henqueue, ?_⟩
    intro hall
    obtain ⟨hroom, hq'⟩ := hputs hall
    have htake : data.take n.toNat = data := by
      rw [← hdata, List.take_length]
    simp only [htake] at hroom hq'
    obtain ⟨byte, happend, hbyte⟩ := appendAll_puts hsize hq data hroom
    rw [hdata] at happend
    exact ⟨byte, happend, by rw [hbyte.contents_eq, hq'.contents_eq]⟩

open Ctools.Library Ctools.Program Ctools.Analysis in
/-- The two paths on a block of four whose three items wrap around its end. -/
theorem Ctools.Analysis.queue_bulk_agrees_four :
    ∃ h queue, queueMachine.exec (queueInit [0, 0, 0, 0] 4)
        [.enqueue ⟨[1, 2, 3, 4], 4, by decide⟩, .release 2, .append 5] = some (h, queue) ∧
      (∃ rounds, rounds.length ≤ 2 ∧ (∀ cells ∈ rounds, cells ≠ []) ∧
        (∀ fuel, 3 ≤ fuel → ∃ bulk, drainBulk fuel queue = some (rounds, bulk) ∧
          bulk.numItems = 0) ∧
        ∀ item fuel, queue.numItems.toNat < fuel →
          ∃ byte, drainBytes fuel queue item = some (rounds.flatten, byte) ∧
            byte.numItems = 0) ∧
      ∀ (data : List UInt8) (n : UInt16), data.length = n.toNat →
        ∃ r bulk, queueEnqueue queue data n = some (r, bulk) ∧
          (r = n → ∃ byte, appendAll queue data = some (List.replicate n.toNat true, byte) ∧
            queueContents byte = queueContents bulk) :=
  queue_bulk_agrees 4 (by decide) [0, 0, 0, 0] rfl _
