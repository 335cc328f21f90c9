import Ctools.Interface.SemaphoreSpec
import Ctools.Analysis.ProtothreadResume

/-!
# Semaphores between protothreads

The count of a semaphore and the number of threads blocked inside the sections it guards come to
the same at all times, in whatever order the threads are called and however long they block in
a section.  A coroutine is between two bodies it has still to run, or before, in or behind the
operation of the semaphore (`SemGoing`); one step keeps this, a call keeps it, and with the
simulation it is kept of the protothreads, of which one is in a section when its local
continuation is a line of one.
-/

set_option autoImplicit false

namespace Ctools.Analysis

open StateTransition Ctools.Library Ctools.Program Ctools.Interface

variable {σ : Type}

/-! ## Bodies that spare the count -/

/-- What a coroutine is paused at leaves the count as it is. -/
def SparesPause (sem : PtSem σ) : Pause σ → Prop
  | .wait _ c => SparesCond sem c
  | .yield _ => True
  | .yieldUntil _ c => SparesCond sem c

/-- What the first step of a body comes to that leaves the count as it is. -/
inductive SparingStep (sem : PtSem σ) (b : PtBody σ) (rest : List (PtBody σ)) (s : σ) :
    CoRun σ → Prop
  | on (bs : List (PtBody σ)) (s' : σ) (hcount : sem.count s' = sem.count s)
      (hbs : ∀ b' ∈ bs, Spares sem b' ∧ (Straight b → Straight b') ∧ ∀ l ∈ b'.lines, l ∈ b.lines) :
      SparingStep sem b rest s (.going (bs ++ rest) s')
  | check (pause : Pause σ) (hline : pause.line ∈ b.lines) (hspares : SparesPause sem pause) :
      SparingStep sem b rest s (.resuming pause rest s)
  | block (status : PtStatus) (pause : Pause σ) (hline : pause.line ∈ b.lines)
      (hspares : SparesPause sem pause) :
      SparingStep sem b rest s (.back status (.paused pause rest) s)
  | leave (status : PtStatus) (h : ¬ Straight b) : SparingStep sem b rest s (.back status .fresh s)

/-- A step of code that spares the semaphore. -/
theorem sparingStep_of_step {sem : PtSem σ} {b : PtBody σ} {rest : List (PtBody σ)} {s : σ}
    {run : CoRun σ} (hspares : Spares sem b)
    (hstep : CoRun.step (.going (b :: rest) s) = some run) : SparingStep sem b rest s run := by
  cases b with
  | act f =>
    cases hstep
    exact .on [] (f s) (hspares s) (by simp)
  | seq a b =>
    cases hstep
    refine .on [a, b] s rfl ?_
    rintro b' hb'
    rcases List.mem_pair.mp hb' with rfl | rfl
    · exact ⟨hspares.1, And.left, fun l => List.mem_append_left _⟩
    · exact ⟨hspares.2, And.right, fun l => List.mem_append_right _⟩
  | ite c a b =>
    obtain ⟨⟨taken, s'⟩, hc, rfl⟩ := Option.map_eq_some_iff.mp hstep
    refine .on [if taken then a else b] s' (hspares.1 s taken s' hc) ?_
    rintro b' hb'
    obtain rfl := List.mem_singleton.mp hb'
    cases taken with
    | true => exact ⟨hspares.2.1, And.left, fun l => List.mem_append_left _⟩
    | false => exact ⟨hspares.2.2, And.right, fun l => List.mem_append_right _⟩
  | loop c a =>
    obtain ⟨⟨taken, s'⟩, hc, rfl⟩ := Option.map_eq_some_iff.mp hstep
    cases taken with
    | true =>
      refine .on [a, .loop c a] s' (hspares.1 s true s' hc) ?_
      rintro b' hb'
      rcases List.mem_pair.mp hb' with rfl | rfl
      · exact ⟨hspares.2, id, fun l => id⟩
      · exact ⟨hspares, id, fun l => id⟩
    | false => exact .on [] s' (hspares.1 s false s' hc) (by simp)
  | waitUntil line c =>
    cases hstep
    exact .check (.wait line c) (List.mem_singleton.mpr rfl) hspares
  | yield line =>
    cases hstep
    exact .block .yielded (.yield line) (List.mem_singleton.mpr rfl) trivial
  | yieldUntil line c =>
    cases hstep
    exact .block .yielded (.yieldUntil line c) (List.mem_singleton.mpr rfl) hspares
  | restart =>
    cases hstep
    exact .leave .waiting id
  | exit =>
    cases hstep
    exact .leave .exited id

/-- What a coroutine does when it is called comes to going on, or to being paused as before. -/
theorem resuming_step {sem : PtSem σ} {pause : Pause σ} {rest : List (PtBody σ)} {s : σ}
    {run : CoRun σ} (hspares : SparesPause sem pause)
    (hstep : CoRun.step (.resuming pause rest s) = some run) :
    ∃ s', sem.count s' = sem.count s ∧
      (run = .going rest s' ∨ ∃ status, run = .back status (.paused pause rest) s') := by
  cases pause with
  | wait line c =>
    obtain ⟨⟨met, s'⟩, hc, rfl⟩ := Option.map_eq_some_iff.mp hstep
    refine ⟨s', hspares s met s' hc, ?_⟩
    cases met with
    | true => exact .inl rfl
    | false => exact .inr ⟨.waiting, rfl⟩
  | yield line =>
    cases hstep
    exact ⟨s, rfl, .inl rfl⟩
  | yieldUntil line c =>
    obtain ⟨⟨met, s'⟩, hc, rfl⟩ := Option.map_eq_some_iff.mp hstep
    refine ⟨s', hspares s met s' hc, ?_⟩
    cases met with
    | true => exact .inl rfl
    | false => exact .inr ⟨.yielded, rfl⟩

/-! ## Where a coroutine is -/

/-- The condition of `PT_SEM_WAIT`. -/
def semFree (sem : PtSem σ) (s : σ) : Option (Bool × σ) := some (decide (sem.count s > 0), s)

/-- The decrement of `PT_SEM_WAIT`. -/
def semTake (sem : PtSem σ) : PtBody σ := .act fun s => sem.setCount (sem.count s - 1) s

/-- A body outside all sections; the lines of the sections are `inside`. -/
def Outer (sem : PtSem σ) (inside : List ℕ) (b : PtBody σ) : Prop :=
  ∃ text : Sectioned σ, b = text.body sem ∧ text.Disciplined sem ∧
    (∀ l ∈ text.outside, l ∉ inside) ∧ ∀ l ∈ text.inside, l ∈ inside

/-- A body of a section. -/
def Inner (sem : PtSem σ) (inside : List ℕ) (b : PtBody σ) : Prop :=
  Spares sem b ∧ Straight b ∧ ∀ l ∈ b.lines, l ∈ inside

/-- What a coroutine that is going has still to do, with the count at `n`: the count and whether
it is in a section come to `total`. -/
inductive SemGoing (sem : PtSem σ) (inside : List ℕ) (total : ℕ) : List (PtBody σ) → ℕ → Prop
  | outer {rest : List (PtBody σ)} (hrest : ∀ b ∈ rest, Outer sem inside b) :
      SemGoing sem inside total rest total
  | before {line : ℕ} {b : PtBody σ} {rest : List (PtBody σ)} (hline : line ∉ inside)
      (hb : Inner sem inside b) (hrest : ∀ b ∈ rest, Outer sem inside b) :
      SemGoing sem inside total (ptSemWait line sem :: .seq b (ptSemSignal sem) :: rest) total
  | waiting {line : ℕ} {b : PtBody σ} {rest : List (PtBody σ)} (hline : line ∉ inside)
      (hb : Inner sem inside b) (hrest : ∀ b ∈ rest, Outer sem inside b) :
      SemGoing sem inside total
        (.waitUntil line (semFree sem) :: semTake sem :: .seq b (ptSemSignal sem) :: rest) total
  | taking {b : PtBody σ} {rest : List (PtBody σ)} (hpos : 0 < total)
      (hb : Inner sem inside b) (hrest : ∀ b ∈ rest, Outer sem inside b) :
      SemGoing sem inside total (semTake sem :: .seq b (ptSemSignal sem) :: rest) total
  | entered {b : PtBody σ} {rest : List (PtBody σ)} {n : ℕ} (hn : n + 1 = total)
      (hb : Inner sem inside b) (hrest : ∀ b ∈ rest, Outer sem inside b) :
      SemGoing sem inside total (.seq b (ptSemSignal sem) :: rest) n
  | inner {bs rest : List (PtBody σ)} {n : ℕ} (hn : n + 1 = total)
      (hbs : ∀ b ∈ bs, Inner sem inside b) (hrest : ∀ b ∈ rest, Outer sem inside b) :
      SemGoing sem inside total (bs ++ ptSemSignal sem :: rest) n

/-- Where a paused coroutine is. -/
inductive SemPaused (sem : PtSem σ) (inside : List ℕ) : Pause σ → List (PtBody σ) → Prop
  | outer {pause : Pause σ} {rest : List (PtBody σ)} (hline : pause.line ∉ inside)
      (hspares : SparesPause sem pause) (hrest : ∀ b ∈ rest, Outer sem inside b) :
      SemPaused sem inside pause rest
  | waiting {line : ℕ} {b : PtBody σ} {rest : List (PtBody σ)} (hline : line ∉ inside)
      (hb : Inner sem inside b) (hrest : ∀ b ∈ rest, Outer sem inside b) :
      SemPaused sem inside (.wait line (semFree sem))
        (semTake sem :: .seq b (ptSemSignal sem) :: rest)
  | inner {pause : Pause σ} {bs rest : List (PtBody σ)} (hline : pause.line ∈ inside)
      (hspares : SparesPause sem pause) (hbs : ∀ b ∈ bs, Inner sem inside b)
      (hrest : ∀ b ∈ rest, Outer sem inside b) :
      SemPaused sem inside pause (bs ++ ptSemSignal sem :: rest)

/-- A coroutine between two calls. -/
def SemParked (sem : PtSem σ) (inside : List ℕ) : Coroutine σ → Prop
  | .fresh => True
  | .paused pause rest => SemPaused sem inside pause rest

/-- How many it is in a section. -/
def semHeld (inside : List ℕ) : Coroutine σ → ℕ
  | .fresh => 0
  | .paused pause _ => if pause.line ∈ inside then 1 else 0

/-- A coroutine in a call. -/
def SemRun (sem : PtSem σ) (inside : List ℕ) (total : ℕ) : CoRun σ → Prop
  | .going rest s => SemGoing sem inside total rest (sem.count s).toNat
  | .resuming pause rest s => SemPaused sem inside pause rest ∧
      (sem.count s).toNat + semHeld inside (.paused pause rest) = total
  | .back _ next s => SemParked sem inside next ∧
      (sem.count s).toNat + semHeld inside next = total

/-! ## One step -/

variable {sem : PtSem σ} {inside : List ℕ} {total : ℕ} {rest : List (PtBody σ)} {s : σ}
  {run : CoRun σ}

/-- Code without a section. -/
theorem outer_plain {b : PtBody σ} (hspares : Spares sem b) (hlines : ∀ l ∈ b.lines, l ∉ inside) :
    Outer sem inside b := ⟨.plain b, rfl, hspares, hlines, by simp [Sectioned.inside]⟩

/-- A thread that waits in a section holds the semaphore once. -/
theorem semHeld_inside {pause : Pause σ} (hline : pause.line ∈ inside) :
    semHeld inside (.paused pause rest) = 1 := if_pos hline

/-- A thread that waits outside holds it not at all. -/
theorem semHeld_outside {pause : Pause σ} (hline : pause.line ∉ inside) :
    semHeld inside (.paused pause rest) = 0 := if_neg hline

/-- A step outside all sections. -/
theorem outer_step (hall : ∀ b ∈ rest, Outer sem inside b) (htotal : (sem.count s).toNat = total)
    (hstep : CoRun.step (.going rest s) = some run) : SemRun sem inside total run := by
  cases rest with
  | nil =>
    cases hstep
    exact ⟨trivial, htotal⟩
  | cons b rest =>
    obtain ⟨⟨text, rfl, hdisciplined, houtside, hinside⟩, hrest⟩ := List.forall_mem_cons.mp hall
    cases text with
    | plain b =>
      have hcases := sparingStep_of_step hdisciplined hstep
      cases hcases with
      | on bs s' hcount hbs =>
        show SemGoing sem inside total (bs ++ rest) (sem.count s').toNat
        rw [hcount, htotal]
        refine .outer (List.forall_mem_append.mpr ⟨fun b' hb' => ?_, hrest⟩)
        obtain ⟨hspares, -, hlines⟩ := hbs b' hb'
        exact outer_plain hspares fun l hl => houtside l (hlines l hl)
      | check pause hline hspares =>
        have hout := houtside _ hline
        exact ⟨.outer hout hspares hrest, by rw [semHeld_outside hout, htotal, Nat.add_zero]⟩
      | block status pause hline hspares =>
        have hout := houtside _ hline
        exact ⟨.outer hout hspares hrest, by rw [semHeld_outside hout, htotal, Nat.add_zero]⟩
      | leave status h => exact ⟨trivial, htotal⟩
    | critical line b =>
      cases hstep
      show SemGoing sem inside total _ (sem.count s).toNat
      rw [htotal]
      exact .before (houtside line (List.mem_singleton.mpr rfl))
        ⟨hdisciplined.1, hdisciplined.2, hinside⟩ hrest
    | seq a b =>
      cases hstep
      show SemGoing sem inside total _ (sem.count s).toNat
      rw [htotal]
      refine .outer (List.forall_mem_cons.mpr ⟨⟨a, rfl, hdisciplined.1, ?_, ?_⟩,
        List.forall_mem_cons.mpr ⟨⟨b, rfl, hdisciplined.2, ?_, ?_⟩, hrest⟩⟩)
      · exact fun l hl => houtside l (List.mem_append_left _ hl)
      · exact fun l hl => hinside l (List.mem_append_left _ hl)
      · exact fun l hl => houtside l (List.mem_append_right _ hl)
      · exact fun l hl => hinside l (List.mem_append_right _ hl)
    | ite c a b =>
      obtain ⟨⟨taken, s'⟩, hc, rfl⟩ := Option.map_eq_some_iff.mp hstep
      show SemGoing sem inside total _ (sem.count s').toNat
      rw [hdisciplined.1 s taken s' hc, htotal]
      refine .outer (List.forall_mem_cons.mpr ⟨?_, hrest⟩)
      cases taken with
      | true =>
        exact ⟨a, rfl, hdisciplined.2.1, fun l hl => houtside l (List.mem_append_left _ hl),
          fun l hl => hinside l (List.mem_append_left _ hl)⟩
      | false =>
        exact ⟨b, rfl, hdisciplined.2.2, fun l hl => houtside l (List.mem_append_right _ hl),
          fun l hl => hinside l (List.mem_append_right _ hl)⟩
    | loop c a =>
      obtain ⟨⟨taken, s'⟩, hc, rfl⟩ := Option.map_eq_some_iff.mp hstep
      have hcount := hdisciplined.1 s taken s' hc
      cases taken with
      | true =>
        show SemGoing sem inside total _ (sem.count s').toNat
        rw [hcount, htotal]
        exact .outer (List.forall_mem_cons.mpr ⟨⟨a, rfl, hdisciplined.2, houtside, hinside⟩,
          List.forall_mem_cons.mpr ⟨⟨.loop c a, rfl, hdisciplined, houtside, hinside⟩, hrest⟩⟩)
      | false =>
        show SemGoing sem inside total _ (sem.count s').toNat
        rw [hcount, htotal]
        exact .outer hrest

/-- A step in a section. -/
theorem inner_step (hlawful : ∀ c s, sem.count (sem.setCount c s) = c) (hsmall : total < 2 ^ 32)
    {bs : List (PtBody σ)} (hbs : ∀ b ∈ bs, Inner sem inside b)
    (hrest : ∀ b ∈ rest, Outer sem inside b) (htotal : (sem.count s).toNat + 1 = total)
    (hstep : CoRun.step (.going (bs ++ ptSemSignal sem :: rest) s) = some run) :
    SemRun sem inside total run := by
  cases bs with
  | nil =>
    cases hstep
    show SemGoing sem inside total rest (sem.count (sem.setCount (sem.count s + 1) s)).toNat
    have hcount : (sem.count s + 1).toNat = total := by
      rw [BitVec.toNat_add]
      show ((sem.count s).toNat + 1) % 2 ^ 32 = total
      omega
    rw [hlawful, hcount]
    exact .outer hrest
  | cons b bs =>
    obtain ⟨⟨hspares, hstraight, hlines⟩, hbs⟩ := List.forall_mem_cons.mp hbs
    have hcases := sparingStep_of_step hspares hstep
    cases hcases with
    | on bs' s' hcount hbs' =>
      show SemGoing sem inside total _ (sem.count s').toNat
      have happend : bs' ++ (bs ++ ptSemSignal sem :: rest) =
          (bs' ++ bs) ++ ptSemSignal sem :: rest := by simp
      rw [hcount, List.append_eq, happend]
      refine .inner htotal (List.forall_mem_append.mpr ⟨fun b' hb' => ?_, hbs⟩) hrest
      obtain ⟨hspares', hstraight', hlines'⟩ := hbs' b' hb'
      exact ⟨hspares', hstraight' hstraight, fun l hl => hlines l (hlines' l hl)⟩
    | check pause hline hspares' =>
      have hin := hlines _ hline
      exact ⟨.inner hin hspares' hbs hrest, by rw [semHeld_inside hin, htotal]⟩
    | block status pause hline hspares' =>
      have hin := hlines _ hline
      exact ⟨.inner hin hspares' hbs hrest, by rw [semHeld_inside hin, htotal]⟩
    | leave status h => exact absurd hstraight h

/-- **One step** keeps where a coroutine is, and the count with it. -/
theorem semRun_step (hlawful : ∀ c s, sem.count (sem.setCount c s) = c) (hsmall : total < 2 ^ 32)
    {run run' : CoRun σ} (h : SemRun sem inside total run) (hstep : CoRun.step run = some run') :
    SemRun sem inside total run' := by
  cases run with
  | back status next s => cases hstep
  | resuming pause rest s =>
    obtain ⟨hpaused, htotal⟩ := h
    cases hpaused with
    | outer hline hspares hrest =>
      rw [semHeld_outside hline, Nat.add_zero] at htotal
      obtain ⟨s', hcount, rfl | ⟨status, rfl⟩⟩ := resuming_step hspares hstep
      · show SemGoing sem inside total rest (sem.count s').toNat
        rw [hcount, htotal]
        exact .outer hrest
      · exact ⟨.outer hline hspares hrest, by rw [hcount, semHeld_outside hline, htotal]; rfl⟩
    | @waiting line b rest hline hb hrest =>
      have hout : (Pause.wait line (semFree sem)).line ∉ inside := hline
      rw [semHeld_outside hout, Nat.add_zero] at htotal
      by_cases hpos : sem.count s > 0
      · simp only [CoRun.step, semFree, hpos, decide_true, Option.map_some, if_true] at hstep
        cases hstep
        show SemGoing sem inside total _ (sem.count s).toNat
        rw [htotal]
        exact .taking (htotal ▸ hpos) hb hrest
      · simp only [CoRun.step, semFree, hpos, decide_false, Option.map_some] at hstep
        cases hstep
        exact ⟨.waiting hline hb hrest, by rw [semHeld_outside hout, htotal]; rfl⟩
    | @inner _ bs rest hline hspares hbs hrest =>
      rw [semHeld_inside hline] at htotal
      obtain ⟨s', hcount, rfl | ⟨status, rfl⟩⟩ := resuming_step hspares hstep
      · show SemGoing sem inside total _ (sem.count s').toNat
        rw [hcount]
        exact .inner htotal hbs hrest
      · exact ⟨.inner hline hspares hbs hrest, by rw [hcount, semHeld_inside hline, htotal]⟩
  | going rest s =>
    replace h : SemGoing sem inside total rest (sem.count s).toNat := h
    generalize hn : (sem.count s).toNat = n at h
    cases h with
    | outer hrest => exact outer_step hrest hn hstep
    | before hline hb hrest =>
      cases hstep
      show SemGoing sem inside total _ (sem.count s).toNat
      rw [hn]
      exact .waiting hline hb hrest
    | waiting hline hb hrest =>
      cases hstep
      exact ⟨.waiting hline hb hrest, by rw [semHeld_outside hline, hn]; rfl⟩
    | taking hpos hb hrest =>
      cases hstep
      show SemGoing sem inside total _ (sem.count (sem.setCount (sem.count s - 1) s)).toNat
      have hcount : (sem.count s - 1).toNat = (sem.count s).toNat - 1 :=
        BitVec.toNat_sub_of_le (show 1 ≤ (sem.count s).toNat by omega)
      rw [hlawful, hcount]
      exact .entered (by omega) hb hrest
    | @entered b rest _ htotal hb hrest =>
      cases hstep
      show SemGoing sem inside total _ (sem.count s).toNat
      rw [hn]
      exact .inner htotal (List.forall_mem_singleton.mpr hb) hrest
    | inner htotal hbs hrest => exact inner_step hlawful hsmall hbs hrest (by omega) hstep

/-! ## Calls -/

/-- Where a call begins. -/
theorem semRun_start {text : Sectioned σ} {co : Coroutine σ} (hdisciplined : text.Disciplined sem)
    (hlines : ∀ l ∈ text.outside, l ∉ text.inside) (hparked : SemParked sem text.inside co)
    (htotal : (sem.count s).toNat + semHeld text.inside co = total) :
    SemRun sem text.inside total (CoRun.start (text.body sem) co s) := by
  cases co with
  | fresh =>
    obtain rfl : (sem.count s).toNat = total := htotal
    exact .outer (List.forall_mem_singleton.mpr ⟨text, rfl, hdisciplined, hlines, fun l hl => hl⟩)
  | paused pause rest => exact ⟨hparked, htotal⟩

/-- **One call** leaves the count and whether the coroutine is in a section at the same sum. -/
theorem coCall_counts (hlawful : ∀ c s, sem.count (sem.setCount c s) = c) {text : Sectioned σ}
    {co co' : Coroutine σ} {s' : σ} {status : PtStatus} (hdisciplined : text.Disciplined sem)
    (hlines : ∀ l ∈ text.outside, l ∉ text.inside) (hparked : SemParked sem text.inside co)
    (htotal : (sem.count s).toNat + semHeld text.inside co = total) (hsmall : total < 2 ^ 32)
    (hcall : ∃ fuel, coCall fuel (text.body sem) co s = some (status, co', s')) :
    SemParked sem text.inside co' ∧ (sem.count s').toNat + semHeld text.inside co' = total := by
  have hruns : ∀ run, Reaches CoRun.step (CoRun.start (text.body sem) co s) run →
      SemRun sem text.inside total run := by
    intro run hreaches
    induction hreaches with
    | refl => exact semRun_start hdisciplined hlines hparked htotal
    | tail _ hstep ih => exact semRun_step hlawful hsmall ih hstep
  exact hruns _ (mem_eval.mp (exists_coCall_iff.mp hcall)).1

/-! ## Threads -/

variable {ι : Type} [Fintype ι] [DecidableEq ι]

/-- How many threads are blocked in a section. -/
def threadsInside (texts : ι → Sectioned σ) (lcs : ι → BitVec 16) : ℕ :=
  (Finset.univ.filter fun i => (lcs i).toNat ∈ (texts i).inside).card

omit [DecidableEq ι] in
/-- The threads in a section, one by one. -/
theorem threadsInside_eq_sum (texts : ι → Sectioned σ) (lcs : ι → BitVec 16) :
    threadsInside texts lcs = ∑ i, if (lcs i).toNat ∈ (texts i).inside then 1 else 0 :=
  Finset.card_filter _ _

/-- What one thread does to the number. -/
theorem threadsInside_update (texts : ι → Sectioned σ) (lcs : ι → BitVec 16) (i : ι)
    (lc : BitVec 16) :
    ∃ others, threadsInside texts lcs =
        others + (if (lcs i).toNat ∈ (texts i).inside then 1 else 0) ∧
      threadsInside texts (Function.update lcs i lc) =
        others + (if lc.toNat ∈ (texts i).inside then 1 else 0) := by
  refine ⟨∑ j ∈ Finset.univ.erase i, if (lcs j).toNat ∈ (texts j).inside then 1 else 0, ?_, ?_⟩
  · rw [threadsInside_eq_sum, Finset.sum_erase_add _ _ (Finset.mem_univ i)]
  · rw [threadsInside_eq_sum, ← Finset.sum_erase_add _ _ (Finset.mem_univ i),
      Function.update_self]
    congr 1
    refine Finset.sum_congr rfl fun j hj => ?_
    rw [Function.update_of_ne (Finset.ne_of_mem_erase hj)]

/-- The lines of a text are those outside and inside its sections. -/
theorem lines_perm (sem : PtSem σ) (text : Sectioned σ) :
    (text.body sem).lines.Perm (text.outside ++ text.inside) := by
  induction text with
  | plain b => simp [Sectioned.body, Sectioned.outside, Sectioned.inside]
  | critical line b =>
    simp [Sectioned.body, Sectioned.outside, Sectioned.inside, PtBody.lines, ptSemWait, ptSemSignal]
  | seq a b iha ihb =>
    simp only [Sectioned.body, Sectioned.outside, Sectioned.inside, PtBody.lines]
    refine (iha.append ihb).trans ?_
    simp only [List.append_assoc]
    exact List.Perm.append_left _ (List.perm_append_comm_assoc _ _ _)
  | ite c a b iha ihb =>
    simp only [Sectioned.body, Sectioned.outside, Sectioned.inside, PtBody.lines]
    refine (iha.append ihb).trans ?_
    simp only [List.append_assoc]
    exact List.Perm.append_left _ (List.perm_append_comm_assoc _ _ _)
  | loop c a ih => exact ih

/-- A line inside a section is none outside. -/
theorem outside_not_inside {text : Sectioned σ} (h : WellNumbered (text.body sem).lines) :
    ∀ l ∈ text.outside, l ∉ text.inside := by
  have hnodup := (lines_perm sem text).nodup_iff.mp h.nodup
  exact fun l hl hl' => List.disjoint_of_nodup_append hnodup hl hl'

/-- A thread that was not called yet is in no section. -/
theorem inside_pos {text : Sectioned σ} (h : WellNumbered (text.body sem).lines) :
    0 ∉ text.inside := fun hzero =>
  absurd (h.positive 0 ((lines_perm sem text).mem_iff.mpr (List.mem_append_right _ hzero)))
    (Nat.lt_irrefl 0)

/-- Whether a protothread is in a section is seen from its local continuation. -/
theorem semHeld_eq {text : Sectioned σ} (h : WellNumbered (text.body sem).lines)
    {co : Coroutine σ} {lc : BitVec 16} (hco : Continues (text.body sem) co lc) :
    semHeld text.inside co = if lc.toNat ∈ text.inside then 1 else 0 := by
  cases co with
  | fresh =>
    obtain rfl : lc = 0 := hco
    exact (if_neg (inside_pos h)).symm
  | paused pause rest => rw [hco.2.1, semHeld]

/-- The threads are where coroutines are, and the count and the threads in sections come to
`total`. -/
def SemSystem (sem : PtSem σ) (texts : ι → Sectioned σ) (total : ℕ)
    (place : (ι → BitVec 16) × σ) : Prop :=
  (∀ i, ∃ co, Continues ((texts i).body sem) co (place.1 i) ∧ SemParked sem (texts i).inside co) ∧
    (sem.count place.2).toNat + threadsInside texts place.1 = total

/-- **One call of one thread** keeps it. -/
theorem semSystem_step (hlawful : ∀ c s, sem.count (sem.setCount c s) = c)
    {texts : ι → Sectioned σ} (hdisciplined : ∀ i, (texts i).Disciplined sem)
    (hnumbered : ∀ i, WellNumbered ((texts i).body sem).lines) (hsmall : total < 2 ^ 32)
    {fuel : ℕ} {place place' : (ι → BitVec 16) × σ} {i : ι} {f : ℕ}
    (h : SemSystem sem texts total place)
    (hstep : (protothreads (fun i => (texts i).body sem) fuel).step place i = some (f, place')) :
    SemSystem sem texts total place' := by
  obtain ⟨hthreads, htotal⟩ := h
  obtain ⟨⟨f', lc', s'⟩, hcall, heq⟩ := Option.map_eq_some_iff.mp hstep
  cases heq
  obtain ⟨co, hco, hparked⟩ := hthreads i
  obtain ⟨others, hbefore, hafter⟩ := threadsInside_update texts place.1 i lc'
  obtain ⟨status, co', hcoCall, -, hco'⟩ := coCall_of_ptCall (hnumbered i) hco ⟨fuel, hcall⟩
  have hheld := semHeld_eq (hnumbered i) hco
  have hheld' := semHeld_eq (hnumbered i) hco'
  obtain ⟨hparked', hcount⟩ := coCall_counts hlawful (hdisciplined i)
    (outside_not_inside (hnumbered i)) hparked rfl (by omega) hcoCall
  refine ⟨fun j => ?_, ?_⟩
  · by_cases hj : j = i
    · subst hj
      exact ⟨co', by simpa using hco', hparked'⟩
    · obtain ⟨other, hother⟩ := hthreads j
      exact ⟨other, by simpa [Function.update_of_ne hj] using hother⟩
  · show (sem.count s').toNat + threadsInside texts (Function.update place.1 i lc') = total
    omega

end Ctools.Analysis

open Ctools.Library Ctools.Program Ctools.Interface in
/-- **Semaphores count the threads inside**: of any number of protothreads that use a semaphore
only to guard sections, in whatever order they are called and however often they block in a
section, the count and the number of threads blocked in a section always come to the count at
the start; so with a count of one, no two threads are ever in one. -/
theorem Ctools.Analysis.semaphore_counts {σ ι : Type} [Fintype ι] [DecidableEq ι]
    {sem : PtSem σ} {texts : ι → Sectioned σ} (hlawful : ∀ c s, sem.count (sem.setCount c s) = c)
    (hdisciplined : ∀ i, (texts i).Disciplined sem)
    (hnodup : ∀ i, ((texts i).body sem).lines.Nodup)
    (hlines : ∀ i, ∀ line ∈ ((texts i).body sem).lines, 0 < line ∧ line < 65536)
    {fuel : ℕ} {s₀ : σ} {h : List (ι × ℕ)} {place : (ι → BitVec 16) × σ}
    (hrun : (protothreads (fun i => (texts i).body sem) fuel).Run Machine.anyStep
      (fun _ => 0, s₀) h place) :
    (sem.count place.2).toNat +
        (Finset.univ.filter fun i => (place.1 i).toNat ∈ (texts i).inside).card =
        (sem.count s₀).toNat ∧
      (sem.count s₀ = 1 → ∀ i j, (place.1 i).toNat ∈ (texts i).inside →
        (place.1 j).toNat ∈ (texts j).inside → i = j) := by
  have hnumbered : ∀ i, Ctools.Analysis.WellNumbered ((texts i).body sem).lines := fun i =>
    ⟨hnodup i, fun line hl => (hlines i line hl).1, fun line hl => (hlines i line hl).2⟩
  have hsystem : Ctools.Analysis.SemSystem sem texts (sem.count s₀).toNat place := by
    refine hrun.invariant (fun _ place =>
      Ctools.Analysis.SemSystem sem texts (sem.count s₀).toNat place)
        ⟨fun i => ⟨.fresh, show Ctools.Analysis.Continues _ .fresh 0 from rfl, trivial⟩, ?_⟩ ?_
    · have hnone : Ctools.Analysis.threadsInside texts (fun _ => 0) = 0 := by
        rw [Ctools.Analysis.threadsInside, Finset.card_eq_zero, Finset.filter_eq_empty_iff]
        exact fun i _ => Ctools.Analysis.inside_pos (hnumbered i)
      rw [hnone, Nat.add_zero]
    · intro _ place i f place' hplace _ hstep
      exact Ctools.Analysis.semSystem_step hlawful hdisciplined hnumbered
        (sem.count s₀).isLt hplace hstep
  refine ⟨hsystem.2, fun hone i j hi hj => ?_⟩
  have hcard : (Finset.univ.filter fun i => (place.1 i).toNat ∈ (texts i).inside).card ≤ 1 := by
    have hcount := hsystem.2
    rw [hone] at hcount
    exact Nat.le_of_add_left_le hcount.le
  exact Finset.card_le_one.mp hcard i (by simpa using hi) j (by simpa using hj)

open Ctools.Library Ctools.Program Ctools.Interface in
/-- Two threads and one place: the first is in the section, the second waits at its head. -/
theorem Ctools.Analysis.semaphore_counts_at :
    ((0 : BitVec 32)).toNat +
        (Finset.univ.filter fun i : Fin 2 =>
          (Function.update (Function.update (fun _ => (0 : BitVec 16)) 0 6) 1 5 i).toNat ∈
            (Sectioned.critical 5 (.yield 6) : Sectioned (BitVec 32)).inside).card =
        ((1 : BitVec 32)).toNat ∧
      ((1 : BitVec 32) = 1 → ∀ i j : Fin 2,
        (Function.update (Function.update (fun _ => (0 : BitVec 16)) 0 6) 1 5 i).toNat ∈
          (Sectioned.critical 5 (.yield 6) : Sectioned (BitVec 32)).inside →
        (Function.update (Function.update (fun _ => (0 : BitVec 16)) 0 6) 1 5 j).toNat ∈
          (Sectioned.critical 5 (.yield 6) : Sectioned (BitVec 32)).inside → i = j) :=
  @Ctools.Analysis.semaphore_counts (BitVec 32) (Fin 2) _ _ ⟨id, fun c _ => c⟩
    (fun _ => .critical 5 (.yield 6)) (fun _ _ => rfl) (fun _ => ⟨trivial, trivial⟩)
    (fun _ => by decide) (fun _ => by decide) 30 1 _
    (Function.update (Function.update (fun _ => 0) 0 6) 1 5, 0)
    (Machine.run_of_exec _ [0, 1] rfl)
