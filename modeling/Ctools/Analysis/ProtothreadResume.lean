import Ctools.Interface.CoroutineSpec

/-!
# Protothreads resume where they are blocked

The `case` a blocking macro leaves is the program point a coroutine would be paused at
(`Placed`): behind it are the check the macro makes, and what the coroutine has still to do.
Every step of the coroutine is one or more steps of the compiled function, so a call of the one
ends if and only if a call of the other does, and with the same; and so do all calls in a row,
whatever the rest of the system does between them.
-/

set_option autoImplicit false

namespace Ctools.Analysis

open StateTransition Ctools.Library Ctools.Program Ctools.Interface

variable {σ : Type}

/-! ## Program points -/

/-- A label that no macro of a body leaves is not in its text. -/
theorem after_eq_none {l : ℕ} {b : PtBody σ} (h : l ∉ b.lines) : b.text.after l = none := by
  induction b with
  | act f => rfl
  | seq a b iha ihb =>
    rw [PtBody.lines, List.mem_append, not_or] at h
    rw [PtBody.text, Labelled.after, iha h.1, ihb h.2]
  | ite c a b iha ihb =>
    rw [PtBody.lines, List.mem_append, not_or] at h
    rw [PtBody.text, Labelled.after, iha h.1, ihb h.2]
  | loop c a ih =>
    rw [PtBody.text, Labelled.after, ih h, Option.map_none]
  | waitUntil line c =>
    have hline : ¬ line = l := fun heq => h (List.mem_singleton.mpr heq.symm)
    simp [PtBody.text, ptWaitUntil, lcSet, Labelled.after, hline]
  | yield line =>
    have hline : ¬ line = l := fun heq => h (List.mem_singleton.mpr heq.symm)
    simp [PtBody.text, ptYield, lcSet, Labelled.after, hline]
  | yieldUntil line c =>
    have hline : ¬ line = l := fun heq => h (List.mem_singleton.mpr heq.symm)
    simp [PtBody.text, ptYieldUntil, lcSet, Labelled.after, hline]
  | restart => rfl
  | exit => rfl

/-- What a macro does behind its `case`. -/
def check : Pause σ → Labelled (PtFrame σ) ℕ
  | .wait _ c => .ite (negated (onUser c)) (.ret PT_WAITING) .skip
  | .yield _ => .ite justYielded (.ret PT_YIELDED) .skip
  | .yieldUntil _ c => .ite (justYieldedOr c) (.ret PT_YIELDED) .skip

/-- The lines of a body can be told apart, and are not those of other cases. -/
structure WellNumbered (lines : List ℕ) : Prop where
  nodup : lines.Nodup
  positive : ∀ l ∈ lines, 0 < l
  small : ∀ l ∈ lines, l < 65536

/-- Bodies in a row stand where their labels say: behind a label in one of them is what is
behind it there, and the bodies that follow. -/
def Placed (whole : PtBody σ) : List (PtBody σ) → Prop
  | [] => True
  | b :: rest => WellNumbered b.lines ∧
      (∀ l ∈ b.lines, whole.text.after l =
        (b.text.after l).map (· ++ rest.map PtBody.text)) ∧
      Placed whole rest

/-- The whole body is in its place. -/
theorem placed_whole {whole : PtBody σ} (h : WellNumbered whole.lines) : Placed whole [whole] := by
  refine ⟨h, fun l _ => ?_, trivial⟩
  cases whole.text.after l with
  | none => rfl
  | some rest => rw [Option.map_some, List.map_nil, List.append_nil]

variable {whole : PtBody σ} {rest : List (PtBody σ)}

/-- The first lines of a body are numbered as all are. -/
theorem WellNumbered.left {l l' : List ℕ} (h : WellNumbered (l ++ l')) : WellNumbered l :=
  ⟨h.nodup.of_append_left, fun x hx => h.positive x (List.mem_append_left _ hx),
    fun x hx => h.small x (List.mem_append_left _ hx)⟩

/-- So are the last ones. -/
theorem WellNumbered.right {l l' : List ℕ} (h : WellNumbered (l ++ l')) : WellNumbered l' :=
  ⟨h.nodup.of_append_right, fun x hx => h.positive x (List.mem_append_right _ hx),
    fun x hx => h.small x (List.mem_append_right _ hx)⟩

/-- A line of the second part is none of the first. -/
theorem WellNumbered.not_left {l l' : List ℕ} (h : WellNumbered (l ++ l')) {x : ℕ} (hx : x ∈ l') :
    x ∉ l := fun hxl => (List.disjoint_of_nodup_append h.nodup) hxl hx

/-- No line is in both. -/
theorem WellNumbered.not_right {l l' : List ℕ} (h : WellNumbered (l ++ l')) {x : ℕ} (hx : x ∈ l) :
    x ∉ l' := fun hxl => (List.disjoint_of_nodup_append h.nodup) hx hxl

/-- The parts of a sequence are in their place. -/
theorem Placed.seq {a b : PtBody σ} (h : Placed whole (.seq a b :: rest)) :
    Placed whole (a :: b :: rest) := by
  obtain ⟨hlines, hafter, hrest⟩ := h
  refine ⟨hlines.left, fun l hl => ?_, hlines.right, fun l hl => ?_, hrest⟩
  · rw [hafter l (List.mem_append_left _ hl), PtBody.text, Labelled.after]
    cases ha : a.text.after l with
    | none =>
      rw [after_eq_none (hlines.not_right hl)]
      rfl
    | some k => simp
  · rw [hafter l (List.mem_append_right _ hl), PtBody.text, Labelled.after,
      after_eq_none (hlines.not_left hl)]

/-- So is the first branch of a conditional. -/
theorem Placed.ite_left {c : σ → Option (Bool × σ)} {a b : PtBody σ}
    (h : Placed whole (.ite c a b :: rest)) : Placed whole (a :: rest) := by
  obtain ⟨hlines, hafter, hrest⟩ := h
  refine ⟨hlines.left, fun l hl => ?_, hrest⟩
  rw [hafter l (List.mem_append_left _ hl), PtBody.text, Labelled.after]
  cases ha : a.text.after l with
  | none => rw [after_eq_none (hlines.not_right hl)]
  | some k => rfl

/-- So is the second one. -/
theorem Placed.ite_right {c : σ → Option (Bool × σ)} {a b : PtBody σ}
    (h : Placed whole (.ite c a b :: rest)) : Placed whole (b :: rest) := by
  obtain ⟨hlines, hafter, hrest⟩ := h
  refine ⟨hlines.right, fun l hl => ?_, hrest⟩
  rw [hafter l (List.mem_append_right _ hl), PtBody.text, Labelled.after,
    after_eq_none (hlines.not_left hl)]

/-- So is the body of a loop, with the loop behind it. -/
theorem Placed.loop {c : σ → Option (Bool × σ)} {a : PtBody σ}
    (h : Placed whole (.loop c a :: rest)) : Placed whole (a :: .loop c a :: rest) := by
  refine ⟨h.1, fun l hl => ?_, h⟩
  rw [h.2.1 l hl, PtBody.text, Labelled.after, Option.map_map]
  cases a.text.after l with
  | none => rfl
  | some k => simp [PtBody.text]

/-! ## One call -/

/-- The local continuation of a coroutine. -/
def Continues (whole : PtBody σ) : Coroutine σ → BitVec 16 → Prop
  | .fresh, lc => lc = 0
  | .paused pause rest, lc => lc.toNat ≠ 0 ∧ lc.toNat = pause.line ∧
      whole.text.after pause.line = some (check pause :: rest.map PtBody.text) ∧ Placed whole rest

/-- What the function does behind its `switch` statement. -/
def ptTail : Labelled (PtFrame σ) ℕ :=
  .seq (.act fun frame => { frame with yieldFlag := false }) (.seq lcInit (.ret PT_ENDED))

/-- Where the function is when the coroutine is where it is. -/
inductive Follows (whole : PtBody σ) : CoRun σ → Control (PtFrame σ) ℕ → Prop
  | resuming {pause : Pause σ} {rest : List (PtBody σ)} {s : σ} {lc : BitVec 16}
      (h : Continues whole (.paused pause rest) lc) :
      Follows whole (.resuming pause rest s)
        (.going (check pause :: rest.map PtBody.text ++ [ptTail]) ⟨lc, true, s⟩)
  | going (rest : List (PtBody σ)) (s : σ) (lc : BitVec 16) (h : Placed whole rest) :
      Follows whole (.going rest s) (.going (rest.map PtBody.text ++ [ptTail]) ⟨lc, true, s⟩)
  | back (status : PtStatus) {next : Coroutine σ} (s : σ) (lc : BitVec 16) (flag : Bool)
      (h : Continues whole next lc) :
      Follows whole (.back status next s) (.returned (some status.code) ⟨lc, flag, s⟩)

/-- Behind the `case` a macro leaves at `line`, a coroutine that is paused there goes on. -/
theorem continues_line {b : PtBody σ} (pause : Pause σ) (h : Placed whole (b :: rest))
    (hline : pause.line ∈ b.lines) (hafter : b.text.after pause.line = some [check pause]) :
    Continues whole (.paused pause rest) (BitVec.ofNat 16 pause.line) := by
  obtain ⟨hlines, hplaced, hrest⟩ := h
  have hlc : (BitVec.ofNat 16 pause.line).toNat = pause.line := by
    rw [BitVec.toNat_ofNat, Nat.mod_eq_of_lt (hlines.small _ hline)]
  refine ⟨?_, hlc, ?_, hrest⟩
  · rw [hlc]
    exact (hlines.positive _ hline).ne'
  · rw [hplaced _ hline, hafter]
    rfl

/-- A check that does not block. -/
theorem passes {c : PtFrame σ → Option (Bool × PtFrame σ)} {r : ℕ}
    {k : List (Labelled (PtFrame σ) ℕ)} {frame frame' : PtFrame σ}
    (h : c frame = some (false, frame')) :
    Reaches₁ Control.step (.going (.ite c (.ret r) .skip :: k) frame) (.going k frame') := by
  refine Control.reaches₁_of_step (?_ : _ = some (.going (.skip :: k) frame')) (.single rfl)
  simp [Control.step, h]

/-- A check that blocks. -/
theorem returns {c : PtFrame σ → Option (Bool × PtFrame σ)} {r : ℕ}
    {k : List (Labelled (PtFrame σ) ℕ)} {frame frame' : PtFrame σ}
    (h : c frame = some (true, frame')) :
    Reaches₁ Control.step (.going (.ite c (.ret r) .skip :: k) frame)
      (.returned (some r) frame') := by
  refine Control.reaches₁_of_step (?_ : _ = some (.going (.ret r :: k) frame')) (.single rfl)
  simp [Control.step, h]

/-- The line is stored. -/
theorem lcSet_reaches (line : ℕ) (k : List (Labelled (PtFrame σ) ℕ)) (frame : PtFrame σ) :
    Reaches Control.step (.going (lcSet line :: k) frame)
      (.going k { frame with lc := BitVec.ofNat 16 line }) :=
  Control.reaches_of_step rfl (Control.reaches_of_step rfl (.single rfl))

/-- A macro that yields comes to its check with the flag down. -/
theorem yield_reaches (line : ℕ) (last : Labelled (PtFrame σ) ℕ)
    (k : List (Labelled (PtFrame σ) ℕ)) (frame : PtFrame σ) :
    Reaches₁ Control.step
      (.going (.seq (.act fun frame => { frame with yieldFlag := false })
        (.seq (lcSet line) last) :: k) frame)
      (.going (last :: k) { frame with lc := BitVec.ofNat 16 line, yieldFlag := false }) :=
  Control.reaches₁_of_step rfl (Control.reaches_of_step rfl (Control.reaches_of_step rfl
    (lcSet_reaches line (last :: k) { frame with yieldFlag := false })))

/-- **The simulation**: the function follows the coroutine. -/
theorem follows (whole : PtBody σ) : Respects CoRun.step Control.step (Follows whole) := by
  intro run control h
  cases h with
  | back status s lc flag h => rfl
  | @resuming pause rest s lc h =>
    cases pause with
    | wait line c =>
      cases hc : c s with
      | none => simp [CoRun.step, Control.step, check, negated, onUser, hc]
      | some answer =>
        obtain ⟨met, s'⟩ := answer
        simp only [CoRun.step, hc, Option.map_some]
        cases met with
        | true => exact ⟨_, .going _ _ lc h.2.2.2, passes (by simp [negated, onUser, hc])⟩
        | false => exact ⟨_, .back _ _ lc true h, returns (by simp [negated, onUser, hc])⟩
    | yield line => exact ⟨_, .going _ _ lc h.2.2.2, passes rfl⟩
    | yieldUntil line c =>
      cases hc : c s with
      | none => simp [CoRun.step, Control.step, check, justYieldedOr, negated, onUser, hc]
      | some answer =>
        obtain ⟨met, s'⟩ := answer
        simp only [CoRun.step, hc, Option.map_some]
        cases met with
        | true =>
          exact ⟨_, .going _ _ lc h.2.2.2, passes (by simp [justYieldedOr, negated, onUser, hc])⟩
        | false =>
          exact ⟨_, .back _ _ lc true h, returns (by simp [justYieldedOr, negated, onUser, hc])⟩
  | going rest s lc h =>
    cases rest with
    | nil =>
      -- Behind the end of the body the function ends.
      exact ⟨_, .back _ _ 0 false rfl, Control.reaches₁_of_step rfl
        (Control.reaches_of_step rfl (Control.reaches_of_step rfl (Control.reaches_of_step rfl
          (.single rfl))))⟩
    | cons b rest =>
      cases b with
      | act f => exact ⟨_, .going _ _ lc h.2.2, .single rfl⟩
      | seq a b => exact ⟨_, .going _ _ lc h.seq, .single rfl⟩
      | ite c a b =>
        cases hc : c s with
        | none => simp [CoRun.step, Control.step, PtBody.text, onUser, hc]
        | some answer =>
          obtain ⟨taken, s'⟩ := answer
          simp only [CoRun.step, hc, Option.map_some]
          cases taken with
          | true =>
            refine ⟨_, .going _ _ lc h.ite_left, .single ?_⟩
            simp [Control.step, PtBody.text, onUser, hc]
          | false =>
            refine ⟨_, .going _ _ lc h.ite_right, .single ?_⟩
            simp [Control.step, PtBody.text, onUser, hc]
      | loop c a =>
        cases hc : c s with
        | none => simp [CoRun.step, Control.step, PtBody.text, onUser, hc]
        | some answer =>
          obtain ⟨taken, s'⟩ := answer
          simp only [CoRun.step, hc, Option.map_some]
          cases taken with
          | true =>
            refine ⟨_, .going _ _ lc h.loop, .single ?_⟩
            simp [Control.step, PtBody.text, onUser, hc]
          | false =>
            refine ⟨_, .going _ _ lc h.2.2, .single ?_⟩
            simp [Control.step, PtBody.text, onUser, hc]
      | waitUntil line c =>
        have hpause := continues_line (.wait line c) h (List.mem_singleton.mpr rfl)
          (by simp [PtBody.text, ptWaitUntil, lcSet, Labelled.after, check, Pause.line])
        exact ⟨_, .resuming hpause, Control.reaches₁_of_step rfl (lcSet_reaches line _ _)⟩
      | yield line =>
        have hpause := continues_line (.yield line) h (List.mem_singleton.mpr rfl)
          (by simp [PtBody.text, ptYield, lcSet, Labelled.after, check, Pause.line])
        exact ⟨_, .back _ _ _ false hpause, (yield_reaches line _ _ _).trans
          (Control.reaches₁_of_step rfl (.single rfl))⟩
      | yieldUntil line c =>
        have hpause := continues_line (.yieldUntil line c) h (List.mem_singleton.mpr rfl)
          (by simp [PtBody.text, ptYieldUntil, lcSet, Labelled.after, check, Pause.line])
        exact ⟨_, .back _ _ _ false hpause, (yield_reaches line _ _ _).trans
          (Control.reaches₁_of_step rfl (.single rfl))⟩
      | restart =>
        exact ⟨_, .back _ _ 0 true rfl, Control.reaches₁_of_step rfl
          (Control.reaches_of_step rfl (.single rfl))⟩
      | exit =>
        exact ⟨_, .back _ _ 0 true rfl, Control.reaches₁_of_step rfl
          (Control.reaches_of_step rfl (.single rfl))⟩

/-- A call comes to where the coroutine's call begins. -/
theorem call_reaches (hwhole : WellNumbered whole.lines) {co : Coroutine σ} {lc : BitVec 16}
    (h : Continues whole co lc) (s : σ) :
    ∃ control, Follows whole (CoRun.start whole co s) control ∧
      Reaches Control.step (.going [ptThread whole.text] ⟨lc, false, s⟩) control := by
  have hswitch : Reaches Control.step (.going [ptThread whole.text] ⟨lc, false, s⟩)
      (.going [lcSwitch whole.text, ptTail] ⟨lc, true, s⟩) :=
    Control.reaches_of_step rfl (Control.reaches_of_step rfl (.single rfl))
  cases co with
  | fresh =>
    obtain rfl : lc = 0 := h
    refine ⟨_, .going _ _ 0 (placed_whole hwhole), hswitch.tail ?_⟩
    rfl
  | paused pause rest =>
    refine ⟨_, .resuming h, hswitch.tail ?_⟩
    obtain ⟨hlc, hline, hafter, -⟩ := h
    rw [← hline] at hafter
    simp [Control.step, lcSwitch, Labelled.after, Ne.symm hlc, hafter]

/-- A call of a protothread that returns is one whose control settles. -/
theorem exists_ptCall_iff {body : PtBody σ} {lc lc' : BitVec 16} {s s' : σ} {f : ℕ} :
    (∃ fuel, ptCall fuel body lc s = some (f, lc', s')) ↔
      ∃ flag, Control.returned (some f) ⟨lc', flag, s'⟩ ∈
        eval Control.step (.going [ptThread body.text] ⟨lc, false, s⟩) := by
  simp only [← exists_settle_iff]
  constructor
  · rintro ⟨fuel, hcall⟩
    rw [ptCall] at hcall
    split at hcall
    · rename_i f' frame hsettle
      obtain ⟨rfl, rfl, rfl⟩ : f' = f ∧ frame.lc = lc' ∧ frame.user = s' := by simpa using hcall
      exact ⟨frame.yieldFlag, fuel, hsettle⟩
    · cases hcall
  · rintro ⟨flag, fuel, hsettle⟩
    exact ⟨fuel, by rw [ptCall, hsettle]⟩

/-- A call of a coroutine that returns is one whose run settles. -/
theorem exists_coCall_iff {body : PtBody σ} {co co' : Coroutine σ} {s s' : σ}
    {status : PtStatus} :
    (∃ fuel, coCall fuel body co s = some (status, co', s')) ↔
      CoRun.back status co' s' ∈ eval CoRun.step (CoRun.start body co s) := by
  rw [← exists_settle_iff]
  constructor
  · rintro ⟨fuel, hcall⟩
    rw [coCall] at hcall
    split at hcall
    · rename_i status' next s'' hsettle
      obtain ⟨rfl, rfl, rfl⟩ : status' = status ∧ next = co' ∧ s'' = s' := by simpa using hcall
      exact ⟨fuel, hsettle⟩
    · cases hcall
  · rintro ⟨fuel, hsettle⟩
    exact ⟨fuel, by rw [coCall, hsettle]⟩

/-- **A call of the protothread** is one of the coroutine. -/
theorem coCall_of_ptCall (hwhole : WellNumbered whole.lines) {co : Coroutine σ}
    {lc lc' : BitVec 16} (h : Continues whole co lc) {s s' : σ} {f : ℕ}
    (hcall : ∃ fuel, ptCall fuel whole lc s = some (f, lc', s')) :
    ∃ status co', (∃ fuel, coCall fuel whole co s = some (status, co', s')) ∧
      f = status.code ∧ Continues whole co' lc' := by
  obtain ⟨flag, heval⟩ := exists_ptCall_iff.mp hcall
  obtain ⟨control, hfollows, hreaches⟩ := call_reaches hwhole h s
  rw [reaches_eval hreaches] at heval
  obtain ⟨run, hback, hrun⟩ := tr_eval_rev (follows whole) hfollows heval
  cases hback with
  | @back status next _ _ _ hnext => exact ⟨status, next, exists_coCall_iff.mpr hrun, rfl, hnext⟩

/-- **A call of the coroutine** is one of the protothread. -/
theorem ptCall_of_coCall (hwhole : WellNumbered whole.lines) {co co' : Coroutine σ}
    {lc : BitVec 16} (h : Continues whole co lc) {s s' : σ} {status : PtStatus}
    (hcall : ∃ fuel, coCall fuel whole co s = some (status, co', s')) :
    ∃ lc', (∃ fuel, ptCall fuel whole lc s = some (status.code, lc', s')) ∧
      Continues whole co' lc' := by
  obtain ⟨control, hfollows, hreaches⟩ := call_reaches hwhole h s
  obtain ⟨last, hback, heval⟩ := tr_eval (follows whole) hfollows (exists_coCall_iff.mp hcall)
  rw [← reaches_eval hreaches] at heval
  cases hback with
  | @back _ _ _ lc' flag hnext => exact ⟨lc', exists_ptCall_iff.mpr ⟨flag, heval⟩, hnext⟩

/-! ## All calls -/

/-- More fuel does not change what a protothread returns. -/
theorem protothread_fuelled (body : PtBody σ) : Machine.Fuelled (protothread body) := by
  intro fuel fuel' place before r hle hstep
  obtain ⟨⟨f, lc, s⟩, hcall, rfl⟩ := Option.map_eq_some_iff.mp hstep
  refine Option.map_eq_some_iff.mpr ⟨(f, lc, s), ?_, rfl⟩
  rw [ptCall] at hcall ⊢
  cases hsettle : settle Control.step fuel
      (.going [ptThread body.text] ⟨place.1, false, before place.2⟩) with
  | none =>
    rw [hsettle] at hcall
    cases hcall
  | some control =>
    rw [hsettle] at hcall
    rw [settle_mono hle hsettle]
    exact hcall

/-- Nor what a coroutine does. -/
theorem coroutine_fuelled (body : PtBody σ) : Machine.Fuelled (coroutine body) := by
  intro fuel fuel' place before r hle hstep
  obtain ⟨⟨status, co, s⟩, hcall, rfl⟩ := Option.map_eq_some_iff.mp hstep
  refine Option.map_eq_some_iff.mpr ⟨(status, co, s), ?_, rfl⟩
  rw [coCall] at hcall ⊢
  cases hsettle : settle CoRun.step fuel (CoRun.start body place.1 (before place.2)) with
  | none =>
    rw [hsettle] at hcall
    cases hcall
  | some run =>
    rw [hsettle] at hcall
    rw [settle_mono hle hsettle]
    exact hcall

/-- **All calls in a row**: the protothread and the coroutine return the same. -/
theorem runs_iff (hwhole : WellNumbered whole.lines) (others : List (σ → σ)) {co : Coroutine σ}
    {lc : BitVec 16} (h : Continues whole co lc) (s : σ) (shown : List ((σ → σ) × (ℕ × σ))) :
    (∃ place fuel, (protothread whole fuel).exec (lc, s) others = some (shown, place)) ↔
      ∃ place fuel, (coroutine whole fuel).exec (co, s) others = some (shown, place) := by
  induction others generalizing co lc s shown with
  | nil => simp [eq_comm]
  | cons before others ih =>
    simp only [(protothread_fuelled whole).exists_exec_cons_iff,
      (coroutine_fuelled whole).exists_exec_cons_iff]
    constructor
    · rintro ⟨place, ⟨f, s'⟩, ⟨lc', s''⟩, later, ⟨fuel, hstep⟩, hrest, rfl⟩
      obtain ⟨⟨f, lc', s'⟩, hcall, heq⟩ := Option.map_eq_some_iff.mp hstep
      cases heq
      obtain ⟨status, co', ⟨fuel', hco⟩, rfl, hnext⟩ := coCall_of_ptCall hwhole h ⟨fuel, hcall⟩
      obtain ⟨place', hrest'⟩ := (ih hnext s' later).mp ⟨place, hrest⟩
      exact ⟨place', (status.code, s'), (co', s'), later,
        ⟨fuel', Option.map_eq_some_iff.mpr ⟨_, hco, rfl⟩⟩, hrest', rfl⟩
    · rintro ⟨place, ⟨f, s'⟩, ⟨co', s''⟩, later, ⟨fuel, hstep⟩, hrest, rfl⟩
      obtain ⟨⟨status, co', s'⟩, hcall, heq⟩ := Option.map_eq_some_iff.mp hstep
      cases heq
      obtain ⟨lc', ⟨fuel', hpt⟩, hnext⟩ := ptCall_of_coCall hwhole h ⟨fuel, hcall⟩
      obtain ⟨place', hrest'⟩ := (ih hnext s' later).mpr ⟨place, hrest⟩
      exact ⟨place', (status.code, s'), (lc', s'), later,
        ⟨fuel', Option.map_eq_some_iff.mpr ⟨_, hpt, rfl⟩⟩, hrest', rfl⟩

end Ctools.Analysis

open Ctools.Library Ctools.Program Ctools.Interface in
/-- **Protothreads resume where they are blocked**: for every body whose blocking macros stand in
different lines below 65536, all calls of the protothread in a row return the same codes and
leave the same states as those of the coroutine that pauses with all of its context, whatever the
rest of the system does between the calls. -/
theorem Ctools.Analysis.protothread_resumes {σ : Type} {body : PtBody σ}
    (hnodup : body.lines.Nodup) (hlines : ∀ line ∈ body.lines, 0 < line ∧ line < 65536)
    (others : List (σ → σ)) (s : σ) (shown : List ((σ → σ) × (ℕ × σ))) :
    (∃ place fuel, (protothread body fuel).exec (0, s) others = some (shown, place)) ↔
      ∃ place fuel, (coroutine body fuel).exec (.fresh, s) others = some (shown, place) :=
  Ctools.Analysis.runs_iff
    ⟨hnodup, fun line h => (hlines line h).1, fun line h => (hlines line h).2⟩
    others (show Ctools.Analysis.Continues body .fresh 0 from rfl) s shown

open Ctools.Library Ctools.Program Ctools.Interface in
/-- A loop that yields and then waits for an even number, called twice. -/
theorem Ctools.Analysis.protothread_resumes_at :
    (∃ place fuel, (protothread (.loop (fun n => some (decide (n < 9), n))
        (.seq (.yield 12) (.waitUntil 13 fun n => some (decide (n % 2 = 0), n)))) fuel).exec
          (0, 4) [id, (· + 7)] =
            some ([(id, (PT_YIELDED, 4)), ((· + 7), (PT_WAITING, 11))], place)) ↔
      ∃ place fuel, (coroutine (.loop (fun n => some (decide (n < 9), n))
        (.seq (.yield 12) (.waitUntil 13 fun n => some (decide (n % 2 = 0), n)))) fuel).exec
          (.fresh, 4) [id, (· + 7)] =
            some ([(id, (PT_YIELDED, 4)), ((· + 7), (PT_WAITING, 11))], place) :=
  Ctools.Analysis.protothread_resumes (by decide) (by decide) [id, (· + 7)] 4 _
