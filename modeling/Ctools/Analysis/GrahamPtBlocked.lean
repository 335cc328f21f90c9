import Ctools.Library.LabelledOutline
import Ctools.Program.GrahamPt

/-!
# A thread with a `struct ptx` that blocks never goes on

`PT_WAIT_UNTIL` clears every flag but `PT_F_WAITING` where it means to clear that one, so the
flag a thread blocks with stays, and the macro returns for it whatever the condition says.
`PT_KILL` clears the flag it means to set, and does not end the thread either.

Two outlines of a body say so: one of a call that begins at the start, which ends with the local
continuation at zero or with the thread blocked (`outline_fresh`), and one of a call of a
blocked thread, which comes to nothing but blocking there again (`outline_blocked`).
-/

set_option autoImplicit false

namespace Ctools.Analysis

open StateTransition Ctools.Library Ctools.Program

variable {σ : Type}

/-! ## Flags -/

/-- The thread is not to be killed. -/
def NoKill (flags : BitVec 16) : Prop := flags &&& PT_F_KILL = 0

/-- The thread waits. -/
def IsWaiting (flags : BitVec 16) : Prop := flags &&& PT_F_WAITING ≠ 0

/-- Setting another flag does not kill the thread. -/
theorem noKill_or {flags flag : BitVec 16} (h : NoKill flags) (hflag : flag &&& PT_F_KILL = 0) :
    NoKill (flags ||| flag) := by
  rw [NoKill, BitVec.and_comm, BitVec.and_or_distrib_left, BitVec.and_comm, h, BitVec.and_comm,
    hflag]
  rfl

/-- Clearing flags does not kill the thread. -/
theorem noKill_and {flags mask : BitVec 16} (h : NoKill flags) : NoKill (flags &&& mask) := by
  rw [NoKill, BitVec.and_assoc, BitVec.and_comm mask, ← BitVec.and_assoc, h]
  exact BitVec.zero_and

/-- A thread waits on if its flag is not cleared. -/
theorem waits_and {flags mask : BitVec 16} (h : IsWaiting flags)
    (hmask : mask &&& PT_F_WAITING = PT_F_WAITING) : IsWaiting (flags &&& mask) := by
  rwa [IsWaiting, BitVec.and_assoc, hmask]

/-- A thread waits once its flag is set. -/
theorem waits_or (flags : BitVec 16) : IsWaiting (flags ||| PT_F_WAITING) := by
  intro h
  have hbit := congrArg (fun x : BitVec 16 => x.getLsbD 2) h
  simp [PT_F_WAITING] at hbit

/-! ## The check of a macro that blocks -/

/-- The frame with other flags. -/
def setFlags (flags : BitVec 16) (frame : PtxFrame σ) : PtxFrame σ :=
  { frame with user := { frame.user with flags := flags } }

variable {A : ℕ → PtxFrame σ → Prop}

/-- A thread that is not to be killed passes the check, or returns and waits. -/
theorem outline_ptxCheck {R : ℕ → PtxFrame σ → Prop} {P Q : PtxFrame σ → Prop}
    {c : PtxFrame σ → Option (Bool × PtxFrame σ)}
    (hkill : ∀ frame, P frame → NoKill frame.user.flags)
    (hcond : ∀ frame met frame', P frame → c frame = some (met, frame') → P frame')
    (hand : ∀ frame, P frame → P (setFlags (frame.user.flags &&& PT_F_WAITING) frame))
    (hor : ∀ frame, P frame → P (setFlags (frame.user.flags ||| PT_F_WAITING) frame))
    (hret : ∀ frame, P frame → IsWaiting frame.user.flags → R PT_THREAD_WAITING frame)
    (hpass : ∀ frame, P frame → ¬ IsWaiting frame.user.flags → Q frame) :
    Outline R A P (ptxCheck c) Q := by
  have hflagged : ∀ {flag : BitVec 16} {frame frame' : PtxFrame σ} {set : Bool},
      flagged flag frame = some (set, frame') →
        frame' = frame ∧ set = decide (frame.user.flags &&& flag ≠ 0) := by
    intro flag frame frame' set h
    cases h
    exact ⟨rfl, rfl⟩
  refine .seq (M := P) (.ite (T := fun _ => False) (F := P) ?_ ?_ ?_ (.skip fun _ h => h))
    (.seq (M := P) (.ite (T := P) (F := P) ?_ ?_ (.act hand) (.act hor))
      (.ite (T := fun frame => P frame ∧ IsWaiting frame.user.flags)
        (F := fun frame => P frame ∧ ¬ IsWaiting frame.user.flags) ?_ ?_
        (.ret fun frame h => hret frame h.1 h.2) (.skip fun frame h => hpass frame h.1 h.2)))
  · intro frame frame' hframe h
    obtain ⟨-, hset⟩ := hflagged h
    exact of_decide_eq_true hset.symm (hkill frame hframe)
  · intro frame frame' hframe h
    obtain ⟨rfl, -⟩ := hflagged h
    exact hframe
  · exact .seq (M := fun _ => False) (.act fun _ h => h) (.ret fun _ h => h.elim)
  · exact fun frame frame' h => hcond frame true frame' h
  · exact fun frame frame' h => hcond frame false frame' h
  · intro frame frame' hframe h
    obtain ⟨rfl, hset⟩ := hflagged h
    have hwaits : frame'.user.flags &&& PT_F_WAITING ≠ 0 := of_decide_eq_true hset.symm
    exact ⟨hframe, hwaits⟩
  · intro frame frame' hframe h
    obtain ⟨rfl, hset⟩ := hflagged h
    have hnot : ¬ frame'.user.flags &&& PT_F_WAITING ≠ 0 := of_decide_eq_false hset.symm
    exact ⟨hframe, hnot⟩

/-- A condition that leaves the flags and the local continuation as they are. -/
def Sparing (c : PtxFrame σ → Option (Bool × PtxFrame σ)) : Prop :=
  ∀ frame met frame', c frame = some (met, frame') →
    frame'.user.flags = frame.user.flags ∧ frame'.lc = frame.lc

/-- What the body does beside the flags spares them. -/
theorem sparing_rest (c : σ → Option (Bool × σ)) : Sparing (onUser (onRest c)) := by
  intro frame met frame' h
  obtain ⟨⟨met', p⟩, hp, heq⟩ := Option.map_eq_some_iff.mp h
  obtain ⟨⟨met'', s⟩, -, heq'⟩ := Option.map_eq_some_iff.mp hp
  cases heq'
  cases heq
  exact ⟨rfl, rfl⟩

/-- A test spares the flags. -/
theorem sparing_read (b : PtxFrame σ → Bool) : Sparing fun frame => some (b frame, frame) := by
  intro frame met frame' h
  cases h
  exact ⟨rfl, rfl⟩

/-! ## A call from the start -/

/-- How a call leaves the thread: at its start, or blocked at a line. -/
def Leaves (lines : List ℕ) (lc : BitVec 16) (flags : BitVec 16) : Prop :=
  NoKill flags ∧ (lc = 0 ∨ ∃ line ∈ lines, lc = BitVec.ofNat 16 line ∧ IsWaiting flags)

variable {lines : List ℕ}

/-- The outcome of a call from the start. -/
def LeavesFrame (lines : List ℕ) (_ : ℕ) (frame : PtxFrame σ) : Prop :=
  Leaves lines frame.lc frame.user.flags

/-- Leaving the thread with a status. -/
theorem outline_leave (f : ℕ) {Q : PtxFrame σ → Prop} :
    Outline (LeavesFrame lines) A (fun frame => NoKill frame.user.flags)
      (.seq lcInit (.ret f)) Q :=
  .seq (M := fun frame => NoKill frame.user.flags ∧ frame.lc = 0)
    (.act fun _ h => ⟨h, rfl⟩) (.ret fun _ h => ⟨h.1, .inl h.2⟩)

/-- A macro that blocks, reached in order. -/
theorem outline_wait {c : PtxFrame σ → Option (Bool × PtxFrame σ)} (hc : Sparing c) {line : ℕ}
    (hline : line ∈ lines) (hnone : ∀ frame, ¬ A line frame) :
    Outline (LeavesFrame lines) A (fun frame => NoKill frame.user.flags)
      (ptxWaitUntil true line c) (fun frame => NoKill frame.user.flags) := by
  refine .seq (M := fun frame => NoKill frame.user.flags ∧ frame.lc = BitVec.ofNat 16 line)
    (.seq (M := fun frame => NoKill frame.user.flags ∧ frame.lc = BitVec.ofNat 16 line)
      (.act fun _ h => ⟨h, rfl⟩) (.label (fun _ h => h) fun frame h => absurd h (hnone frame)))
    (outline_ptxCheck (fun _ h => h.1) ?_ ?_ ?_ ?_ ?_)
  · intro frame met frame' h hcall
    obtain ⟨hflags, hlc⟩ := hc frame met frame' hcall
    rwa [hflags, hlc]
  · exact fun frame h => ⟨noKill_and h.1, h.2⟩
  · exact fun frame h => ⟨noKill_or h.1 (by decide), h.2⟩
  · exact fun frame h hwaits => ⟨h.1, .inr ⟨line, hline, h.2, hwaits⟩⟩
  · exact fun frame h _ => h.1

/-- **A body from the start**: the flag of `PT_KILL` stays clear, and where the body returns it
leaves the thread at its start or blocked. -/
theorem outline_fresh (b : PtxBody σ) (hlines : ∀ l ∈ b.lines, l ∈ lines)
    (hnone : ∀ l ∈ lines, ∀ frame, ¬ A l frame) :
    Outline (LeavesFrame lines) A (fun frame => NoKill frame.user.flags) (b.text true)
      (fun frame => NoKill frame.user.flags) := by
  induction b with
  | act f => exact .act fun _ h => h
  | seq a b iha ihb =>
    exact .seq (iha fun l hl => hlines l (List.mem_append_left _ hl))
      (ihb fun l hl => hlines l (List.mem_append_right _ hl))
  | ite c a b iha ihb =>
    refine .ite (fun frame frame' h hcall => ?_) (fun frame frame' h hcall => ?_)
      (iha fun l hl => hlines l (List.mem_append_left _ hl))
      (ihb fun l hl => hlines l (List.mem_append_right _ hl))
    · rwa [(sparing_rest c frame true frame' hcall).1]
    · rwa [(sparing_rest c frame false frame' hcall).1]
  | loop c a ih =>
    refine .loop (fun _ h => h) (fun frame frame' h hcall => ?_) (fun frame frame' h hcall => ?_)
      (ih hlines)
    · rwa [(sparing_rest c frame true frame' hcall).1]
    · rwa [(sparing_rest c frame false frame' hcall).1]
  | waitUntil line c =>
    have hline := hlines line (List.mem_singleton.mpr rfl)
    exact outline_wait (sparing_rest c) hline (hnone line hline)
  | yield line =>
    have hline := hlines line (List.mem_singleton.mpr rfl)
    exact .seq (.act fun _ h => h) (outline_wait (sparing_read _) hline (hnone line hline))
  | sleep line =>
    have hline := hlines line (List.mem_singleton.mpr rfl)
    exact .seq (.act fun _ h => noKill_or h (by decide))
      (outline_wait (sparing_read _) hline (hnone line hline))
  | restart => exact outline_leave _
  | exit => exact outline_leave _

/-! ## A call of a blocked thread -/

/-- The thread is blocked at a line. -/
def BlockedAt (line : ℕ) (frame : PtxFrame σ) : Prop :=
  NoKill frame.user.flags ∧ IsWaiting frame.user.flags ∧ frame.lc = BitVec.ofNat 16 line

/-- The outcome of a call of a blocked thread. -/
def StaysAt (line : ℕ) (f : ℕ) (frame : PtxFrame σ) : Prop :=
  f = PT_THREAD_WAITING ∧ BlockedAt line frame

/-- Where a blocked thread resumes. -/
def ResumesAt (line l : ℕ) (frame : PtxFrame σ) : Prop := l = line ∧ BlockedAt line frame

variable {line : ℕ}

/-- A macro that blocks: the thread that is blocked there blocks there again. -/
theorem outline_again {c : PtxFrame σ → Option (Bool × PtxFrame σ)} (hc : Sparing c) (l : ℕ) :
    Outline (StaysAt line) (ResumesAt line) (fun _ => False) (ptxWaitUntil true l c)
      (fun _ => False) := by
  refine .seq (M := BlockedAt line) (.seq (M := fun _ => False) (.act fun _ h => h)
    (.label (fun _ h => h.elim) fun _ h => h.2))
    (outline_ptxCheck (fun _ h => h.1) ?_ ?_ ?_ ?_ ?_)
  · intro frame met frame' h hcall
    obtain ⟨hflags, hlc⟩ := hc frame met frame' hcall
    rwa [BlockedAt, hflags, hlc]
  · exact fun frame h => ⟨noKill_and h.1, waits_and h.2.1 rfl, h.2.2⟩
  · exact fun frame h => ⟨noKill_or h.1 (by decide), waits_or _, h.2.2⟩
  · exact fun frame h _ => ⟨rfl, h⟩
  · exact fun frame h hnot => hnot h.2.1

/-- **A body of which a thread is blocked** comes to nothing but blocking there again. -/
theorem outline_blocked (b : PtxBody σ) :
    Outline (StaysAt line) (ResumesAt line) (fun _ => False) (b.text true) (fun _ => False) := by
  induction b with
  | act f => exact .act fun _ h => h
  | seq a b iha ihb => exact .seq iha ihb
  | ite c a b iha ihb => exact .ite (fun _ _ h _ => h) (fun _ _ h _ => h) iha ihb
  | loop c a ih => exact .loop (fun _ h => h) (fun _ _ h _ => h) (fun _ _ h _ => h) ih
  | waitUntil l c => exact outline_again (sparing_rest c) l
  | yield l => exact .seq (.act fun _ h => h) (outline_again (sparing_read _) l)
  | sleep l => exact .seq (.act fun _ h => h.elim) (outline_again (sparing_read _) l)
  | restart => exact .seq (M := fun _ => False) (.act fun _ h => h) (.ret fun _ h => h.elim)
  | exit => exact .seq (M := fun _ => False) (.act fun _ h => h) (.ret fun _ h => h.elim)

/-- A line of a body is a label of its text. -/
theorem after_isSome {l : ℕ} {b : PtxBody σ} (h : l ∈ b.lines) :
    ((b.text true).after l).isSome = true := by
  induction b with
  | act | restart | exit => cases h
  | seq a b iha ihb =>
    rw [PtxBody.text, Labelled.after]
    cases ha : (a.text true).after l with
    | some k => rfl
    | none =>
      rcases List.mem_append.mp h with h | h
      · rw [Option.isSome_iff_ne_none] at iha
        exact absurd ha (iha h)
      · exact ihb h
  | ite c a b iha ihb =>
    rw [PtxBody.text, Labelled.after]
    cases ha : (a.text true).after l with
    | some k => rfl
    | none =>
      rcases List.mem_append.mp h with h | h
      · rw [Option.isSome_iff_ne_none] at iha
        exact absurd ha (iha h)
      · exact ihb h
  | loop c a ih =>
    rw [PtxBody.text, Labelled.after, Option.isSome_map]
    exact ih h
  | waitUntil l' c =>
    obtain rfl := List.mem_singleton.mp h
    simp [PtxBody.text, ptxWaitUntil, lcSet, Labelled.after]
  | yield l' =>
    obtain rfl := List.mem_singleton.mp h
    simp [PtxBody.text, ptxYield, ptxWaitUntil, lcSet, Labelled.after]
  | sleep l' =>
    obtain rfl := List.mem_singleton.mp h
    simp [PtxBody.text, ptxSleep, ptxWaitUntil, lcSet, Labelled.after]

/-! ## Calls -/

/-- What a call returns is what the compiled function ends with. -/
theorem ptxCall_eval {extended : Bool} {fuel : ℕ} {body : PtxBody σ} {lc lc' : BitVec 16}
    {p p' : Ptx σ} {f : ℕ} (h : ptxCall extended fuel body lc p = some (f, lc', p')) :
    ∃ flag, Control.returned (some f) ⟨lc', flag, p'⟩ ∈
      eval Control.step (.going [ptxThread (body.text extended)] ⟨lc, false, p⟩) := by
  rw [ptxCall] at h
  split at h
  · rename_i f' frame hsettle
    obtain ⟨rfl, rfl, rfl⟩ : f' = f ∧ frame.lc = lc' ∧ frame.user = p' := by simpa using h
    exact ⟨frame.yieldFlag, exists_settle_iff.mp ⟨fuel, hsettle⟩⟩
  · cases h

variable {body : PtxBody σ} {fuel : ℕ} {lc lc' : BitVec 16} {p p' : Ptx σ} {f : ℕ}

/-- A call from the start. -/
theorem ptxCall_fresh (hpos : ∀ l ∈ body.lines, 0 < l) (hkill : NoKill p.flags)
    (h : ptxCall true fuel body 0 p = some (f, lc', p')) : Leaves body.lines lc' p'.flags := by
  obtain ⟨flag, heval⟩ := ptxCall_eval h
  have hbody : Outline (LeavesFrame body.lines)
      (fun l (frame : PtxFrame σ) => l = 0 ∧ NoKill frame.user.flags) (fun _ => False)
      (.seq (.label 0) (body.text true)) (fun frame => NoKill frame.user.flags) :=
    .seq (M := fun frame => NoKill frame.user.flags) (.label (fun _ h => h.elim) fun _ h => h.2)
      (outline_fresh body (fun _ hl => hl) fun l hl frame h => (hpos l hl).ne' h.1)
  have hthread : Chain (LeavesFrame body.lines)
      (fun frame : PtxFrame σ => NoKill frame.user.flags ∧ frame.lc = 0)
      [ptxThread (body.text true)] (fun _ => False) := by
    refine ⟨fun _ _ => False, fun _ => False,
      .seq (M := fun frame => NoKill frame.user.flags ∧ frame.lc = 0) (.act fun _ h => h)
        (.seq (.switch ?_ ?_ hbody) (outline_leave _)), fun _ h => h⟩
    · rintro frame k hframe -
      rw [hframe.2]
      exact ⟨rfl, hframe.1⟩
    · exact fun frame hframe _ => hframe.1
  have hsound := chain_sound (s := ⟨0, false, p⟩) hthread ⟨hkill, rfl⟩ heval
  cases hsound with
  | returned hreturned => exact hreturned

/-- A call of a blocked thread. -/
theorem ptxCall_blocked {line : ℕ} (hline : line ∈ body.lines) (hpos : 0 < line)
    (hsmall : line < 65536) (hkill : NoKill p.flags) (hwaits : IsWaiting p.flags)
    (h : ptxCall true fuel body (BitVec.ofNat 16 line) p = some (f, lc', p')) :
    f = PT_THREAD_WAITING ∧ NoKill p'.flags ∧ IsWaiting p'.flags ∧ lc' = BitVec.ofNat 16 line := by
  obtain ⟨flag, heval⟩ := ptxCall_eval h
  have hlc : (BitVec.ofNat 16 line).toNat = line := by
    rw [BitVec.toNat_ofNat, Nat.mod_eq_of_lt hsmall]
  have hafter := after_isSome hline
  have hbody : Outline (StaysAt line) (ResumesAt line) (fun _ : PtxFrame σ => False)
      (.seq (.label 0) (body.text true)) (fun _ => False) :=
    .seq (M := fun _ => False) (.label (fun _ h => h) fun _ h => hpos.ne h.1) (outline_blocked body)
  have hthread : Chain (StaysAt line) (BlockedAt line) [ptxThread (body.text true)]
      (fun _ : PtxFrame σ => False) := by
    refine ⟨fun _ _ => False, fun _ => False, .seq (M := BlockedAt line) (.act fun _ h => h)
      (.seq (.switch ?_ ?_ hbody) (.seq (M := fun _ => False) (.act fun _ h => h)
        (.ret fun _ h => h.elim))), fun _ h => h⟩
    · rintro frame k hframe -
      rw [hframe.2.2, hlc]
      exact ⟨rfl, hframe⟩
    · intro frame hframe hnone
      rw [hframe.2.2, hlc] at hnone
      simp only [Labelled.after, hpos.ne, if_false] at hnone
      rw [hnone] at hafter
      cases hafter
  have hsound := chain_sound (s := ⟨BitVec.ofNat 16 line, false, p⟩) hthread
    ⟨hkill, hwaits, rfl⟩ heval
  cases hsound with
  | returned hreturned => exact hreturned

/-- Everything that can happen to a thread leaves it at its start or blocked. -/
theorem leaves_step (hlines : ∀ l ∈ body.lines, 0 < l ∧ l < 65536)
    {place place' : BitVec 16 × Ptx σ} {event : PtxEvent σ} {shown : Option ℕ}
    (h : Leaves body.lines place.1 place.2.flags)
    (hstep : (ptxSystem body fuel).step place event = some (shown, place')) :
    Leaves body.lines place'.1 place'.2.flags := by
  obtain ⟨hkill, hlc⟩ := h
  cases event with
  | call =>
    obtain ⟨⟨f, lc', p'⟩, hcall, heq⟩ := Option.map_eq_some_iff.mp hstep
    cases heq
    obtain ⟨lc, p⟩ := place
    rcases hlc with rfl | ⟨line, hline, rfl, hwaits⟩
    · exact ptxCall_fresh (fun l hl => (hlines l hl).1) hkill hcall
    · obtain ⟨-, hkill', hwaits', hlc'⟩ := ptxCall_blocked hline (hlines line hline).1
        (hlines line hline).2 hkill hwaits hcall
      exact ⟨hkill', .inr ⟨line, hline, hlc', hwaits'⟩⟩
  | wake =>
    cases hstep
    refine ⟨noKill_and hkill, hlc.imp_right ?_⟩
    exact fun ⟨line, hline, heq, hwaits⟩ => ⟨line, hline, heq, waits_and hwaits (by decide)⟩
  | kill =>
    cases hstep
    refine ⟨noKill_and hkill, hlc.imp_right ?_⟩
    exact fun ⟨line, hline, heq, hwaits⟩ => ⟨line, hline, heq, waits_and hwaits (by decide)⟩
  | other f =>
    cases hstep
    exact ⟨hkill, hlc⟩

/-- Whatever happens to a blocked thread, it stays blocked, and its calls say so. -/
theorem blocked_step {line : ℕ} (hline : line ∈ body.lines) (hpos : 0 < line)
    (hsmall : line < 65536) {place place' : BitVec 16 × Ptx σ} {event : PtxEvent σ}
    {shown : Option ℕ}
    (h : NoKill place.2.flags ∧ IsWaiting place.2.flags ∧ place.1 = BitVec.ofNat 16 line)
    (hstep : (ptxSystem body fuel).step place event = some (shown, place')) :
    (NoKill place'.2.flags ∧ IsWaiting place'.2.flags ∧ place'.1 = BitVec.ofNat 16 line) ∧
      ∀ f, shown = some f → f = PT_THREAD_WAITING := by
  obtain ⟨lc, p⟩ := place
  obtain ⟨hkill, hwaits, rfl⟩ := h
  cases event with
  | call =>
    obtain ⟨⟨f, lc', p'⟩, hcall, heq⟩ := Option.map_eq_some_iff.mp hstep
    cases heq
    obtain ⟨hf, hstays⟩ := ptxCall_blocked hline hpos hsmall hkill hwaits hcall
    exact ⟨hstays, fun f' hf' => Option.some_inj.mp hf' ▸ hf⟩
  | wake =>
    cases hstep
    exact ⟨⟨noKill_and hkill, waits_and hwaits (by decide), rfl⟩, fun f hf => by cases hf⟩
  | kill =>
    cases hstep
    exact ⟨⟨noKill_and hkill, waits_and hwaits (by decide), rfl⟩, fun f hf => by cases hf⟩
  | other g =>
    cases hstep
    exact ⟨⟨hkill, hwaits, rfl⟩, fun f hf => by cases hf⟩

end Ctools.Analysis

open Ctools.Library Ctools.Program in
/-- **A blocked extended protothread never goes on**: once a thread with a `struct ptx` is blocked
in its body, then whatever happens to it and to the rest of the state, `PT_WAKE` and `PT_KILL`
included, every call returns `PT_THREAD_WAITING` and leaves it where it is blocked.  A run starts
behind `PT_INIT` with the flags at zero, which `PT_INIT` does not set, and nothing but the macros
writes the `struct ptx`. -/
theorem Ctools.Analysis.ptx_never_goes_on {σ : Type} {body : PtxBody σ}
    (hlines : ∀ line ∈ body.lines, 0 < line ∧ line < 65536) {fuel fuel' : ℕ} {s₀ : σ}
    {h h' : List (PtxEvent σ × Option ℕ)} {place place' : BitVec 16 × Ptx σ}
    (hrun : (ptxSystem body fuel).Run Machine.anyStep (0, ⟨0, s₀⟩) h place)
    (hblocked : place.1 ≠ 0)
    (hlater : (ptxSystem body fuel').Run Machine.anyStep place h' place') :
    (∀ e ∈ h', ∀ f, e.2 = some f → f = PT_THREAD_WAITING) ∧ place'.1 = place.1 ∧
      ptIsBlocked place'.2 = true := by
  have hleaves : Ctools.Analysis.Leaves body.lines place.1 place.2.flags :=
    hrun.invariant (fun _ place => Ctools.Analysis.Leaves body.lines place.1 place.2.flags)
      ⟨show Ctools.Analysis.NoKill 0 from rfl, .inl rfl⟩ fun _ _ _ _ _ hplace _ hstep =>
        Ctools.Analysis.leaves_step hlines hplace hstep
  obtain ⟨hkill, hzero | ⟨line, hline, hlc, hwaits⟩⟩ := hleaves
  · exact absurd hzero hblocked
  obtain ⟨⟨-, hwaits', hlc'⟩, hshown⟩ := hlater.invariant_shows
    (fun place => Ctools.Analysis.NoKill place.2.flags ∧ Ctools.Analysis.IsWaiting place.2.flags ∧
      place.1 = BitVec.ofNat 16 line)
    (fun shown => ∀ f, shown = some f → f = PT_THREAD_WAITING) ⟨hkill, hwaits, hlc⟩
    fun _ _ _ _ hplace _ hstep =>
      Ctools.Analysis.blocked_step hline (hlines line hline).1 (hlines line hline).2 hplace hstep
  exact ⟨hshown, hlc'.trans hlc.symm, bne_iff_ne.mpr hwaits'⟩

open Ctools.Library Ctools.Program in
/-- A thread that sleeps at line 7 is woken and called again. -/
theorem Ctools.Analysis.ptx_never_goes_on_at :
    (∀ e ∈ [((.wake : PtxEvent Bool), (none : Option ℕ)), (.call, some 0)],
      ∀ f, e.2 = some f → f = PT_THREAD_WAITING) ∧ (7 : BitVec 16) = 7 ∧
        ptIsBlocked (⟨4, true⟩ : Ptx Bool) = true :=
  @Ctools.Analysis.ptx_never_goes_on Bool (.sleep 7) (by decide) 30 30 true
    [(.call, some 0)] [(.wake, none), (.call, some 0)] (7, ⟨5, true⟩) (7, ⟨4, true⟩)
    (Machine.run_of_exec _ [.call] rfl) (by decide) (Machine.run_of_exec _ [.wake, .call] rfl)
