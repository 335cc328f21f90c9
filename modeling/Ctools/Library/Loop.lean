import Mathlib

/-!
# Loops that may fail, and may not end

One turn of a loop looks at the state: it leaves with a state, goes round with
a state, or fails.  `EndsAfter turn n s t` says that from `s` the loop goes
round exactly `n` times and then leaves with `t`; `runLoop` computes the loop
as far as `fuel` turns go.

The rules are: what the loop computes is what it ends with
(`runLoop_eq_ok_iff`); a measure that every round takes down bounds the rounds
(`endsAfter_of_measure`); an invariant under which no turn leaves means that the
loop never ends (`not_endsAfter`); and a `while` loop with a counter that its
body moves on by one runs the body as often as the counter is short of its
bound, and ends or fails as these passes do (`runLoop_counted`,
`endsAfter_counted_iff`), unless the counter is a byte and the bound is beyond
it (`CountsInByte.never_ends`).
-/

set_option autoImplicit false

namespace Ctools.Library

variable {σ ε : Type}

/-- What one turn of a loop comes to. -/
inductive Turn (σ : Type) where
  | leave (s : σ)
  | again (s : σ)
deriving DecidableEq

/-- From `s` the loop goes round `n` times and then leaves with `t`. -/
inductive EndsAfter (turn : σ → Except ε (Turn σ)) : ℕ → σ → σ → Prop
  | leave {s t : σ} (last : turn s = .ok (.leave t)) : EndsAfter turn 0 s t
  | again {n : ℕ} {s s' t : σ} (first : turn s = .ok (.again s'))
      (rest : EndsAfter turn n s' t) : EndsAfter turn (n + 1) s t

/-- The loop from `s` on, for at most `fuel` turns; `none` if it is still
running then. -/
def runLoop (turn : σ → Except ε (Turn σ)) : ℕ → σ → Option (Except ε σ)
  | 0, _ => none
  | fuel + 1, s =>
      match turn s with
      | .error e => some (.error e)
      | .ok (.leave t) => some (.ok t)
      | .ok (.again s') => runLoop turn fuel s'

section Turns

variable {turn : σ → Except ε (Turn σ)}

/-- A loop that goes round `n` times is done after `n + 1` turns. -/
theorem EndsAfter.runLoop_eq {n fuel : ℕ} {s t : σ} (h : EndsAfter turn n s t) (hfuel : n < fuel) :
    runLoop turn fuel s = some (.ok t) := by
  induction h generalizing fuel with
  | leave last =>
    cases fuel with
    | zero => omega
    | succ fuel => simp only [runLoop, last]
  | again first _ ih =>
    cases fuel with
    | zero => omega
    | succ fuel =>
      simp only [runLoop, first]
      exact ih (by omega)

/-- **What a loop computes** is what it ends with. -/
theorem runLoop_eq_ok_iff {fuel : ℕ} {s t : σ} :
    runLoop turn fuel s = some (.ok t) ↔ ∃ n < fuel, EndsAfter turn n s t := by
  constructor
  · intro hrun
    induction fuel generalizing s with
    | zero => cases hrun
    | succ fuel ih =>
      cases hturn : turn s with
      | error e =>
        simp only [runLoop, hturn] at hrun
        cases hrun
      | ok next =>
        cases next with
        | leave u =>
          simp only [runLoop, hturn] at hrun
          cases hrun
          exact ⟨0, Nat.succ_pos fuel, .leave hturn⟩
        | again s' =>
          simp only [runLoop, hturn] at hrun
          obtain ⟨n, hn, hends⟩ := ih hrun
          exact ⟨n + 1, Nat.succ_lt_succ hn, .again hturn hends⟩
  · intro ⟨n, hn, hends⟩
    exact hends.runLoop_eq hn

/-- What a loop has come to, it has come to after any more turns. -/
theorem runLoop_mono {fuel fuel' : ℕ} {s : σ} {result : Except ε σ}
    (hrun : runLoop turn fuel s = some result) (hle : fuel ≤ fuel') :
    runLoop turn fuel' s = some result := by
  induction fuel generalizing fuel' s with
  | zero => cases hrun
  | succ fuel ih =>
    cases fuel' with
    | zero => omega
    | succ fuel' =>
      cases hturn : turn s with
      | error e =>
        simp only [runLoop, hturn] at hrun ⊢
        exact hrun
      | ok next =>
        cases next with
        | leave u =>
          simp only [runLoop, hturn] at hrun ⊢
          exact hrun
        | again s' =>
          simp only [runLoop, hturn] at hrun ⊢
          exact ih hrun (by omega)

/-- A loop ends in one way at most. -/
theorem EndsAfter.unique {n n' : ℕ} {s t t' : σ} (h : EndsAfter turn n s t)
    (h' : EndsAfter turn n' s t') : n = n' ∧ t = t' := by
  induction h generalizing n' with
  | leave last =>
    cases h' with
    | leave last' =>
      rw [last] at last'
      cases last'
      exact ⟨rfl, rfl⟩
    | again first' _ =>
      rw [last] at first'
      cases first'
  | again first _ ih =>
    cases h' with
    | leave last' =>
      rw [first] at last'
      cases last'
    | again first' rest' =>
      rw [first] at first'
      cases first'
      obtain ⟨hn, ht⟩ := ih rest'
      exact ⟨congrArg Nat.succ hn, ht⟩

/-- **The measure rule.**  If under an invariant every turn leaves or takes the
measure down, the loop ends, after no more rounds than the measure says, and it
leaves from a state that meets the invariant. -/
theorem endsAfter_of_measure (I : σ → Prop) (size : σ → ℕ)
    (hturn : ∀ s, I s → (∃ t, turn s = .ok (.leave t)) ∨
      ∃ s', turn s = .ok (.again s') ∧ I s' ∧ size s' < size s) {s : σ} (hs : I s) :
    ∃ n ≤ size s, ∃ u t, I u ∧ turn u = .ok (.leave t) ∧ EndsAfter turn n s t := by
  induction hsize : size s using Nat.strong_induction_on generalizing s with
  | _ k ih =>
    rcases hturn s hs with ⟨t, hleave⟩ | ⟨s', hagain, hs', hlt⟩
    · exact ⟨0, Nat.zero_le k, s, t, hs, hleave, .leave hleave⟩
    · obtain ⟨n, hn, u, t, hu, hleave, hends⟩ := ih (size s') (hsize ▸ hlt) hs' rfl
      exact ⟨n + 1, by omega, u, t, hu, hleave, .again hagain hends⟩

/-- **A loop that never ends**: under an invariant no turn leaves. -/
theorem not_endsAfter (I : σ → Prop)
    (hturn : ∀ s next, I s → turn s = .ok next → ∃ s', next = .again s' ∧ I s')
    {n : ℕ} {s t : σ} (hs : I s) : ¬ EndsAfter turn n s t := by
  intro h
  induction h with
  | leave last =>
    obtain ⟨s', hnext, -⟩ := hturn _ _ hs last
    cases hnext
  | again first _ ih =>
    obtain ⟨s', hnext, hs'⟩ := hturn _ _ hs first
    cases hnext
    exact ih hs'

end Turns

/-! ## `while` loops -/

/-- One turn of `while (cond) body`. -/
def whileTurn (cond : σ → Bool) (body : σ → Except ε σ) (s : σ) : Except ε (Turn σ) :=
  if cond s then (body s).map .again else .ok (.leave s)

/-- The body, `n` times. -/
def passes (body : σ → Except ε σ) : ℕ → σ → Except ε σ
  | 0, s => .ok s
  | n + 1, s => body s >>= passes body n

variable {cond : σ → Bool} {body : σ → Except ε σ}

/-- No pass leaves the state. -/
@[simp] theorem passes_zero (s : σ) : passes body 0 s = .ok s := rfl

/-- The first pass goes on. -/
theorem passes_succ_ok {n : ℕ} {s s' : σ} (h : body s = .ok s') :
    passes body (n + 1) s = passes body n s' := by
  rw [passes, h]
  rfl

/-- The first pass leaves the loop. -/
theorem passes_succ_error {n : ℕ} {s : σ} {e : ε} (h : body s = .error e) :
    passes body (n + 1) s = .error e := by
  rw [passes, h]
  rfl

/-- What a `while` loop ends with, its body has come to, and the condition no
longer holds there. -/
theorem EndsAfter.passes_eq {n : ℕ} {s t : σ} (h : EndsAfter (whileTurn cond body) n s t) :
    passes body n s = .ok t ∧ cond t = false := by
  induction h with
  | @leave s t last =>
    unfold whileTurn at last
    cases hcond : cond s with
    | false =>
      rw [hcond] at last
      cases last
      exact ⟨rfl, hcond⟩
    | true =>
      rw [hcond] at last
      cases hbody : body s <;> rw [hbody] at last <;> cases last
  | @again n s s' t first _ ih =>
    unfold whileTurn at first
    cases hcond : cond s with
    | false =>
      rw [hcond] at first
      cases first
    | true =>
      rw [hcond] at first
      cases hbody : body s with
      | error e =>
        rw [hbody] at first
        cases first
      | ok u =>
        rw [hbody] at first
        cases first
        exact ⟨(passes_succ_ok hbody).trans ih.1, ih.2⟩

/-- A `while` loop whose condition holds before each of `n` passes and no longer
after them ends with what they come to. -/
theorem endsAfter_counted (count : σ → ℕ) (bound : ℕ)
    (hcond : ∀ s, count s ≤ bound → cond s = decide (count s < bound))
    (hbody : ∀ s s', count s < bound → body s = .ok s' → count s' = count s + 1)
    {n : ℕ} {s t : σ} (hn : count s + n = bound) (hpasses : passes body n s = .ok t) :
    EndsAfter (whileTurn cond body) n s t := by
  induction n generalizing s with
  | zero =>
    cases hpasses
    apply EndsAfter.leave
    rw [whileTurn, hcond t (by omega), decide_eq_false (by omega)]
    rfl
  | succ n ih =>
    cases hstep : body s with
    | error e =>
      rw [passes_succ_error hstep] at hpasses
      cases hpasses
    | ok s' =>
      rw [passes_succ_ok hstep] at hpasses
      have hcount := hbody s s' (by omega) hstep
      refine EndsAfter.again ?_ (ih (s := s') (by omega) hpasses)
      rw [whileTurn, hcond s (by omega), decide_eq_true (by omega), if_pos rfl, hstep]
      rfl

/-- **A counted loop** comes to what its passes come to. -/
theorem runLoop_counted (count : σ → ℕ) (bound : ℕ)
    (hcond : ∀ s, count s ≤ bound → cond s = decide (count s < bound))
    (hbody : ∀ s s', count s < bound → body s = .ok s' → count s' = count s + 1)
    {n fuel : ℕ} {s : σ} (hn : count s + n = bound) (hfuel : n < fuel) :
    runLoop (whileTurn cond body) fuel s = some (passes body n s) := by
  induction n generalizing s fuel with
  | zero =>
    have hends := endsAfter_counted count bound hcond hbody hn (passes_zero s)
    exact hends.runLoop_eq hfuel
  | succ n ih =>
    cases fuel with
    | zero => omega
    | succ fuel =>
      have hturn : whileTurn cond body s = (body s).map .again := by
        rw [whileTurn, hcond s (by omega), decide_eq_true (by omega), if_pos rfl]
      cases hstep : body s with
      | error e =>
        rw [hstep] at hturn
        rw [runLoop, hturn, passes_succ_error hstep]
        rfl
      | ok s' =>
        have hcount := hbody s s' (by omega) hstep
        rw [hstep] at hturn
        rw [runLoop, hturn, passes_succ_ok hstep]
        exact ih (by omega) (by omega)

/-- **A counted loop ends** after its passes exactly if they succeed, with what
they come to. -/
theorem endsAfter_counted_iff (count : σ → ℕ) (bound : ℕ)
    (hcond : ∀ s, count s ≤ bound → cond s = decide (count s < bound))
    (hbody : ∀ s s', count s < bound → body s = .ok s' → count s' = count s + 1)
    {n k : ℕ} {s t : σ} (hn : count s + n = bound) :
    EndsAfter (whileTurn cond body) k s t ↔ k = n ∧ passes body n s = .ok t := by
  constructor
  · intro hends
    have hrun := runLoop_counted count bound hcond hbody hn (show n < k + n + 1 by omega)
    rw [hends.runLoop_eq (by omega)] at hrun
    have hpasses : passes body n s = .ok t := (Option.some.inj hrun).symm
    exact ⟨(hends.unique (endsAfter_counted count bound hcond hbody hn hpasses)).1, hpasses⟩
  · intro ⟨hk, hpasses⟩
    rw [hk]
    exact endsAfter_counted count bound hcond hbody hn hpasses

/-! ## Counting in a byte -/

/-- A `while` loop that compares an 8-bit counter with a bound of any size, and
whose body moves the counter on by one, from 255 to 0. -/
structure CountsInByte (cond : σ → Bool) (body : σ → Except ε σ) (i : σ → UInt8) (bound : ℕ) :
    Prop where
  cond_eq : ∀ s, cond s = decide ((i s).toNat < bound)
  body_eq : ∀ s s', body s = .ok s' → i s' = i s + 1

section CountsInByte

variable {i : σ → UInt8} {bound : ℕ}

/-- Below a bound of at most 255 the counter does not turn. -/
theorem CountsInByte.count (h : CountsInByte cond body i bound) (hbound : bound ≤ 255) (s s' : σ)
    (hs : (i s).toNat < bound) (hbody : body s = .ok s') : (i s').toNat = (i s).toNat + 1 := by
  rw [h.body_eq s s' hbody, UInt8.toNat_add]
  exact Nat.mod_eq_of_lt (show (i s).toNat + 1 < 256 by omega)

/-- With a bound of at most 255, the loop comes to what its passes come to. -/
theorem CountsInByte.runLoop_eq (h : CountsInByte cond body i bound) (hbound : bound ≤ 255)
    {fuel : ℕ} {s : σ} (hs : i s = 0) (hfuel : bound < fuel) :
    runLoop (whileTurn cond body) fuel s = some (passes body bound s) := by
  have hstart : (i s).toNat + bound = bound := by
    rw [hs]
    exact Nat.zero_add bound
  exact runLoop_counted (fun s => (i s).toNat) bound (fun s _ => h.cond_eq s) (h.count hbound)
    hstart hfuel

/-- With a bound of at most 255, the loop ends after its passes. -/
theorem CountsInByte.endsAfter_iff (h : CountsInByte cond body i bound) (hbound : bound ≤ 255)
    {n : ℕ} {s t : σ} (hs : i s = 0) :
    EndsAfter (whileTurn cond body) n s t ↔ n = bound ∧ passes body bound s = .ok t := by
  have hstart : (i s).toNat + bound = bound := by
    rw [hs]
    exact Nat.zero_add bound
  exact endsAfter_counted_iff (fun s => (i s).toNat) bound (fun s _ => h.cond_eq s)
    (h.count hbound) hstart

/-- **With a bound of 256 or more the loop never ends**, from any state. -/
theorem CountsInByte.never_ends (h : CountsInByte cond body i bound) (hbound : 256 ≤ bound)
    {n : ℕ} {s t : σ} : ¬ EndsAfter (whileTurn cond body) n s t := by
  intro hends
  have hstop := hends.passes_eq.2
  have hi := (i t).toNat_lt
  rw [h.cond_eq, decide_eq_false_iff_not] at hstop
  omega

end CountsInByte

end Ctools.Library
