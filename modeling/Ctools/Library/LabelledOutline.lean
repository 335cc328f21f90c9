import Ctools.Library.LabelledCode

/-!
# Proof outlines for statements with labels

An outline gives a statement what holds before and behind it, and every label what holds when a
`switch` statement goes to it: what is behind the label must hold both when the label is reached
in order and when it is gone to.  `Outline A R P a Q` says so of the statement `a`, the labels'
conditions `A`, what holds when it returns (`R`), before (`P`) and behind (`Q`).

The rules are `Outline.after` (an outline of a statement is one of what is behind any label of
it) and `chain_sound` (what is executed under an outline ends as the outline says).
-/

set_option autoImplicit false

namespace Ctools.Library

open StateTransition

variable {σ ρ : Type}

/-- The outline of a statement. -/
inductive Outline (R : ρ → σ → Prop) :
    (ℕ → σ → Prop) → (σ → Prop) → Labelled σ ρ → (σ → Prop) → Prop
  | skip {A : ℕ → σ → Prop} {P Q : σ → Prop} (h : ∀ s, P s → Q s) : Outline R A P .skip Q
  | act {A : ℕ → σ → Prop} {P Q : σ → Prop} {f : σ → σ} (h : ∀ s, P s → Q (f s)) :
      Outline R A P (.act f) Q
  | seq {A : ℕ → σ → Prop} {P M Q : σ → Prop} {a b : Labelled σ ρ} (first : Outline R A P a M)
      (second : Outline R A M b Q) : Outline R A P (.seq a b) Q
  | ite {A : ℕ → σ → Prop} {P T F Q : σ → Prop} {c : σ → Option (Bool × σ)}
      {a b : Labelled σ ρ} (htrue : ∀ s s', P s → c s = some (true, s') → T s')
      (hfalse : ∀ s s', P s → c s = some (false, s') → F s') (first : Outline R A T a Q)
      (second : Outline R A F b Q) : Outline R A P (.ite c a b) Q
  | loop {A : ℕ → σ → Prop} {P I B Q : σ → Prop} {c : σ → Option (Bool × σ)} {a : Labelled σ ρ}
      (init : ∀ s, P s → I s) (htrue : ∀ s s', I s → c s = some (true, s') → B s')
      (hfalse : ∀ s s', I s → c s = some (false, s') → Q s') (body : Outline R A B a I) :
      Outline R A P (.loop c a) Q
  | label {A : ℕ → σ → Prop} {P Q : σ → Prop} {l : ℕ} (h : ∀ s, P s → Q s)
      (hgone : ∀ s, A l s → Q s) : Outline R A P (.label l) Q
  | ret {A : ℕ → σ → Prop} {P Q : σ → Prop} {r : ρ} (h : ∀ s, P s → R r s) :
      Outline R A P (.ret r) Q
  | switch {A A' : ℕ → σ → Prop} {P Q : σ → Prop} {e : σ → ℕ} {a : Labelled σ ρ}
      (hgoes : ∀ s k, P s → a.after (e s) = some k → A' (e s) s)
      (hpast : ∀ s, P s → a.after (e s) = none → Q s)
      (body : Outline R A' (fun _ => False) a Q) : Outline R A P (.switch e a) Q

/-- What holds before may be stronger. -/
theorem Outline.strengthen {R : ρ → σ → Prop} {A : ℕ → σ → Prop} {P P' Q : σ → Prop}
    {a : Labelled σ ρ} (h : Outline R A P a Q) (hP : ∀ s, P' s → P s) : Outline R A P' a Q := by
  induction h generalizing P' with
  | skip h => exact .skip fun s hs => h s (hP s hs)
  | act h => exact .act fun s hs => h s (hP s hs)
  | seq first second ih _ => exact .seq (ih hP) second
  | ite htrue hfalse first second =>
    exact .ite (fun s s' hs => htrue s s' (hP s hs)) (fun s s' hs => hfalse s s' (hP s hs)) first
      second
  | loop init htrue hfalse body => exact .loop (fun s hs => init s (hP s hs)) htrue hfalse body
  | label h hgone => exact .label (fun s hs => h s (hP s hs)) hgone
  | ret h => exact .ret fun s hs => h s (hP s hs)
  | switch hgoes hpast body =>
    exact .switch (fun s k hs => hgoes s k (hP s hs)) (fun s hs => hpast s (hP s hs)) body

/-- The outlines of statements in a row. -/
def Chain (R : ρ → σ → Prop) : (σ → Prop) → List (Labelled σ ρ) → (σ → Prop) → Prop
  | P, [], Q => ∀ s, P s → Q s
  | P, a :: rest, Q => ∃ A M, Outline R A P a M ∧ Chain R M rest Q

variable {R : ρ → σ → Prop} {A : ℕ → σ → Prop} {P M Q : σ → Prop}

/-- Outlines follow each other. -/
theorem Chain.append {k k' : List (Labelled σ ρ)} (h : Chain R P k M) (h' : Chain R M k' Q) :
    Chain R P (k ++ k') Q := by
  induction k generalizing P with
  | nil =>
    cases k' with
    | nil => exact fun s hs => h' s (h s hs)
    | cons a k' =>
      obtain ⟨A, N, hfirst, hrest⟩ := h'
      exact ⟨A, N, hfirst.strengthen h, hrest⟩
  | cons a k ih =>
    obtain ⟨A, N, hfirst, hrest⟩ := h
    exact ⟨A, N, hfirst, ih hrest⟩

/-- **Behind a label**: what an outline says of the statement, it says of what is behind any
label of it, from the label's condition on. -/
theorem Outline.after {a : Labelled σ ρ} (h : Outline R A P a Q) {l : ℕ} {k : List (Labelled σ ρ)}
    (hafter : a.after l = some k) : Chain R (A l) k Q := by
  induction h generalizing k with
  | skip | act | ret | switch => cases hafter
  | @seq _ _ _ _ a b first second ihfirst ihsecond =>
    rw [Labelled.after] at hafter
    cases ha : a.after l with
    | none =>
      rw [ha] at hafter
      exact ihsecond hafter
    | some k' =>
      rw [ha] at hafter
      obtain rfl := Option.some_inj.mp hafter
      exact (ihfirst ha).append ⟨_, _, second, fun s hs => hs⟩
  | @ite _ _ _ _ _ c a b htrue hfalse first second ihfirst ihsecond =>
    rw [Labelled.after] at hafter
    cases ha : a.after l with
    | none =>
      rw [ha] at hafter
      exact ihsecond hafter
    | some k' =>
      rw [ha] at hafter
      obtain rfl := Option.some_inj.mp hafter
      exact ihfirst ha
  | loop init htrue hfalse body ih =>
    obtain ⟨k', ha, rfl⟩ := Option.map_eq_some_iff.mp hafter
    exact (ih ha).append ⟨_, _, .loop (fun s hs => hs) htrue hfalse body, fun s hs => hs⟩
  | @label _ _ _ l' h hgone =>
    rw [Labelled.after] at hafter
    split at hafter
    · rename_i hl
      subst hl
      obtain rfl := Option.some_inj.mp hafter
      exact hgone
    · cases hafter

/-- An execution under an outline. -/
inductive Sound (R : ρ → σ → Prop) (Q : σ → Prop) : Control σ ρ → Prop
  | going {P : σ → Prop} {k : List (Labelled σ ρ)} {s : σ} (chain : Chain R P k Q) (h : P s) :
      Sound R Q (.going k s)
  | returned {r : ρ} {s : σ} (h : R r s) : Sound R Q (.returned (some r) s)
  | past {s : σ} (h : Q s) : Sound R Q (.returned none s)

/-- A step keeps an outline sound. -/
theorem sound_step {c c' : Control σ ρ} (h : Sound R Q c) (hstep : Control.step c = some c') :
    Sound R Q c' := by
  cases h with
  | returned | past => cases hstep
  | @going _ k s chain hs =>
    cases k with
    | nil =>
      cases hstep
      exact .past (chain s hs)
    | cons a k =>
      obtain ⟨A, M, houtline, hrest⟩ := chain
      cases houtline with
      | skip h =>
        cases hstep
        exact .going hrest (h s hs)
      | act h =>
        cases hstep
        exact .going hrest (h s hs)
      | seq first second =>
        cases hstep
        exact .going ⟨A, _, first, A, _, second, hrest⟩ hs
      | ite htrue hfalse first second =>
        obtain ⟨⟨taken, s'⟩, hc, rfl⟩ := Option.map_eq_some_iff.mp hstep
        cases taken with
        | true => exact .going ⟨A, _, first, hrest⟩ (htrue s s' hs hc)
        | false => exact .going ⟨A, _, second, hrest⟩ (hfalse s s' hs hc)
      | loop init htrue hfalse body =>
        obtain ⟨⟨taken, s'⟩, hc, rfl⟩ := Option.map_eq_some_iff.mp hstep
        cases taken with
        | true =>
          have hagain := Outline.loop (fun s hs => hs) htrue hfalse body
          exact .going ⟨A, _, body, A, _, hagain, hrest⟩ (htrue s s' (init s hs) hc)
        | false => exact .going hrest (hfalse s s' (init s hs) hc)
      | label h hgone =>
        cases hstep
        exact .going hrest (h s hs)
      | ret h =>
        cases hstep
        exact .returned (h s hs)
      | @switch _ A' _ _ e a hgoes hpast body =>
        rw [Control.step, Option.some_inj] at hstep
        subst hstep
        cases ha : a.after (e s) with
        | none => exact .going hrest (hpast s hs ha)
        | some k' => exact .going ((body.after ha).append hrest) (hgoes s k' hs ha)

/-- **What is executed under an outline** ends as the outline says. -/
theorem chain_sound {k : List (Labelled σ ρ)} {s : σ} {c : Control σ ρ} (chain : Chain R P k Q)
    (h : P s) (hend : c ∈ eval Control.step (.going k s)) : Sound R Q c := by
  have hruns : ∀ d, Reaches Control.step (.going k s) d → Sound R Q d := by
    intro d hreaches
    induction hreaches with
    | refl => exact .going chain h
    | tail _ hstep ih => exact sound_step ih hstep
  exact hruns c (mem_eval.mp hend).1

end Ctools.Library
