import Ctools.Library.Machine

/-!
# Statements with labels

Structured statements in which labels stand, and `switch` statements that go to one of them,
into the middle of conditionals and loops if it stands there.  The program point behind a label
is the list of what is executed from it: the rest of every block around it, and every loop
around it once more (`Labelled.after`).

`Control.step` executes one statement of such a list.  Whether an execution comes to an end, and
where, is `StateTransition.eval`; `settle` computes it for as long as its fuel lasts
(`exists_settle_iff`).  A machine whose steps are such executions is one for every fuel;
`exists_exec_cons_iff` takes a run of it apart.
-/

set_option autoImplicit false

namespace Ctools.Library

open StateTransition

/-! ## Executions -/

/-- Take steps until there is none to take; `none` if the fuel does not last. -/
def settle {α : Type} (f : α → Option α) : ℕ → α → Option α
  | 0, _ => none
  | fuel + 1, a =>
      match f a with
      | none => some a
      | some b => settle f fuel b

/-- Enough fuel comes to where the steps end. -/
theorem exists_settle_iff {α : Type} {f : α → Option α} {a b : α} :
    (∃ fuel, settle f fuel a = some b) ↔ b ∈ eval f a := by
  constructor
  · intro h
    obtain ⟨fuel, hrun⟩ := h
    induction fuel generalizing a with
    | zero => cases hrun
    | succ fuel ih =>
      rw [settle] at hrun
      cases hstep : f a with
      | none =>
        rw [hstep] at hrun
        cases hrun
        exact mem_eval.mpr ⟨.refl, hstep⟩
      | some a' =>
        rw [hstep] at hrun
        rw [reaches_eval (.single hstep)]
        exact ih hrun
  · intro h
    refine evalInduction h fun a _ ih => ?_
    cases hstep : f a with
    | none =>
      have hend := mem_eval.mp ‹b ∈ eval f a›
      obtain rfl : b = a := (eval_maximal (mem_eval.mpr ⟨.refl, hstep⟩)).mp hend.1
      exact ⟨1, by rw [settle, hstep]⟩
    | some a' =>
      obtain ⟨fuel, hrun⟩ := ih a' hstep
      exact ⟨fuel + 1, by rw [settle, hstep]; exact hrun⟩

/-- More fuel settles what less fuel did. -/
theorem settle_mono {α : Type} {f : α → Option α} {a b : α} {fuel fuel' : ℕ} (hle : fuel ≤ fuel')
    (h : settle f fuel a = some b) : settle f fuel' a = some b := by
  induction fuel generalizing fuel' a with
  | zero => cases h
  | succ fuel ih =>
    obtain ⟨fuel', rfl⟩ : ∃ n, fuel' = n + 1 := ⟨fuel' - 1, by omega⟩
    rw [settle] at h ⊢
    cases hstep : f a with
    | none => rwa [hstep] at h
    | some a' =>
      rw [hstep] at h
      exact ih (by omega) h

/-- Steps of a machine for every fuel, of which more fuel only computes more. -/
def Machine.Fuelled {σ ι ο : Type} (m : ℕ → Machine σ ι ο) : Prop :=
  ∀ ⦃fuel fuel' : ℕ⦄ ⦃s : σ⦄ ⦃i : ι⦄ ⦃r : ο × σ⦄, fuel ≤ fuel' → (m fuel).step s i = some r →
    (m fuel').step s i = some r

/-- More fuel runs what less fuel did. -/
theorem Machine.Fuelled.exec_mono {σ ι ο : Type} {m : ℕ → Machine σ ι ο} (hm : Machine.Fuelled m)
    {fuel fuel' : ℕ} (hle : fuel ≤ fuel') {s : σ} {is : List ι} {r : List (ι × ο) × σ}
    (h : (m fuel).exec s is = some r) : (m fuel').exec s is = some r := by
  induction is generalizing s r with
  | nil => exact h
  | cons i is ih =>
    simp only [Machine.exec, Option.bind_eq_bind, Option.bind_eq_some_iff, Prod.exists,
      Option.pure_def, Option.some.injEq] at h
    obtain ⟨o, s', hstep, rest, t, hrest, rfl⟩ := h
    exact Machine.exec_cons _ (hm hle hstep) (ih hrest)

/-- **A run with enough fuel** is a step with enough fuel and a run with enough fuel. -/
theorem Machine.Fuelled.exists_exec_cons_iff {σ ι ο : Type} {m : ℕ → Machine σ ι ο}
    (hm : Machine.Fuelled m) {s t : σ} {i : ι} {is : List ι} {h : List (ι × ο)} :
    (∃ fuel, (m fuel).exec s (i :: is) = some (h, t)) ↔
      ∃ o s' rest, (∃ fuel, (m fuel).step s i = some (o, s')) ∧
        (∃ fuel, (m fuel).exec s' is = some (rest, t)) ∧ h = (i, o) :: rest := by
  constructor
  · rintro ⟨fuel, hexec⟩
    simp only [Machine.exec, Option.bind_eq_bind, Option.bind_eq_some_iff, Prod.exists,
      Option.pure_def, Option.some.injEq, Prod.mk.injEq] at hexec
    obtain ⟨o, s', hstep, rest, t', hrest, rfl, rfl⟩ := hexec
    exact ⟨o, s', rest, ⟨fuel, hstep⟩, ⟨fuel, hrest⟩, rfl⟩
  · rintro ⟨o, s', rest, ⟨fuel, hstep⟩, ⟨fuel', hrest⟩, rfl⟩
    exact ⟨max fuel fuel', Machine.exec_cons _ (hm (Nat.le_max_left _ _) hstep)
      (hm.exec_mono (Nat.le_max_right _ _) hrest)⟩

/-! ## Statements -/

/-- Statements over states `σ` that return a `ρ`.  A condition may change the state, and may come
to nothing. -/
inductive Labelled (σ ρ : Type) where
  | skip
  | act (f : σ → σ)
  | seq (a b : Labelled σ ρ)
  | ite (c : σ → Option (Bool × σ)) (a b : Labelled σ ρ)
  | loop (c : σ → Option (Bool × σ)) (a : Labelled σ ρ)
  | label (l : ℕ)
  | ret (r : ρ)
  | switch (e : σ → ℕ) (a : Labelled σ ρ)

variable {σ ρ : Type}

namespace Labelled

/-- What is executed from the label `l` on, if it stands in the statement; the labels in a
`switch` statement belong to that. -/
def after (l : ℕ) : Labelled σ ρ → Option (List (Labelled σ ρ))
  | seq a b =>
      match after l a with
      | some rest => some (rest ++ [b])
      | none => after l b
  | ite _ a b =>
      match after l a with
      | some rest => some rest
      | none => after l b
  | loop c a => (after l a).map (· ++ [loop c a])
  | label l' => if l' = l then some [] else none
  | _ => none

end Labelled

/-- An execution: what is still to be executed, or what was returned. -/
inductive Control (σ ρ : Type) where
  | going (rest : List (Labelled σ ρ)) (s : σ)
  | returned (r : Option ρ) (s : σ)

namespace Control

/-- One statement. -/
def step : Control σ ρ → Option (Control σ ρ)
  | returned _ _ => none
  | going [] s => some (returned none s)
  | going (.skip :: rest) s => some (going rest s)
  | going (.act f :: rest) s => some (going rest (f s))
  | going (.seq a b :: rest) s => some (going (a :: b :: rest) s)
  | going (.ite c a b :: rest) s =>
      (c s).map fun (taken, s) => going ((if taken then a else b) :: rest) s
  | going (.loop c a :: rest) s =>
      (c s).map fun (taken, s) => if taken then going (a :: .loop c a :: rest) s else going rest s
  | going (.label _ :: rest) s => some (going rest s)
  | going (.ret r :: _) s => some (returned (some r) s)
  | going (.switch e a :: rest) s =>
      some (match a.after (e s) with
        | some body => going (body ++ rest) s
        | none => going rest s)

/-- A step is taken on the way to wherever the execution comes. -/
theorem reaches₁_of_step {c c' d : Control σ ρ} (h : step c = some c') (hrest : Reaches step c' d) :
    Reaches₁ step c d := Relation.TransGen.head' h hrest

/-- A step comes before the rest. -/
theorem reaches_of_step {c c' d : Control σ ρ} (h : step c = some c') (hrest : Reaches step c' d) :
    Reaches step c d := Relation.ReflTransGen.head h hrest

end Control

end Ctools.Library
