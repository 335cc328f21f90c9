import Mathlib

/-!
# Machines with partial steps and recorded histories

A machine reads an input, which settles every choice that is not its own (the
operation and its arguments, the thread that moves, the answer of a system
call), and either cannot take it or answers with an output and a next state.

`Machine.Run` is a finite run together with its history, the list of inputs
and outputs in order; every step of a run meets a `guard` on the state before
it and its input.  `Machine.exec` computes a run, `Machine.execUnder` one under a
decidable guard.  The rules the developments use are `Run.invariant` (an invariant over
history and state, from its step), `Run.invariant_steps` and `Run.invariant_shows` (from
an invariant of the state, what holds of every step and what every output shows),
`Run.unique` (a history leads to one state),
and `exec_simulates` (a machine whose every step succeeds and is matched by a
step of an abstract one).
-/

set_option autoImplicit false

namespace Ctools.Library

/-- A machine with states `σ`, inputs `ι` and outputs `ο`; `none` is an input
the machine cannot take in that state. -/
structure Machine (σ ι ο : Type) where
  step : σ → ι → Option (ο × σ)

namespace Machine

variable {σ ι ο : Type} (m : Machine σ ι ο)

/-- `m.Run guard s₀ h s`: from `s₀` the machine reaches `s` with history `h`,
and `guard` holds of the state before each step and its input. -/
inductive Run (guard : σ → ι → Prop) (s₀ : σ) : List (ι × ο) → σ → Prop
  | start : Run guard s₀ [] s₀
  | next {h : List (ι × ο)} {s : σ} {i : ι} {o : ο} {s' : σ}
      (before : Run guard s₀ h s) (met : guard s i) (moved : m.step s i = some (o, s')) :
      Run guard s₀ (h ++ [(i, o)]) s'

/-- The guard that lets every step through. -/
def anyStep : σ → ι → Prop := fun _ _ => True

/-- Run a list of inputs, recording the history; `none` if one cannot be taken. -/
def exec : σ → List ι → Option (List (ι × ο) × σ)
  | s, [] => some ([], s)
  | s, i :: is => do
      let (o, s') ← m.step s i
      let (h, t) ← exec s' is
      pure ((i, o) :: h, t)

/-- No input leaves the state. -/
@[simp] theorem exec_nil (s : σ) : m.exec s [] = some ([], s) := rfl

/-- The first input goes first. -/
theorem exec_cons {s s' t : σ} {i : ι} {is : List ι} {o : ο} {h : List (ι × ο)}
    (hstep : m.step s i = some (o, s')) (hrest : m.exec s' is = some (h, t)) :
    m.exec s (i :: is) = some ((i, o) :: h, t) := by
  simp [exec, hstep, hrest]

variable {m}

/-- A run may be given as its first step and the run that follows it. -/
theorem Run.prepend {guard : σ → ι → Prop} {s s' t : σ} {i : ι} {o : ο} {h : List (ι × ο)}
    (hg : guard s i) (hstep : m.step s i = some (o, s')) (hrun : m.Run guard s' h t) :
    m.Run guard s ((i, o) :: h) t := by
  induction hrun with
  | start => exact Run.next (h := []) .start hg hstep
  | next _ met moved ih => exact Run.next ih met moved

/-- What `exec` computes is a run. -/
theorem run_of_exec (s : σ) (is : List ι) {h : List (ι × ο)} {t : σ}
    (hexec : m.exec s is = some (h, t)) : m.Run anyStep s h t := by
  induction is generalizing s h with
  | nil =>
    simp only [exec_nil, Option.some.injEq, Prod.mk.injEq] at hexec
    obtain ⟨rfl, rfl⟩ := hexec
    exact .start
  | cons i is ih =>
    simp only [exec, Option.bind_eq_bind, Option.bind_eq_some_iff, Option.pure_def,
      Option.some.injEq, Prod.mk.injEq, Prod.exists] at hexec
    obtain ⟨o, s', hstep, rest, u, hrest, rfl, rfl⟩ := hexec
    exact Run.prepend trivial hstep (ih s' hrest)

/-- Run a list of inputs as long as they meet the guard. -/
def execUnder (m : Machine σ ι ο) (guard : σ → ι → Prop) [∀ s i, Decidable (guard s i)] :
    σ → List ι → Option (List (ι × ο) × σ)
  | s, [] => some ([], s)
  | s, i :: is =>
      if guard s i then do
        let (o, s') ← m.step s i
        let (h, t) ← execUnder m guard s' is
        pure ((i, o) :: h, t)
      else none

/-- What `execUnder` computes is a run under the guard. -/
theorem run_of_execUnder (guard : σ → ι → Prop) [∀ s i, Decidable (guard s i)] (s : σ)
    (is : List ι) {h : List (ι × ο)} {t : σ} (hexec : m.execUnder guard s is = some (h, t)) :
    m.Run guard s h t := by
  induction is generalizing s h with
  | nil =>
    simp only [execUnder, Option.some.injEq, Prod.mk.injEq] at hexec
    obtain ⟨rfl, rfl⟩ := hexec
    exact .start
  | cons i is ih =>
    by_cases hg : guard s i
    · simp only [execUnder, if_pos hg, Option.bind_eq_bind, Option.bind_eq_some_iff,
        Option.pure_def, Option.some.injEq, Prod.mk.injEq, Prod.exists] at hexec
      obtain ⟨o, s', hstep, rest, u, hrest, rfl, rfl⟩ := hexec
      exact Run.prepend hg hstep (ih s' hrest)
    · simp [execUnder, hg] at hexec

/-- **The invariant rule.**  What holds of the start with no history, and is
kept by every step a run may take, holds at the end of every run. -/
theorem Run.invariant {guard : σ → ι → Prop} {s₀ : σ} (I : List (ι × ο) → σ → Prop)
    (init : I [] s₀)
    (keep : ∀ h s i o s', I h s → guard s i → m.step s i = some (o, s') → I (h ++ [(i, o)]) s')
    {h : List (ι × ο)} {s : σ} (hrun : m.Run guard s₀ h s) : I h s := by
  induction hrun with
  | start => exact init
  | next _ met moved ih => exact keep _ _ _ _ _ ih met moved

/-- The invariant rule for the steps of a run: with an invariant of the state under
which every step has `P` of its input and output, a run has only such steps. -/
theorem Run.invariant_steps {guard : σ → ι → Prop} {s₀ : σ} (I : σ → Prop) (P : ι × ο → Prop)
    (init : I s₀)
    (keep : ∀ s i o s', I s → guard s i → m.step s i = some (o, s') → I s' ∧ P (i, o))
    {h : List (ι × ο)} {s : σ} (hrun : m.Run guard s₀ h s) : I s ∧ ∀ e ∈ h, P e := by
  refine hrun.invariant (fun h s => I s ∧ ∀ e ∈ h, P e) ⟨init, by simp⟩ ?_
  rintro h s i o s' ⟨hI, hsteps⟩ hg hstep
  obtain ⟨hI', hP⟩ := keep s i o s' hI hg hstep
  exact ⟨hI', List.forall_mem_append.mpr ⟨hsteps, List.forall_mem_singleton.mpr hP⟩⟩

/-- The invariant rule for what is shown: with an invariant of the state under
which every step shows something `P`, a run shows only that. -/
theorem Run.invariant_shows {guard : σ → ι → Prop} {s₀ : σ} (I : σ → Prop) (P : ο → Prop)
    (init : I s₀)
    (keep : ∀ s i o s', I s → guard s i → m.step s i = some (o, s') → I s' ∧ P o)
    {h : List (ι × ο)} {s : σ} (hrun : m.Run guard s₀ h s) : I s ∧ ∀ e ∈ h, P e.2 :=
  hrun.invariant_steps I (fun e => P e.2) init keep

/-- A run under a guard is a run under any weaker one. -/
theorem Run.weaken {guard guard' : σ → ι → Prop} (hle : ∀ s i, guard s i → guard' s i) {s₀ s : σ}
    {h : List (ι × ο)} (hrun : m.Run guard s₀ h s) : m.Run guard' s₀ h s := by
  induction hrun with
  | start => exact .start
  | next _ met moved ih => exact .next ih (hle _ _ met) moved

/-- The last step of a run. -/
theorem Run.last {guard : σ → ι → Prop} {s₀ t : σ} {h : List (ι × ο)} {i : ι} {o : ο}
    (hrun : m.Run guard s₀ (h ++ [(i, o)]) t) :
    ∃ s, m.Run guard s₀ h s ∧ guard s i ∧ m.step s i = some (o, t) := by
  generalize hwhole : h ++ [(i, o)] = whole at hrun
  cases hrun with
  | start => exact absurd hwhole (by simp)
  | next before met moved =>
    obtain ⟨rfl, hlast⟩ := List.append_inj' hwhole rfl
    cases hlast
    exact ⟨_, before, met, moved⟩

/-- A history leads to one state only. -/
theorem Run.unique {guard guard' : σ → ι → Prop} {s₀ s t : σ} {h : List (ι × ο)}
    (hrun : m.Run guard s₀ h s) (hrun' : m.Run guard' s₀ h t) : s = t := by
  induction hrun generalizing t with
  | start =>
    generalize hnil : ([] : List (ι × ο)) = whole at hrun'
    cases hrun' with
    | start => rfl
    | next => exact absurd hnil (by simp)
  | next before met moved ih =>
    obtain ⟨u, before', -, moved'⟩ := hrun'.last
    obtain rfl := ih before'
    rw [moved, Option.some.injEq, Prod.mk.injEq] at moved'
    exact moved'.2

/-- **Simulation.**  If every step of the list from a state related to an
abstract one succeeds and is matched by the abstract machine with the same
output, then the list runs, and the abstract machine runs it with the same
history. -/
theorem exec_simulates {α : Type} {a : Machine α ι ο} (R : σ → α → Prop) (is : List ι)
    (hstep : ∀ i ∈ is, ∀ s x, R s x → ∃ o s' x', m.step s i = some (o, s') ∧
      a.step x i = some (o, x') ∧ R s' x') (s : σ) (x : α) (hR : R s x) :
    ∃ h t y, m.exec s is = some (h, t) ∧ a.exec x is = some (h, y) ∧ R t y := by
  induction is generalizing s x with
  | nil => exact ⟨[], s, x, rfl, rfl, hR⟩
  | cons i is ih =>
    obtain ⟨o, s', x', hm, ha, hR'⟩ := hstep i List.mem_cons_self s x hR
    obtain ⟨h, t, y, hexec, haexec, hRt⟩ :=
      ih (fun j hj => hstep j (List.mem_cons_of_mem _ hj)) s' x' hR'
    exact ⟨(i, o) :: h, t, y, m.exec_cons hm hexec, a.exec_cons ha haexec, hRt⟩

end Machine

end Ctools.Library
