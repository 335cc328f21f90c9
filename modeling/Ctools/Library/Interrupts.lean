import Ctools.Library.Machine

/-!
# Code under nested interrupts

Activations of code run on a shared state.  `base` is the code that is interrupted;
between any two steps a handler may start on top of what runs, and only the activation on
top takes steps, so a handler runs to its end before what it interrupted goes on.
`interruptMove_of_step` lists what a step can be, and `frames_of_move` what it does to all
activations alike, the one at the base included.
-/

set_option autoImplicit false

namespace Ctools.Library

/-- The steps of one activation, what a handler starts as, and whether an activation may
return. -/
structure Code (σ φ ι : Type) where
  step : σ → φ → ι → Option (σ × φ)
  entry : φ
  mayReturn : φ → Bool

/-- The shared state and the activations, the one on top first. -/
structure Interrupted (σ φ : Type) where
  shared : σ
  handlers : List φ
  base : φ

/-- The activation on top takes a step, is interrupted, or is a handler that returns. -/
inductive InterruptAct (ι : Type) where
  | run (i : ι)
  | interrupt
  | leave
deriving DecidableEq

variable {σ φ ι : Type}

/-- One step. -/
def Code.interruptStep (c : Code σ φ ι) (s : Interrupted σ φ) :
    InterruptAct ι → Option (Unit × Interrupted σ φ)
  | .run i =>
      match s.handlers with
      | [] => (c.step s.shared s.base i).map fun (shared, base) => ((), ⟨shared, [], base⟩)
      | top :: below =>
          (c.step s.shared top i).map fun (shared, top) => ((), ⟨shared, top :: below, s.base⟩)
  | .interrupt => some ((), { s with handlers := c.entry :: s.handlers })
  | .leave =>
      match s.handlers with
      | [] => none
      | top :: below => if c.mayReturn top then some ((), { s with handlers := below }) else none

/-- The code under any interrupts. -/
def Code.interrupted (c : Code σ φ ι) : Machine (Interrupted σ φ) (InterruptAct ι) Unit :=
  ⟨c.interruptStep⟩

/-- What a step can be. -/
inductive InterruptMove (c : Code σ φ ι) (s : Interrupted σ φ) :
    InterruptAct ι → Interrupted σ φ → Prop
  | base {i : ι} {shared : σ} {base : φ} (alone : s.handlers = [])
      (moved : c.step s.shared s.base i = some (shared, base)) :
      InterruptMove c s (.run i) ⟨shared, [], base⟩
  | handler {i : ι} {top top' : φ} {below : List φ} {shared : σ}
      (active : s.handlers = top :: below)
      (moved : c.step s.shared top i = some (shared, top')) :
      InterruptMove c s (.run i) ⟨shared, top' :: below, s.base⟩
  | interrupt : InterruptMove c s .interrupt { s with handlers := c.entry :: s.handlers }
  | leave {top : φ} {below : List φ} (active : s.handlers = top :: below)
      (ended : c.mayReturn top = true) :
      InterruptMove c s .leave { s with handlers := below }

/-- Every step is one of these. -/
theorem interruptMove_of_step {c : Code σ φ ι} {s s' : Interrupted σ φ} {a : InterruptAct ι}
    {o : Unit}
    (h : c.interruptStep s a = some (o, s')) : InterruptMove c s a s' := by
  obtain ⟨shared, handlers, base⟩ := s
  cases a with
  | run i =>
    cases handlers with
    | nil =>
      simp only [Code.interruptStep, Option.map_eq_some_iff, Prod.mk.injEq, Prod.exists] at h
      obtain ⟨shared', base', hmoved, -, rfl⟩ := h
      exact .base rfl hmoved
    | cons top below =>
      simp only [Code.interruptStep, Option.map_eq_some_iff, Prod.mk.injEq, Prod.exists] at h
      obtain ⟨shared', top', hmoved, -, rfl⟩ := h
      exact .handler rfl hmoved
  | interrupt =>
    simp only [Code.interruptStep, Option.some.injEq, Prod.mk.injEq] at h
    obtain ⟨-, rfl⟩ := h
    exact .interrupt
  | leave =>
    cases handlers with
    | nil => cases h
    | cons top below =>
      cases hover : c.mayReturn top with
      | false => simp [Code.interruptStep, hover] at h
      | true =>
        simp only [Code.interruptStep, hover, if_true, Option.some.injEq, Prod.mk.injEq] at h
        obtain ⟨-, rfl⟩ := h
        exact .leave rfl hover

/-- All activations, the one on top first. -/
def Interrupted.frames (s : Interrupted σ φ) : List φ := s.handlers ++ [s.base]

/-- A step replaces the activation on top, puts one on it, or takes it away. -/
theorem frames_of_move {c : Code σ φ ι} {s s' : Interrupted σ φ} {a : InterruptAct ι}
    (hmove : InterruptMove c s a s') :
    (∃ i top top' rest, a = .run i ∧ c.step s.shared top i = some (s'.shared, top') ∧
      s.frames = top :: rest ∧ s'.frames = top' :: rest) ∨
    (s'.shared = s.shared ∧ s'.frames = c.entry :: s.frames) ∨
    ∃ top, c.mayReturn top = true ∧ s'.shared = s.shared ∧ s.frames = top :: s'.frames := by
  cases hmove with
  | @base i shared base alone moved =>
    refine .inl ⟨i, s.base, base, [], rfl, moved, ?_, rfl⟩
    rw [Interrupted.frames, alone, List.nil_append]
  | @handler i top top' below shared active moved =>
    refine .inl ⟨i, top, top', below ++ [s.base], rfl, moved, ?_, rfl⟩
    rw [Interrupted.frames, active, List.cons_append]
  | interrupt => exact .inr (.inl ⟨rfl, rfl⟩)
  | @leave top below active ended =>
    refine .inr (.inr ⟨top, ended, rfl, ?_⟩)
    rw [Interrupted.frames, active, List.cons_append]
    rfl

/-- Handlers that are over return one after the other. -/
theorem run_leave {c : Code σ φ ι} (shared : σ) (base : φ) {handlers : List φ}
    (hover : ∀ f ∈ handlers, c.mayReturn f = true) {h : List (InterruptAct ι × Unit)}
    {t : Interrupted σ φ}
    (hrun : c.interrupted.Run Machine.anyStep ⟨shared, [], base⟩ h t) :
    ∃ h', c.interrupted.Run Machine.anyStep ⟨shared, handlers, base⟩ h' t := by
  induction handlers with
  | nil => exact ⟨h, hrun⟩
  | cons top below ih =>
    obtain ⟨h', hrest⟩ := ih fun f hf => hover f (List.mem_cons_of_mem _ hf)
    have hstep : c.interrupted.step ⟨shared, top :: below, base⟩ .leave =
        some ((), ⟨shared, below, base⟩) := by
      simp [Code.interrupted, Code.interruptStep, hover top List.mem_cons_self]
    exact ⟨_, hrest.prepend trivial hstep⟩

end Ctools.Library
