import Mathlib

/-!
# Loops with a fixed number of turns

`forTurns n turn s` runs `turn 0`, ..., `turn (n - 1)` from `s` on; a turn may fail.  The rules
are: what the turns are known to come to, the loop comes to (`forTurns_eq`); an invariant that
every turn keeps holds at the end (`forTurns_invariant`); loops in a row are one loop
(`forTurns_add`); a loop is undone by one that undoes its turns from the last to the first
(`forTurns_undo`); and a fold over a list that a function of the index gives is a loop
(`foldlM_map_range`).  `mapM_eq_map` is the same for values that do not depend on each other.
-/

set_option autoImplicit false

namespace Ctools.Library

variable {σ α : Type}

/-- `for (i = 0; i < n; i++)`. -/
def forTurns (n : ℕ) (turn : ℕ → σ → Option σ) (s : σ) : Option σ :=
  (List.range n).foldlM (fun s i => turn i s) s

/-- No turn leaves the state. -/
@[simp] theorem forTurns_zero (turn : ℕ → σ → Option σ) (s : σ) : forTurns 0 turn s = some s := rfl

/-- The last turn comes last. -/
theorem forTurns_succ (n : ℕ) (turn : ℕ → σ → Option σ) (s : σ) :
    forTurns (n + 1) turn s = (forTurns n turn s).bind (turn n) := by
  unfold forTurns
  rw [List.range_succ, List.foldlM_append]
  simp only [List.foldlM_cons, List.foldlM_nil, Option.bind_eq_bind, Option.pure_def,
    Option.bind_fun_some]

/-- **What the turns come to** one after the other, the loop comes to. -/
theorem forTurns_eq {n : ℕ} {turn : ℕ → σ → Option σ} (state : ℕ → σ)
    (hturn : ∀ i < n, turn i (state i) = some (state (i + 1))) :
    forTurns n turn (state 0) = some (state n) := by
  induction n with
  | zero => rfl
  | succ n ih =>
    have hbefore := ih fun i hi => hturn i (by omega)
    rw [forTurns_succ, hbefore, Option.bind_some, hturn n (by omega)]

/-- **The invariant rule**: if every turn succeeds and brings the invariant one further, the
loop succeeds and ends with the last one. -/
theorem forTurns_invariant {n : ℕ} {turn : ℕ → σ → Option σ} (I : ℕ → σ → Prop) {s : σ}
    (hstart : I 0 s)
    (hturn : ∀ i < n, ∀ s, I i s → ∃ s', turn i s = some s' ∧ I (i + 1) s') :
    ∃ t, forTurns n turn s = some t ∧ I n t := by
  induction n with
  | zero => exact ⟨s, rfl, hstart⟩
  | succ n ih =>
    obtain ⟨t, hloop, ht⟩ := ih fun i hi => hturn i (by omega)
    obtain ⟨u, hlast, hu⟩ := hturn n (by omega) t ht
    exact ⟨u, by rw [forTurns_succ, hloop, Option.bind_some, hlast], hu⟩

/-- Two loops in a row are one. -/
theorem forTurns_add (m n : ℕ) (turn : ℕ → σ → Option σ) (s : σ) :
    forTurns (m + n) turn s =
      (forTurns m turn s).bind (forTurns n fun i => turn (m + i)) := by
  induction n with
  | zero => exact (Option.bind_fun_some _).symm
  | succ n ih =>
    rw [← Nat.add_assoc, forTurns_succ, ih, Option.bind_assoc]
    exact congrArg _ (funext fun t => (forTurns_succ n _ t).symm)

/-- **A loop is undone** by one that undoes its turns from the last to the first. -/
theorem forTurns_undo {n : ℕ} (turn back : ℕ → σ → Option σ)
    (hback : ∀ i < n, ∀ s, ∃ t, turn i s = some t ∧ back (n - 1 - i) t = some s) (s : σ) :
    ∃ t, forTurns n turn s = some t ∧ forTurns n back t = some s := by
  induction n generalizing back with
  | zero => exact ⟨s, rfl, rfl⟩
  | succ n ih =>
    obtain ⟨t, hturns, hbacks⟩ := ih (fun i => back (1 + i)) fun i hi s => by
      obtain ⟨t, hturn, hundone⟩ := hback i (by omega) s
      rw [show n + 1 - 1 - i = 1 + (n - 1 - i) by omega] at hundone
      exact ⟨t, hturn, hundone⟩
    obtain ⟨u, hlast, hfirst⟩ := hback n (by omega) t
    rw [show n + 1 - 1 - n = 0 by omega] at hfirst
    refine ⟨u, by rw [forTurns_succ, hturns, Option.bind_some, hlast], ?_⟩
    rw [Nat.add_comm, forTurns_add, forTurns_succ, forTurns_zero, Option.bind_some, hfirst,
      Option.bind_some, hbacks]

/-- Values computed one by one are the list of them. -/
theorem mapM_eq_map {l : List α} {f : α → Option σ} {g : α → σ} (h : ∀ a ∈ l, f a = some (g a)) :
    l.mapM f = some (l.map g) := by
  induction l with
  | nil => rfl
  | cons a l ih =>
    have hrest := ih fun b hb => h b (List.mem_cons_of_mem a hb)
    rw [List.mapM_cons, h a List.mem_cons_self, hrest]
    rfl

/-- A fold over the values of a function of the index is a loop. -/
theorem foldlM_map_range (n : ℕ) (g : ℕ → α) (step : σ → α → Option σ) (s : σ) :
    ((List.range n).map g).foldlM step s = forTurns n (fun i s => step s (g i)) s := by
  rw [List.foldlM_map]
  rfl

end Ctools.Library
