import Ctools.Interface.RegistrySpec

/-!
# Lookups in the registry

A lookup along nodes that carry the names of some registrations finds what is registered
under the name, or goes on behind them (`actListFind_along`).  On a circular list it goes
on to `act_list` and ends; in a ring it never does.  A lookup that ends, ends the same
when it may take longer (`actListFind_more`).
-/

set_option autoImplicit false

namespace Ctools.Analysis

open Ctools.Library Ctools.Program Ctools.Interface

/-- The activities of some registrations carry the names they were registered under. -/
def Named (r : Registry) (x : List Registration) : Prop := ∀ e ∈ x, r.cfg e.act = some e.name

/-- `act_list` is circular and holds the registered activities, newest first. -/
structure Lists (r : Registry) (x : List Registration) : Prop where
  circular : r.links.Circular .actList (x.map Registration.link)
  names : (x.map Registration.name).Nodup
  named : Named r x

/-- From `act_list` one gets into a ring of activities, those of the newest
registrations. -/
def Caught (r : Registry) (x : List Registration) : Prop :=
  ∃ ring, ring <+: x ∧ r.links.Lasso .actList (ring.map Registration.link) ∧ Named r ring

variable {r : Registry} {x ring : List Registration} {name : String}

/-- The first entry is looked at first. -/
theorem registeredUnder_cons (e : Registration) :
    registeredUnder (e :: x) name =
      if e.name = name then some e.act else registeredUnder x name := by
  unfold registeredUnder
  by_cases h : e.name = name
  · simp [h]
  · simp [h]

/-- Then those behind it. -/
theorem registeredUnder_append (y : List Registration) : registeredUnder (x ++ y) name =
    match registeredUnder x name with
    | some act => some act
    | none => registeredUnder y name := by
  induction x with
  | nil => rfl
  | cons e x ih =>
    rw [List.cons_append, registeredUnder_cons, registeredUnder_cons]
    by_cases h : e.name = name
    · rw [if_pos h, if_pos h]
    · rw [if_neg h, if_neg h, ih]

/-- A name that is free was not registered. -/
theorem registeredUnder_eq_none :
    registeredUnder x name = none ↔ name ∉ x.map Registration.name := by
  unfold registeredUnder
  simp [List.find?_eq_none]

/-- A lookup that has ended is not changed by more passes. -/
theorem actListFind_more {fuel : ℕ} {p : Link} {res : Option ℕ}
    (hend : actListFind r name fuel p = some res) (more : ℕ) :
    actListFind r name (fuel + more) p = some res := by
  induction fuel generalizing p with
  | zero => exact absurd hend (by simp [actListFind])
  | succ fuel ih =>
    rw [Nat.succ_add]
    cases p with
    | actList => exact hend
    | node p =>
      unfold actListFind at hend ⊢
      cases hcfg : r.cfg p with
      | none => exact absurd hend (by simp [hcfg])
      | some found =>
        simp only [hcfg] at hend ⊢
        by_cases hname : found = name
        · rw [if_pos hname] at hend ⊢
          exact hend
        · rw [if_neg hname] at hend ⊢
          obtain ⟨q, hq, hrest⟩ := Option.bind_eq_some_iff.mp hend
          exact Option.bind_eq_some_iff.mpr ⟨q, hq, ih hrest⟩

/-- A lookup along named nodes. -/
theorem actListFind_along {p q : Link} (fuel : ℕ)
    (hchain : (p :: (ring.map Registration.link ++ [q])).IsChain r.links.Follows)
    (hnamed : Named r ring) :
    (r.links.next p).bind (actListFind r name (ring.length + fuel)) =
      match registeredUnder ring name with
      | some act => some (some act)
      | none => actListFind r name fuel q := by
  induction ring generalizing p with
  | nil =>
    have hnext : r.links.next p = some q := (List.isChain_cons_cons.mp hchain).1
    rw [hnext, List.length_nil, Nat.zero_add]
    rfl
  | cons e ring ih =>
    obtain ⟨hnext, hrest⟩ := List.isChain_cons_cons.mp hchain
    have hcfg : r.cfg e.act = some e.name := hnamed e List.mem_cons_self
    have hstep := ih hrest fun e he => hnamed e (List.mem_cons_of_mem _ he)
    unfold Links.Follows at hnext
    rw [hnext, List.length_cons, Nat.add_right_comm, registeredUnder_cons]
    unfold Registration.link at hstep ⊢
    rw [Option.bind_some, actListFind, hcfg]
    by_cases hname : e.name = name
    · simp only [if_pos hname]
    · simp only [if_neg hname]
      exact hstep

/-- In a ring without the name, a lookup never ends. -/
theorem actListFind_ring {nodes : List Link} (hring : r.links.Lasso .actList nodes)
    (hnone : ∀ act, .node act ∈ nodes → r.cfg act ≠ some name) (fuel : ℕ) :
    ∀ p ∈ nodes, actListFind r name fuel p = none := by
  induction fuel with
  | zero => exact fun p _ => rfl
  | succ fuel ih =>
    intro p hp
    obtain ⟨q, hq, hnext⟩ := hring.follows p (List.mem_cons_of_mem _ hp)
    cases p with
    | actList => exact absurd hp hring.off
    | node act =>
      unfold actListFind
      cases hcfg : r.cfg act with
      | none => rfl
      | some found =>
        have hname : found ≠ name := by
          rintro rfl
          exact hnone act hp hcfg
        simp only [if_neg hname, hnext, Option.bind_some]
        exact ih q hq

/-- On a circular list a lookup that may pass all activities ends with the one registered
under the name. -/
theorem lookup_of_lists (h : Lists r x) {fuel : ℕ} (hfuel : x.length < fuel) :
    activityGetLocal fuel r name = some (registeredUnder x name) := by
  have hchain := h.circular.joined.imp fun a b (hab : r.links.Joined a b) => hab.1
  obtain ⟨more, rfl⟩ := Nat.exists_eq_add_of_lt hfuel
  unfold activityGetLocal
  rw [Nat.add_assoc, actListFind_along (more + 1) hchain h.named]
  cases registeredUnder x name <;> rfl

/-- A lookup that ends on a circular list. -/
theorem lookup_eq_of_lists (h : Lists r x) {fuel : ℕ} {res : Option ℕ}
    (hend : activityGetLocal fuel r name = some res) : res = registeredUnder x name := by
  have hmore : activityGetLocal (fuel + (x.length + 1)) r name = some res := by
    obtain ⟨first, hfirst, hfind⟩ := Option.bind_eq_some_iff.mp hend
    exact Option.bind_eq_some_iff.mpr ⟨first, hfirst, actListFind_more hfind _⟩
  rw [lookup_of_lists h (by omega), Option.some.injEq] at hmore
  exact hmore.symm

/-- A lookup that ends in a ring has found the activity that was last registered under
the name. -/
theorem lookup_eq_of_caught (h : Caught r x) {fuel : ℕ} {res : Option ℕ}
    (hend : activityGetLocal fuel r name = some res) :
    ∃ act, res = some act ∧ registeredUnder x name = some act := by
  obtain ⟨ring, ⟨older, rfl⟩, hring, hnamed⟩ := h
  obtain ⟨back, hback, hchain⟩ := hring.back
  have hmore : activityGetLocal (ring.length + fuel) r name = some res := by
    obtain ⟨first, hfirst, hfind⟩ := Option.bind_eq_some_iff.mp hend
    rw [Nat.add_comm]
    exact Option.bind_eq_some_iff.mpr ⟨first, hfirst, actListFind_more hfind _⟩
  unfold activityGetLocal at hmore
  rw [actListFind_along fuel hchain hnamed] at hmore
  cases hreg : registeredUnder ring name with
  | some act =>
    simp only [hreg, Option.some.injEq] at hmore
    exact ⟨act, hmore.symm, by simp only [registeredUnder_append, hreg]⟩
  | none =>
    simp only [hreg] at hmore
    have hnone : ∀ act, .node act ∈ ring.map Registration.link → r.cfg act ≠ some name := by
      intro act hact hcfg
      obtain ⟨e, he, hlink⟩ := List.mem_map.mp hact
      obtain rfl : e.act = act := Link.node.inj hlink
      rw [hnamed e he, Option.some.injEq] at hcfg
      exact registeredUnder_eq_none.mp hreg (List.mem_map.mpr ⟨e, he, hcfg⟩)
    rw [actListFind_ring hring hnone fuel back hback] at hmore
    exact absurd hmore (by simp)

/-- A lookup in a ring does not find that the name is free. -/
theorem lookup_ne_none_of_caught (h : Caught r x) {fuel : ℕ} :
    activityGetLocal fuel r name ≠ some none := by
  intro hend
  obtain ⟨act, hact, -⟩ := lookup_eq_of_caught h hend
  exact absurd hact (by simp)

end Ctools.Analysis
