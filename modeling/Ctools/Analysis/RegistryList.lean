import Ctools.Analysis.RegistryLookup

/-!
# The registry stays a list

`activity_reg` looks for the name only.  An activity that is not on `act_list` is put at
its front (`lists_reg`); one that is on it is cleared while its neighbours still lead to
it, and linked once more, so that one gets from `act_list` into a ring
(`caught_reg`).  There the registry stays for ever, since no lookup finds a name to be
free.  Every run is one of `listSpec` (`registry_of_run`).

An activity whose start failed stays on `act_list` and is found, but is not registered.  So
after a run the registry is well formed exactly if no registered activity was registered
again under a free name, and no start under a free name failed.
-/

set_option autoImplicit false

namespace Ctools.Analysis

open Ctools.Library Ctools.Program Ctools.Interface

/-- What `activity_reg` makes of the registry when the name is free and `first` follows
`act_list`. -/
def withActivity (r : Registry) (first : Link) (act : ℕ) (name : String)
    (answers : StartAnswers) : Registry where
  links := (r.links.clear (.node act)).insert (.node act) .actList first
  cfg := Function.update r.cfg act (some name)
  state := Function.update r.state act (activityRunLocal .stop answers).2

variable {r r' : Registry} {x : List Registration} {act : ℕ} {name : String} {fuel : ℕ}
  {answers : StartAnswers}

/-- No activity is listed twice. -/
theorem Lists.acts_nodup (h : Lists r x) : (x.map Registration.act).Nodup := by
  have hlinks : ((x.map Registration.act).map Link.node).Nodup := by
    rw [List.map_map]
    exact (List.nodup_cons.mp h.circular.distinct).2
  exact hlinks.of_map

/-- SOURCE: activity.c:260-272 -/
theorem activityReg_new (hfree : activityGetLocal fuel r name = some none) {first : Link}
    (hfirst : r.links.next .actList = some first) :
    activityReg fuel r (some act) (some name) answers =
      some ((activityRunLocal .stop answers).1, withActivity r first act name answers) := by
  have hhead : (r.links.clear (.node act)).next .actList = some first := by
    rw [Links.next_clear, if_neg (by simp), hfirst]
  unfold activityReg
  simp only [hfree, memsetAct, listAdd, hhead, Option.map_some, Function.update_self,
    Function.update_idem]
  rfl

/-- How `activity_reg` returns.
SOURCE: activity.c:243-276 -/
inductive RegMove (fuel : ℕ) (r : Registry) (answers : StartAnswers) :
    Option ℕ → Option String → ℤ → Registry → Prop
  | invalid {act : Option ℕ} {actName : Option String} (hnull : act = none ∨ actName = none) :
      RegMove fuel r answers act actName (-EINVAL) r
  | taken {act : ℕ} {name : String} (old : ℕ)
      (hold : activityGetLocal fuel r name = some (some old)) :
      RegMove fuel r answers (some act) (some name) (-1) r
  | linked {act : ℕ} {name : String} (first : Link)
      (hfree : activityGetLocal fuel r name = some none)
      (hfirst : r.links.next .actList = some first) :
      RegMove fuel r answers (some act) (some name) (activityRunLocal .stop answers).1
        (withActivity r first act name answers)

/-- A call of `activity_reg` is one of its moves. -/
theorem regMove_of_activityReg {act : Option ℕ} {actName : Option String} {rc : ℤ}
    (hreg : activityReg fuel r act actName answers = some (rc, r')) :
    RegMove fuel r answers act actName rc r' := by
  cases act with
  | none =>
    obtain ⟨rfl, rfl⟩ := Prod.mk.inj (Option.some.inj hreg)
    exact .invalid (.inl rfl)
  | some act =>
    cases actName with
    | none =>
      obtain ⟨rfl, rfl⟩ := Prod.mk.inj (Option.some.inj hreg)
      exact .invalid (.inr rfl)
    | some name =>
      cases hlookup : activityGetLocal fuel r name with
      | none =>
        simp only [activityReg, hlookup] at hreg
        exact absurd hreg (by simp)
      | some found =>
        cases found with
        | some old =>
          simp only [activityReg, hlookup, Option.some.injEq, Prod.mk.injEq] at hreg
          obtain ⟨rfl, rfl⟩ := hreg
          exact .taken old hlookup
        | none =>
          obtain ⟨first, hfirst, -⟩ := Option.bind_eq_some_iff.mp hlookup
          rw [activityReg_new hlookup hfirst, Option.some.injEq, Prod.mk.injEq] at hreg
          obtain ⟨rfl, rfl⟩ := hreg
          exact .linked first hlookup hfirst

/-- An activity that is not on the list is put at its front. -/
theorem lists_reg (h : Lists r x) (hname : registeredUnder x name = none)
    (hact : act ∉ x.map Registration.act) :
    Lists (withActivity r ((x.map Registration.link).headD .actList) act name answers)
      (⟨act, name⟩ :: x) := by
  have hoff : Link.node act ∉ .actList :: x.map Registration.link := by
    intro hin
    rcases List.mem_cons.mp hin with heq | hin
    · exact absurd heq (by simp)
    · obtain ⟨e, he, hlink⟩ := List.mem_map.mp hin
      exact hact (List.mem_map.mpr ⟨e, he, Link.node.inj hlink⟩)
  constructor
  · exact (h.circular.clear hoff).insert hoff
  · rw [List.map_cons]
    exact List.nodup_cons.mpr ⟨registeredUnder_eq_none.mp hname, h.names⟩
  · intro e he
    unfold withActivity
    rcases List.mem_cons.mp he with rfl | hold
    · exact Function.update_self ..
    · have hne : e.act ≠ act := by
        rintro rfl
        exact hact (List.mem_map_of_mem hold)
      simp only [Function.update_of_ne hne]
      exact h.named e hold

/-- An activity that is on the list cuts it. -/
theorem caught_reg (h : Lists r x) (hact : act ∈ x.map Registration.act) :
    Caught (withActivity r ((x.map Registration.link).headD .actList) act name answers)
      (⟨act, name⟩ :: x) := by
  obtain ⟨e, he, rfl⟩ := List.mem_map.mp hact
  obtain ⟨newer, older, rfl⟩ := List.append_of_mem he
  have hcircular := h.circular
  rw [List.map_append, List.map_cons] at hcircular
  refine ⟨⟨e.act, name⟩ :: newer, ?_, ?_, ?_⟩
  · exact List.prefix_cons_inj _ |>.mpr (List.prefix_append _ _)
  · have hlasso := hcircular.insert_again
    rw [List.map_append, List.map_cons]
    exact hlasso
  · intro e' he'
    unfold withActivity
    rcases List.mem_cons.mp he' with rfl | he'
    · exact Function.update_self ..
    · have hne : e'.act ≠ e.act := by
        have hacts := h.acts_nodup
        rw [List.map_append, List.map_cons] at hacts
        exact (List.nodup_append.mp hacts).2.2 e'.act (List.mem_map_of_mem he') e.act
          List.mem_cons_self
      simp only [Function.update_of_ne hne]
      exact h.named e' (List.mem_append_left _ he')

/-- Without an activity or a name nothing is listed. -/
theorem enlist_of_null {act : Option ℕ} {actName : Option String}
    (hnull : act = none ∨ actName = none) : enlist x act actName answers = (-EINVAL, x) := by
  rcases hnull with rfl | rfl
  · rfl
  · cases act <;> rfl

/-- Under a name that is taken nothing is listed. -/
theorem enlist_of_taken {old : ℕ} (hold : registeredUnder x name = some old) :
    enlist x (some act) (some name) answers = (-1, x) := by
  simp only [enlist, hold]

/-- Under a free name the activity is listed. -/
theorem enlist_of_free (hfree : registeredUnder x name = none) :
    enlist x (some act) (some name) answers =
      ((activityRunLocal .stop answers).1, ⟨act, name⟩ :: x) := by
  simp only [enlist, hfree]

/-- What the list answers to `activity_reg`. -/
theorem listAnswer_reg (act : Option ℕ) (actName : Option String) :
    listAnswer x (.reg act actName answers) =
      (.rc (enlist x act actName answers).1, (enlist x act actName answers).2) := rfl

/-- A call without an activity or a name lists nothing, old or new. -/
theorem listsNew_of_null {act : Option ℕ} {actName : Option String}
    (hnull : act = none ∨ actName = none) : listsNew x (.reg act actName answers) := by
  rcases hnull with rfl | rfl
  · trivial
  · cases act <;> trivial

/-- A call that returns answers as the list of registrations does; it leaves `act_list`
circular unless it registers a registered activity again. -/
theorem registry_step_of_lists (h : Lists r x) {op : RegistryOp} {out : RegistryOut}
    (hstep : registryCall fuel r op = some (out, r')) :
    (listAnswer x op).1 = out ∧ (listsNew x op → Lists r' (listAnswer x op).2) ∧
      (¬ listsNew x op → Caught r' (listAnswer x op).2) := by
  cases op with
  | get actName =>
    obtain ⟨res, hget, hout⟩ := Option.map_eq_some_iff.mp hstep
    obtain ⟨rfl, rfl⟩ := Prod.mk.inj hout
    refine ⟨?_, fun _ => h, fun hnew => absurd trivial hnew⟩
    cases actName with
    | none => rw [← Option.some.inj hget]; rfl
    | some name => rw [lookup_eq_of_lists h hget]; rfl
  | reg act actName answers =>
    obtain ⟨⟨rc, r''⟩, hreg, hout⟩ := Option.map_eq_some_iff.mp hstep
    obtain ⟨rfl, rfl⟩ := Prod.mk.inj hout
    rw [listAnswer_reg]
    cases regMove_of_activityReg hreg with
    | invalid hnull =>
      rw [enlist_of_null hnull]
      exact ⟨rfl, fun _ => h, fun hagain => absurd (listsNew_of_null hnull) hagain⟩
    | taken old hold =>
      have hold' := lookup_eq_of_lists h hold
      rw [enlist_of_taken hold'.symm]
      refine ⟨rfl, fun _ => h, fun hagain => absurd ?_ hagain⟩
      intro hfree
      exact absurd (hold'.trans hfree) (by simp)
    | @linked act name first hfree hfirst =>
      have hfree' := (lookup_eq_of_lists h hfree).symm
      rw [h.circular.next_head, Option.some.injEq] at hfirst
      subst hfirst
      rw [enlist_of_free hfree']
      refine ⟨rfl, fun hnew => lists_reg h hfree' (hnew hfree'), fun hagain => ?_⟩
      have hon : act ∈ x.map Registration.act := by
        by_contra hoff
        exact hagain fun _ => hoff
      exact caught_reg h hon

/-- In a ring a call that returns changes nothing. -/
theorem registry_step_of_caught (h : Caught r x) {op : RegistryOp} {out : RegistryOut}
    (hstep : registryCall fuel r op = some (out, r')) :
    listAnswer x op = (out, x) ∧ r' = r := by
  cases op with
  | get actName =>
    obtain ⟨res, hget, hout⟩ := Option.map_eq_some_iff.mp hstep
    obtain ⟨rfl, rfl⟩ := Prod.mk.inj hout
    refine ⟨?_, rfl⟩
    cases actName with
    | none => rw [← Option.some.inj hget]; rfl
    | some name =>
      obtain ⟨act, rfl, hreg⟩ := lookup_eq_of_caught h hget
      simp only [listAnswer, Option.bind_some, hreg]
  | reg act actName answers =>
    obtain ⟨⟨rc, r''⟩, hreg, hout⟩ := Option.map_eq_some_iff.mp hstep
    obtain ⟨rfl, rfl⟩ := Prod.mk.inj hout
    rw [listAnswer_reg]
    cases regMove_of_activityReg hreg with
    | invalid hnull => exact ⟨by rw [enlist_of_null hnull], rfl⟩
    | taken old hold =>
      obtain ⟨act, -, hreg⟩ := lookup_eq_of_caught h hold
      exact ⟨by rw [enlist_of_taken hreg], rfl⟩
    | linked first hfree => exact absurd hfree (lookup_ne_none_of_caught h)

/-- `act_list` is a list after the runs in which no registered activity is registered
again, and a ring after all others. -/
theorem registry_of_run {r₀ : Registry} (h₀ : Lists r₀ []) {h : List (RegistryOp × RegistryOut)}
    (hrun : (registryMachine fuel).Run Machine.anyStep r₀ h r) :
    ∃ x, listSpec.Run Machine.anyStep [] h x ∧
      (listSpec.Run listsNew [] h x ∧ Lists r x ∨
        (¬ ∃ y, listSpec.Run listsNew [] h y) ∧ Caught r x) := by
  refine hrun.invariant (fun h r => ∃ x, listSpec.Run Machine.anyStep [] h x ∧
    (listSpec.Run listsNew [] h x ∧ Lists r x ∨
      (¬ ∃ y, listSpec.Run listsNew [] h y) ∧ Caught r x)) ⟨[], .start, .inl ⟨.start, h₀⟩⟩ ?_
  rintro h r op out r' ⟨x, hspec, hx⟩ - hstep
  rcases hx with ⟨hnew, hlists⟩ | ⟨hagain, hcaught⟩
  · obtain ⟨hout, hkept, hcut⟩ := registry_step_of_lists hlists hstep
    have hmoved : listSpec.step x op = some (out, (listAnswer x op).2) := by
      rw [← hout]
      rfl
    refine ⟨_, hspec.next trivial hmoved, ?_⟩
    by_cases hop : listsNew x op
    · exact .inl ⟨hnew.next hop hmoved, hkept hop⟩
    · refine .inr ⟨?_, hcut hop⟩
      rintro ⟨y, hy⟩
      obtain ⟨x', hx', hop', -⟩ := hy.last
      rw [hx'.unique hspec] at hop'
      exact hop hop'
  · obtain ⟨hanswer, rfl⟩ := registry_step_of_caught hcaught hstep
    refine ⟨x, hspec.next trivial (congrArg some hanswer), .inr ⟨?_, hcaught⟩⟩
    rintro ⟨y, hy⟩
    obtain ⟨x', hx', -⟩ := hy.last
    exact hagain ⟨x', hx'⟩

/-- On a list every call returns, when it may pass all activities. -/
theorem registry_returns (h : Lists r x) (op : RegistryOp) (hfuel : x.length < fuel) :
    ∃ r', registryCall fuel r op = some ((listAnswer x op).1, r') := by
  have hreturns : ∃ out r', registryCall fuel r op = some (out, r') := by
    cases op with
    | get actName =>
      cases actName with
      | none => exact ⟨_, r, rfl⟩
      | some name =>
        refine ⟨.act (registeredUnder x name), r, ?_⟩
        simp only [registryCall, activityGet, lookup_of_lists h hfuel, Option.map_some]
    | reg act actName answers =>
      cases act with
      | none => exact ⟨_, r, rfl⟩
      | some act =>
        cases actName with
        | none => exact ⟨_, r, rfl⟩
        | some name =>
          have hlookup : activityGetLocal fuel r name = _ := lookup_of_lists h hfuel
          cases hfound : registeredUnder x name with
          | some old =>
            rw [hfound] at hlookup
            exact ⟨.rc (-1), r, by simp only [registryCall, activityReg, hlookup, Option.map_some]⟩
          | none =>
            rw [hfound] at hlookup
            have hreg : activityReg fuel r (some act) (some name) answers = _ :=
              activityReg_new hlookup h.circular.next_head
            exact ⟨_, _, by rw [registryCall, hreg, Option.map_some]⟩
  obtain ⟨out, r', hstep⟩ := hreturns
  exact ⟨r', by rw [hstep, (registry_step_of_lists h hstep).1]⟩

/-- One call registers one activity at most. -/
theorem listed_length_le (op : RegistryOp) : (listAnswer x op).2.length ≤ x.length + 1 := by
  cases op with
  | get actName => exact Nat.le_succ _
  | reg act actName answers =>
    rw [listAnswer_reg]
    by_cases hnull : act = none ∨ actName = none
    · rw [enlist_of_null hnull]
      exact Nat.le_succ _
    · rw [not_or] at hnull
      obtain ⟨act, rfl⟩ := Option.ne_none_iff_exists'.mp hnull.1
      obtain ⟨name, rfl⟩ := Option.ne_none_iff_exists'.mp hnull.2
      cases hfound : registeredUnder x name with
      | some old =>
        rw [enlist_of_taken hfound]
        exact Nat.le_succ _
      | none =>
        rw [enlist_of_free hfound]
        exact le_rfl

/-- As long as no registered activity is registered again, every call returns. -/
theorem registry_runs {r₀ : Registry} (h₀ : Lists r₀ []) {h : List (RegistryOp × RegistryOut)}
    (hspec : listSpec.Run listsNew [] h x) (hfuel : h.length ≤ fuel) :
    ∃ r, (registryMachine fuel).Run Machine.anyStep r₀ h r ∧ Lists r x ∧ x.length ≤ h.length := by
  refine hspec.invariant (fun h x => h.length ≤ fuel → ∃ r,
    (registryMachine fuel).Run Machine.anyStep r₀ h r ∧ Lists r x ∧ x.length ≤ h.length)
    (fun _ => ⟨r₀, .start, h₀, le_rfl⟩) ?_ hfuel
  rintro h x op out x' ih hnew hstep hlen
  rw [List.length_append, List.length_singleton] at hlen ⊢
  obtain ⟨r, hrun, hlists, hle⟩ := ih (by omega)
  have hanswer : listAnswer x op = (out, x') := Option.some.inj hstep
  obtain ⟨r', hcall⟩ := registry_returns hlists op (show x.length < fuel by omega)
  obtain ⟨-, hkept, -⟩ := registry_step_of_lists hlists hcall
  have hmore : x'.length ≤ x.length + 1 := by
    have hle := listed_length_le (x := x) op
    rwa [hanswer] at hle
  rw [hanswer] at hcall hkept
  exact ⟨r', hrun.next trivial hcall, hkept hnew, by omega⟩

/-- A list is well formed. -/
theorem wellFormed_of_lists (h : Lists r x) : WellFormed r x := by
  constructor
  · refine ⟨x.map Registration.act, ?_, ?_, fun e he => List.mem_map_of_mem he⟩
    · rw [List.map_map]
      exact h.circular
    · have hcfg : (x.map Registration.act).map r.cfg = (x.map Registration.name).map some := by
        rw [List.map_map, List.map_map]
        exact List.map_congr_left h.named
      rw [hcfg]
      exact h.names.map (Option.some_injective String)
  · exact fun name => ⟨x.length + 1, lookup_of_lists h (Nat.lt_succ_self _)⟩

/-- A ring is not. -/
theorem not_wellFormed_of_caught (h : Caught r x) (y : List Registration) : ¬ WellFormed r y := by
  obtain ⟨ring, -, hring, -⟩ := h
  rintro ⟨⟨acts, hcircular, -⟩, -⟩
  exact hring.not_circular _ hcircular

/-! ## What is registered -/

/-- The last registration comes first. -/
theorem registered_snoc (h : List (RegistryOp × RegistryOut)) (e : RegistryOp × RegistryOut) :
    registered (h ++ [e]) = (registration e).toList ++ registered h := by
  unfold registered
  rw [List.filterMap_append, List.reverse_append]
  cases hreg : registration e <;> simp [hreg]

/-- A call that registers nothing leaves the list. -/
theorem registered_snoc_of_none {h : List (RegistryOp × RegistryOut)}
    {e : RegistryOp × RegistryOut} (hnone : registration e = none) :
    registered (h ++ [e]) = registered h := by
  rw [registered_snoc, hnone, Option.toList_none, List.nil_append]

/-- A call that gives a free name to an activity, and any other one, which changes neither
`act_list` nor what is registered. -/
theorem listAnswer_cases (x : List Registration) (op : RegistryOp) :
    (∃ act name answers, op = .reg (some act) (some name) answers ∧
      registeredUnder x name = none) ∨
    (listAnswer x op).2 = x ∧ registryAnswer x op = listAnswer x op ∧
      registration (op, (listAnswer x op).1) = none ∧ registersWell x op ∧ listsNew x op := by
  cases op with
  | get actName => exact .inr ⟨rfl, rfl, rfl, trivial, trivial⟩
  | reg act actName answers =>
    cases act with
    | none => exact .inr ⟨rfl, rfl, rfl, trivial, trivial⟩
    | some act =>
      cases actName with
      | none => exact .inr ⟨rfl, rfl, rfl, trivial, trivial⟩
      | some name =>
        cases hfound : registeredUnder x name with
        | none => exact .inl ⟨act, name, answers, rfl, hfound⟩
        | some old =>
          have hlist : listAnswer x (.reg (some act) (some name) answers) = (.rc (-1), x) := by
            rw [listAnswer_reg, enlist_of_taken hfound]
          have hregistry : registryAnswer x (.reg (some act) (some name) answers) =
              (.rc (-1), x) := by
            simp only [registryAnswer, register, hfound]
          rw [hlist, hregistry]
          refine .inr ⟨rfl, rfl, rfl, fun hfree => ?_, fun hfree => ?_⟩
          · exact absurd (hfound.symm.trans hfree) (by simp)
          · exact absurd (hfound.symm.trans hfree) (by simp)

/-- What is registered is on `act_list`; where that is all, every call has registered well. -/
theorem registered_of_lists {h : List (RegistryOp × RegistryOut)}
    (hlists : listSpec.Run listsNew [] h x) :
    (registered h).Sublist x ∧
      (registered h = x → registrySpec.Run registersWell [] h x) := by
  refine hlists.invariant (fun h x => (registered h).Sublist x ∧
    (registered h = x → registrySpec.Run registersWell [] h x)) ⟨.slnil, fun _ => .start⟩ ?_
  rintro h x op out x' ⟨hsub, hrun⟩ hnew hstep
  have hanswer : listAnswer x op = (out, x') := Option.some.inj hstep
  rcases listAnswer_cases x op with ⟨act, name, answers, rfl, hfree⟩ | ⟨hsame, heq, hnone, hwell, -⟩
  · rw [listAnswer_reg, enlist_of_free hfree] at hanswer
    obtain ⟨rfl, rfl⟩ := Prod.mk.inj hanswer
    rw [registered_snoc]
    by_cases hrc : (activityRunLocal .stop answers).1 = 0
    · simp only [registration, if_pos hrc, Option.toList_some, List.singleton_append,
        List.cons.injEq, true_and]
      refine ⟨hsub.cons_cons _, fun hall => (hrun hall).next (fun _ => ⟨hnew hfree, hrc⟩) ?_⟩
      show some (registryAnswer x (.reg (some act) (some name) answers)) = _
      simp only [registryAnswer, register, hfree, if_pos hrc]
    · simp only [registration, if_neg hrc, Option.toList_none, List.nil_append]
      refine ⟨hsub.cons _, fun hall => ?_⟩
      have hle := hsub.length_le
      rw [hall, List.length_cons] at hle
      omega
  · rw [hanswer] at hsame hnone
    obtain rfl : x' = x := hsame
    rw [registered_snoc_of_none hnone]
    refine ⟨hsub, fun hall => (hrun hall).next hwell ?_⟩
    show some (registryAnswer x' op) = _
    rw [heq, hanswer]

/-- As long as every call registers well, what is registered is what is on `act_list`. -/
theorem lists_of_registersWell {h : List (RegistryOp × RegistryOut)}
    (hwell : registrySpec.Run registersWell [] h x) :
    listSpec.Run listsNew [] h x ∧ x = registered h := by
  refine hwell.invariant (fun h x => listSpec.Run listsNew [] h x ∧ x = registered h)
    ⟨.start, rfl⟩ ?_
  rintro h x op out x' ⟨hrun, hall⟩ hwell hstep
  have hanswer : registryAnswer x op = (out, x') := Option.some.inj hstep
  rcases listAnswer_cases x op with ⟨act, name, answers, rfl, hfree⟩ | ⟨hsame, heq, hnone, -, hnew⟩
  · obtain ⟨hoff, hrc⟩ := hwell hfree
    simp only [registryAnswer, register, hfree, if_pos hrc] at hanswer
    obtain ⟨rfl, rfl⟩ := Prod.mk.inj hanswer
    refine ⟨hrun.next (fun _ => hoff) ?_, ?_⟩
    · show some (listAnswer x (.reg (some act) (some name) answers)) = _
      rw [listAnswer_reg, enlist_of_free hfree]
    · rw [registered_snoc, ← hall]
      simp [registration, hrc]
  · rw [← heq, hanswer] at hsame hnone
    obtain rfl : x' = x := hsame
    refine ⟨hrun.next hnew ?_, hall.trans (registered_snoc_of_none hnone).symm⟩
    show some (listAnswer x' op) = _
    rw [← heq, hanswer]

/-- An activity on the list is found under its name. -/
theorem registeredUnder_of_mem {e : Registration} (hnames : (x.map Registration.name).Nodup)
    (he : e ∈ x) : registeredUnder x e.name = some e.act := by
  induction x with
  | nil => cases he
  | cons first x ih =>
    obtain ⟨hfirst, hrest⟩ := List.nodup_cons.mp hnames
    rw [registeredUnder_cons]
    rcases List.mem_cons.mp he with rfl | he
    · rw [if_pos rfl]
    · rw [if_neg fun heq => hfirst (List.mem_map.mpr ⟨e, he, heq.symm⟩), ih hrest he]

/-- The registry is well formed for what is registered only if that is all there is on
`act_list`: an activity that is not registered is found as well. -/
theorem registered_eq_of_wellFormed (h : Lists r x) {y : List Registration} (hsub : y.Sublist x)
    (hwell : WellFormed r y) : y = x := by
  refine hsub.eq_of_length_le ?_
  refine (h.names.of_map.subperm fun e he => ?_).length_le
  obtain ⟨fuel, hget⟩ := hwell.found e.name
  have hfound : registeredUnder y e.name = some e.act :=
    (lookup_eq_of_lists h hget).trans (registeredUnder_of_mem h.names he)
  have hname : e.name ∈ y.map Registration.name := by
    by_contra hfree
    rw [registeredUnder_eq_none.mpr hfree] at hfound
    cases hfound
  obtain ⟨e', he', heq⟩ := List.mem_map.mp hname
  rwa [← List.inj_on_of_nodup_map h.names (hsub.subset he') he heq]

/-- When the registry is empty, `act_list` is a list. -/
theorem lists_start (memory : Registry) : Lists (registryStart memory) [] where
  circular := by
    refine ⟨List.nodup_singleton _, List.isChain_pair.mpr ⟨?_, ?_⟩⟩
    · simp [registryStart, Links.setNext, Links.setPrev]
    · simp [registryStart, Links.setNext, Links.setPrev]
  names := List.nodup_nil
  named := fun e he => absurd he List.not_mem_nil

end Ctools.Analysis

open Ctools.Library Ctools.Program Ctools.Interface in
/-- **When the registry is well formed**: for the activities whose registration returned 0,
after the calls in which every activity that was given a free name was not registered yet
and was started, and after no others; up to there every call returns, whatever the
activities held before.
SOURCE: activity.c:221-289 -/
theorem Ctools.Analysis.registry_wellFormed_iff (memory : Registry)
    (h : List (RegistryOp × RegistryOut)) :
    (∀ fuel r, (registryMachine fuel).Run Machine.anyStep (registryStart memory) h r →
      (WellFormed r (registered h) ↔ registrySpec.Run registersWell [] h (registered h))) ∧
    ∀ fuel x, registrySpec.Run registersWell [] h x → h.length ≤ fuel →
      ∃ r, (registryMachine fuel).Run Machine.anyStep (registryStart memory) h r := by
  constructor
  · intro fuel r hrun
    obtain ⟨x, hspec, ⟨hnew, hlists⟩ | ⟨hagain, hcaught⟩⟩ :=
      Analysis.registry_of_run (Analysis.lists_start memory) hrun
    · obtain ⟨hsub, hall⟩ := Analysis.registered_of_lists hnew
      constructor
      · intro hwell
        have heq := Analysis.registered_eq_of_wellFormed hlists hsub hwell
        rw [heq]
        exact hall heq
      · intro hwell
        rw [(Analysis.lists_of_registersWell hwell).1.unique hnew]
        exact Analysis.wellFormed_of_lists hlists
    · refine iff_of_false (Analysis.not_wellFormed_of_caught hcaught _) fun hwell => ?_
      exact hagain ⟨_, (Analysis.lists_of_registersWell hwell).1⟩
  · intro fuel x hwell hfuel
    obtain ⟨r, hrun, -⟩ := Analysis.registry_runs (Analysis.lists_start memory)
      (Analysis.lists_of_registersWell hwell).1 hfuel
    exact ⟨r, hrun⟩

open Ctools.Library Ctools.Program Ctools.Interface in
/-- An activity registered as "a" and then as "b": `act_list` leads to it and it leads to
itself, and the lookup of any other name never ends. -/
theorem Ctools.Analysis.registry_loses_list : ∃ r,
    (registryMachine 2).Run Machine.anyStep (registryStart staticMemory)
    [(.reg (some 0) (some "a") .succeed, .rc 0), (.reg (some 0) (some "b") .succeed, .rc 0)] r ∧
    (∀ acts : List ℕ, ¬ r.links.Circular .actList (acts.map .node)) ∧
    ∀ fuel, activityGet fuel r (some "c") = none := by
  have h₀ := Analysis.lists_start staticMemory
  obtain ⟨r₁, hcall₁⟩ := Analysis.registry_returns h₀ (.reg (some 0) (some "a") .succeed)
    (show 0 < 2 by decide)
  obtain ⟨-, hkept, -⟩ := Analysis.registry_step_of_lists h₀ hcall₁
  have h₁ : Analysis.Lists r₁ [⟨0, "a"⟩] := hkept fun _ => List.not_mem_nil
  obtain ⟨r₂, hcall₂⟩ := Analysis.registry_returns h₁ (.reg (some 0) (some "b") .succeed)
    (show 1 < 2 by decide)
  obtain ⟨-, -, hcut⟩ := Analysis.registry_step_of_lists h₁ hcall₂
  have hagain : ¬ listsNew [⟨0, "a"⟩] (.reg (some 0) (some "b") .succeed) :=
    fun hnew => hnew (by decide) (by decide)
  have h₂ : Analysis.Caught r₂ [⟨0, "b"⟩, ⟨0, "a"⟩] := hcut hagain
  refine ⟨r₂, (Machine.Run.start.next trivial hcall₁).next trivial hcall₂, ?_, ?_⟩
  · intro acts hcircular
    obtain ⟨ring, -, hring, -⟩ := h₂
    exact hring.not_circular _ hcircular
  · intro fuel
    by_contra hend
    obtain ⟨res, hres⟩ := Option.ne_none_iff_exists'.mp hend
    obtain ⟨act, -, hact⟩ := Analysis.lookup_eq_of_caught h₂ hres
    have hnone : registeredUnder [⟨0, "b"⟩, ⟨0, "a"⟩] "c" = none := by decide
    exact absurd (hnone.symm.trans hact) (by simp)
