import Mathlib
import LinearProgram.Proofs.Model
import LinearProgram.Proofs.Naming

/-!
# Calls on a model

A model is made by calls that may be refused, in any order and with any arguments:

* `Call`, `Model.perform`: one call, its result and the model it leaves; `Call.effect`: what
  it does when nothing is checked;
* `Call.Refused`: the reasons there are to refuse a call, `perform_cases`: a call is
  refused for one of them and leaves the model alone, or has its effect;
* `WellFormed`: what the rest of the program relies on, `effect_wellFormed_iff`: there is
  a reason to refuse a call exactly if its effect would break this;
* `Model.afterAll`: a run of calls, `built_iff_afterAll`: these runs make the built models.
-/

namespace LinearProgram

namespace Model

variable {α : Type}

/-- Every variable and every constraint carries its position, no name occurs twice, and no
form leaves the variables. -/
structure WellFormed (m : Model α) : Prop extends Indexed m where
  position : ∀ (i : Nat) (v : Variable), m.vars[i]? = some v → v.index = i
  distinct : (m.vars.map Variable.name).Nodup

/-- A later model with everything an earlier one has, in the same places. -/
structure Extends (m m' : Model α) : Prop where
  name : m'.name = m.name
  vars : m.vars <+: m'.vars
  constraints : m.constraints <+: m'.constraints
  objective : m'.objective = m.objective

theorem WellFormed.empty (name : String) : (Model.empty name : Model α).WellFormed :=
  { Indexed.empty name with
    position := by simp [Model.empty]
    distinct := by simp [Model.empty] }

theorem WellFormed.pushVariable {m : Model α} (h : m.WellFormed) {name : String}
    (new : name ∉ m.vars.map Variable.name) : (m.pushVariable (m.nextVariable name)).WellFormed where
  toIndexed := h.toIndexed.pushVariable _
  position i v found := by
    simp only [Model.pushVariable, List.getElem?_append, List.getElem?_singleton] at found
    split at found
    · exact h.position i v found
    · split at found
      · obtain rfl := Option.some.inj found
        simp only [nextVariable]
        omega
      · cases found
  distinct := distinct_pushVariable h.distinct new

theorem addVariable_cases (m : Model α) (name : String) :
    (name ∈ m.vars.map Variable.name ∧
        (addVariable name).run m = .error (.duplicateName name) m) ∨
      (name ∉ m.vars.map Variable.name ∧
        (addVariable name).run m =
          .ok (m.nextVariable name) (m.pushVariable (m.nextVariable name))) := by
  rw [run_addVariable]
  cases found : m.variableNamed? name with
  | some v =>
    have same : v.name = name := by simpa using List.find?_some found
    exact .inl ⟨List.mem_map.2 ⟨v, List.mem_of_find?_eq_some found, same⟩, rfl⟩
  | none => exact .inr ⟨by simpa [variableNamed?] using found, rfl⟩

/-- A form is refused for the largest index that occurs in it. -/
theorem checkForm_cases (m : Model α) (f : LinearForm α) :
    (∃ t ∈ f.terms, (∀ u ∈ f.terms, u.index ≤ t.index) ∧ m.vars.length ≤ t.index ∧
      m.checkForm f = .error (.unknownVariable t.index m.vars.length)) ∨
    (f.Within m.vars.length ∧ m.checkForm f = .ok ()) := by
  cases checked : m.checkForm f with
  | ok u => exact .inr ⟨within_of_checkForm checked, rfl⟩
  | error e =>
    unfold checkForm at checked
    split at checked
    · rename_i i largest
      obtain ⟨occurs, above⟩ := List.max?_eq_some_iff.1 largest
      obtain ⟨t, ht, rfl⟩ := List.mem_map.1 occurs
      split at checked
      · rename_i foreign
        obtain rfl := Except.error.inj checked
        exact .inl ⟨t, ht, fun u hu => above _ (List.mem_map_of_mem hu), foreign, rfl⟩
      · exact nomatch checked
    · exact nomatch checked

end Model

/-- One call on a model, with its arguments. -/
inductive Call (α : Type) where
  | addVariable (name : String)
  | addConstraint (c : Constraint α)
  | setObjective (o : Objective α)
  | maximize (f : LinearForm α)
  | minimize (f : LinearForm α)
  | simplify

namespace Call

variable {α : Type}

/-- The form by which a call refers to variables. -/
def form? : Call α → Option (LinearForm α)
  | addConstraint c => some c.form
  | setObjective o => some o.form
  | maximize f => some f
  | minimize f => some f
  | addVariable _ => none
  | simplify => none

/-- Why a model refuses a call: a name that is taken, or a form whose largest index is not
one of its variables. -/
inductive Refused (m : Model α) : Call α → ModelError → Prop
  | duplicateName {name : String} (taken : name ∈ m.vars.map Variable.name) :
      Refused m (addVariable name) (.duplicateName name)
  | unknownVariable {c : Call α} {f : LinearForm α} {t : Term α} (form : c.form? = some f)
      (occurs : t ∈ f.terms) (largest : ∀ u ∈ f.terms, u.index ≤ t.index)
      (foreign : m.vars.length ≤ t.index) : Refused m c (.unknownVariable t.index m.vars.length)

theorem Refused.unique {m : Model α} {c : Call α} {e e' : ModelError} (h : c.Refused m e)
    (h' : c.Refused m e') : e = e' := by
  cases h with
  | duplicateName =>
    cases h' with
    | duplicateName => rfl
    | unknownVariable form => exact nomatch form
  | unknownVariable form occurs largest =>
    cases h' with
    | duplicateName => exact nomatch form
    | unknownVariable form' occurs' largest' =>
      obtain rfl := Option.some.inj (form.symm.trans form')
      rw [le_antisymm (largest' _ occurs) (largest _ occurs')]

theorem not_refused_of_within {m : Model α} {c : Call α} {f : LinearForm α}
    (form : c.form? = some f) (within : f.Within m.vars.length) (e : ModelError) :
    ¬ c.Refused m e := by
  intro refused
  cases refused with
  | duplicateName => exact nomatch form
  | unknownVariable form' occurs _ foreign =>
    obtain rfl := Option.some.inj (form.symm.trans form')
    exact absurd (within _ occurs) (not_lt.2 foreign)

theorem within_of_not_refused {m : Model α} {c : Call α} {f : LinearForm α}
    (form : c.form? = some f) (none : ∀ e, ¬ c.Refused m e) : f.Within m.vars.length := by
  rcases m.checkForm_cases f with ⟨t, occurs, largest, foreign, -⟩ | ⟨within, -⟩
  · exact absurd (.unknownVariable form occurs largest foreign) (none _)
  · exact within

/-- What a call does to a model when nothing is checked. -/
def effect [Scalar α] (m : Model α) : Call α → Model α
  | addVariable name => m.pushVariable (m.nextVariable name)
  | addConstraint c =>
    { m with constraints := m.constraints ++ [{ c with index := m.constraints.length }] }
  | setObjective o => { m with objective := some o }
  | maximize f => { m with objective := some ⟨f, .maximize⟩ }
  | minimize f => { m with objective := some ⟨f, .minimize⟩ }
  | simplify => m.simplify

/-- The call itself, its answer left out. -/
def edit [Scalar α] : Call α → Edit α Unit
  | addVariable name => discard (Model.addVariable name)
  | addConstraint c => discard (Model.addConstraint c)
  | setObjective o => Model.setObjective o
  | maximize f => Model.maximize f
  | minimize f => Model.minimize f
  | simplify => modify Model.simplify

end Call

namespace Model

variable {α : Type} [Scalar α]

/-- The result of a call, with the model it leaves. -/
def perform (m : Model α) (c : Call α) : EStateM.Result ModelError (Model α) Unit := c.edit.run m

/-- The model after a call, answered or refused. -/
def after (m : Model α) (c : Call α) : Model α := c.edit.after m

/-- The model after a run of calls, whether refused or not. -/
def afterAll (m : Model α) (calls : List (Call α)) : Model α := calls.foldl after m

variable {m : Model α} {c : Call α}

/-- A call with a form has its effect if the form passes the check. -/
theorem perform_form {f : LinearForm α} (form : c.form? = some f) : m.perform c =
    match m.checkForm f with
    | .error e => .error e m
    | .ok () => .ok () (c.effect m) := by
  cases c with
  | addVariable | simplify => exact nomatch form
  | addConstraint =>
    obtain rfl := Option.some.inj form
    rw [perform, Call.edit, Edit.run_discard, run_addConstraint]
    cases m.checkForm _ <;> rfl
  | setObjective | maximize | minimize =>
    obtain rfl := Option.some.inj form
    exact run_setObjective m _

/-- A call is refused for one of the reasons and then leaves the model alone, or there is none
and it has its effect. -/
theorem perform_cases (m : Model α) (c : Call α) :
    (∃ e, c.Refused m e ∧ m.perform c = .error e m) ∨
      ((∀ e, ¬ c.Refused m e) ∧ m.perform c = .ok () (c.effect m)) := by
  cases form : c.form? with
  | some f =>
    rw [perform_form form]
    rcases m.checkForm_cases f with ⟨t, occurs, largest, foreign, checked⟩ | ⟨within, checked⟩
    · rw [checked]
      exact .inl ⟨_, .unknownVariable form occurs largest foreign, rfl⟩
    · rw [checked]
      exact .inr ⟨Call.not_refused_of_within form within, rfl⟩
  | none =>
    cases c with
    | addConstraint | setObjective | maximize | minimize => exact nomatch form
    | simplify => exact .inr ⟨fun e refused => by cases refused; contradiction, rfl⟩
    | addVariable name =>
      rw [perform, Call.edit, Edit.run_discard]
      rcases m.addVariable_cases name with ⟨taken, added⟩ | ⟨new, added⟩
      · rw [added]
        exact .inl ⟨_, .duplicateName taken, rfl⟩
      · rw [added]
        refine .inr ⟨fun e refused => ?_, rfl⟩
        cases refused with
        | duplicateName taken => exact new taken
        | unknownVariable form' => exact nomatch form'

theorem perform_eq_error_iff {e : ModelError} {m' : Model α} :
    m.perform c = .error e m' ↔ c.Refused m e ∧ m' = m := by
  rcases m.perform_cases c with ⟨e', refused, performed⟩ | ⟨none, performed⟩
  · rw [performed, EStateM.Result.error.injEq]
    constructor
    · rintro ⟨rfl, rfl⟩
      exact ⟨refused, rfl⟩
    · rintro ⟨refused', rfl⟩
      exact ⟨refused.unique refused', rfl⟩
  · simp [performed, none e]

theorem perform_eq_ok {next : Model α} (done : m.perform c = .ok () next) :
    next = c.effect m := by
  rcases m.perform_cases c with ⟨e, _, performed⟩ | ⟨_, performed⟩
  · exact nomatch done.symm.trans performed
  · exact (EStateM.Result.ok.inj (done.symm.trans performed)).2

theorem after_of_error {e : ModelError} {m' : Model α} (refused : m.perform c = .error e m') :
    m.after c = m' := by
  unfold perform at refused
  rw [Model.after, Edit.after, refused]

theorem after_of_ok {next : Model α} (done : m.perform c = .ok () next) : m.after c = next := by
  unfold perform at done
  rw [Model.after, Edit.after, done]

/-- The effect of a call keeps a model well formed only if its form stays within. -/
theorem within_of_effect {f : LinearForm α} (form : c.form? = some f)
    (h : (c.effect m).WellFormed) : f.Within m.vars.length := by
  cases c with
  | addVariable | simplify => exact nomatch form
  | addConstraint c =>
    obtain rfl := Option.some.inj form
    exact h.within { c with index := m.constraints.length } (by simp [Call.effect])
  | setObjective | maximize | minimize =>
    obtain rfl := Option.some.inj form
    exact h.objective _ rfl

/-- There is a reason to refuse a call exactly if its effect would break the model. -/
theorem effect_wellFormed_iff (h : m.WellFormed) :
    (c.effect m).WellFormed ↔ ∀ e, ¬ c.Refused m e := by
  constructor
  · intro kept e refused
    cases refused with
    | duplicateName taken =>
      have distinct := kept.distinct
      simp only [Call.effect, pushVariable, nextVariable, List.map_append, List.map_singleton,
        List.nodup_append] at distinct
      exact distinct.2.2 _ taken _ (List.mem_singleton_self _) rfl
    | unknownVariable form occurs _ foreign =>
      exact absurd (within_of_effect form kept _ occurs) (not_lt.2 foreign)
  · intro none
    cases c with
    | addVariable name => exact h.pushVariable fun taken => none _ (.duplicateName taken)
    | addConstraint =>
      refine { h.toIndexed.pushConstraint ?_ with position := h.position, distinct := h.distinct }
      exact Call.within_of_not_refused rfl none
    | setObjective | maximize | minimize =>
      refine { h.toIndexed.replaceObjective ?_ with position := h.position, distinct := h.distinct }
      exact Call.within_of_not_refused rfl none
    | simplify => exact { h.toIndexed.simplify with position := h.position, distinct := h.distinct }

theorem WellFormed.after (h : m.WellFormed) (c : Call α) : (m.after c).WellFormed := by
  rcases m.perform_cases c with ⟨e, _, performed⟩ | ⟨none, performed⟩
  · rwa [after_of_error performed]
  · rw [after_of_ok performed]
    exact (effect_wellFormed_iff h).2 none

theorem WellFormed.afterAll (h : m.WellFormed) (calls : List (Call α)) :
    (m.afterAll calls).WellFormed := by
  induction calls generalizing m with
  | nil => exact h
  | cons c calls ih => exact ih (h.after c)

theorem after_addVariable (m : Model α) (name : String) :
    m.after (.addVariable name) = (addVariable name).after m := Edit.after_discard _ m

theorem after_addConstraint (m : Model α) (c : Constraint α) :
    m.after (.addConstraint c) = (addConstraint c).after m := Edit.after_discard _ m

theorem Built.after (built : m.Built) (c : Call α) : (m.after c).Built := by
  cases c with
  | addVariable name => exact m.after_addVariable name ▸ .addVariable built name
  | addConstraint c => exact m.after_addConstraint c ▸ .addConstraint built c
  | setObjective | maximize | minimize => exact .setObjective built _
  | simplify => exact .simplify built

/-- The built models are what runs of calls on a new model leave. -/
theorem built_iff_afterAll : m.Built ↔ ∃ name calls, m = (empty name).afterAll calls := by
  constructor
  · -- One more call makes the run one call longer.
    have longer {m : Model α} (c : Call α) (run : ∃ name calls, m = (empty name).afterAll calls) :
        ∃ name calls, m.after c = (empty name).afterAll calls := by
      obtain ⟨name, calls, rfl⟩ := run
      exact ⟨name, calls ++ [c], by simp [Model.afterAll]⟩
    intro built
    induction built with
    | empty name => exact ⟨name, [], rfl⟩
    | @addVariable m _ name ih => exact m.after_addVariable name ▸ longer _ ih
    | @addConstraint m _ c ih => exact m.after_addConstraint c ▸ longer _ ih
    | setObjective _ o ih => exact longer (.setObjective o) ih
    | simplify _ ih => exact longer .simplify ih
  · rintro ⟨name, calls, rfl⟩
    induction calls using List.reverseRecOn with
    | nil => exact .empty name
    | append_singleton calls c ih => simpa [Model.afterAll] using ih.after c

/-- A run of calls keeps the model well formed whatever its calls are. The next call is refused
exactly if its effect would break that, for the name or the largest index that would do so, and
then it leaves the model as it was; otherwise it has its effect. What a call appends comes after
everything that was there. -/
theorem afterAll_wellFormed_atomic (name : String) (calls : List (Call α)) (c : Call α) :
    let m : Model α := (empty name).afterAll calls
    m.WellFormed ∧
      ((∃ e m', m.perform c = .error e m') ↔ ¬ (c.effect m).WellFormed) ∧
      (∀ e, (∃ m', m.perform c = .error e m') ↔ c.Refused m e) ∧
      (∀ e m', m.perform c = .error e m' → m' = m ∧ m.after c = m) ∧
      (∀ next, m.perform c = .ok () next → next = c.effect m ∧ m.after c = next) ∧
      (∀ added v next, (addVariable added).run m = .ok v next → m.Extends next) ∧
      (∀ added i next, (addConstraint added).run m = .ok i next → m.Extends next) := by
  intro m
  have wellFormed : m.WellFormed := (WellFormed.empty name).afterAll calls
  refine ⟨wellFormed, ?_, fun e => ?_, fun e m' refused => ?_, fun next done => ?_,
    fun added v next done => ?_, fun added i next done => ?_⟩
  · simp [effect_wellFormed_iff wellFormed, perform_eq_error_iff]
  · simp [perform_eq_error_iff]
  · obtain ⟨-, rfl⟩ := perform_eq_error_iff.1 refused
    exact ⟨rfl, after_of_error refused⟩
  · exact ⟨perform_eq_ok done, after_of_ok done⟩
  · rcases m.addVariable_cases added with ⟨_, refused⟩ | ⟨_, answered⟩
    · exact nomatch refused.symm.trans done
    · obtain ⟨-, rfl⟩ := EStateM.Result.ok.inj (answered.symm.trans done)
      exact ⟨rfl, List.prefix_append _ _, List.prefix_rfl, rfl⟩
  · rw [run_addConstraint] at done
    split at done
    · exact nomatch done
    · obtain ⟨-, rfl⟩ := EStateM.Result.ok.inj done
      exact ⟨rfl, List.prefix_rfl, List.prefix_append _ _, rfl⟩

-- The second "x" and the form over an unknown variable are refused, the rest goes on.
example : (((empty "m").afterAll [.addVariable "x", .addVariable "x", .addVariable "y",
    .addConstraint ((LinearForm.ofIndex 2).atMost 1), .maximize (.ofIndex 1)] : Model Rat).vars.map
      Variable.name) = ["x", "y"] := by decide

end Model

end LinearProgram
