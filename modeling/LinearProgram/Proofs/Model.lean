import Mathlib
import LinearProgram.Proofs.LinearForm
import LinearProgram.Proofs.Outcome
import LinearProgram.StandardForm

/-!
# Models and their feasible points

* `Model.Feasible`: a point satisfies a model exactly; `Constraint.Holds` is the
  same on valuations;
* `Edit.after`: the model that a call leaves, `Edit.Keeps`: what it does not change;
* `Model.Built`: what calls on a new model can leave, and `Built.indexed`: there every
  constraint carries its position and no form leaves the variables;
* `Constraint.normalized`, `Model.normalized_constraints`: the constraints of a
  normalised model have the same solutions, the same gaps and no negative bound,
  so that the relation that counts is `Constraint.unsignedRelation`;
* `Objective.gain`: the objective as something to maximise;
* `pointOf`, `eq_pointOf`: the values of the first columns as a point.
-/

namespace LinearProgram

open LinearForm (valuation)

/-- The values of the first columns as a point. -/
def pointOf (n : Nat) (y : Nat → Rat) : List Rat := (List.range n).map y

@[simp] theorem length_pointOf (n : Nat) (y : Nat → Rat) : (pointOf n y).length = n := by
  simp [pointOf]

theorem valuation_pointOf {n j : Nat} (h : j < n) (y : Nat → Rat) :
    valuation (pointOf n y) j = y j := by
  simp [valuation, pointOf, h]

theorem valuation_take {n j : Nat} (h : j < n) (y : List Rat) :
    valuation (y.take n) j = valuation y j := by
  simp [valuation, h]

/-- A point is given by its values. -/
theorem eq_pointOf {n : Nat} {y : List Rat} (length : y.length = n) {v : Nat → Rat}
    (same : ∀ j < n, valuation y j = v j) : y = pointOf n v := by
  apply List.ext_getElem
  · simp [length]
  · intro j h _
    have value := same j (length ▸ h)
    simpa [valuation, h, pointOf] using value

namespace Constraint

/-- The constraint holds at a valuation of all indices. -/
def Holds (c : Constraint Rat) (v : Nat → Rat) : Prop :=
  match c.relation with
  | .atMost => c.form.value v ≤ c.bound
  | .atLeast => c.bound ≤ c.form.value v
  | .equal => c.form.value v = c.bound

/-- How far the two sides of a constraint are apart. -/
noncomputable def gap (c : Constraint Rat) (v : Nat → Rat) : Rat := |c.bound - c.form.value v|

theorem isSatisfied_zero_iff {c : Constraint Rat} {x : List Rat} :
    c.isSatisfied x 0 = true ↔ c.Holds (valuation x) := by
  obtain ⟨form, relation, bound, index⟩ := c
  cases relation
  · simp [isSatisfied, Holds, LinearForm.eval_eq_value]
  · simp [isSatisfied, Holds, LinearForm.eval_eq_value]
  · rw [isSatisfied, Holds, LinearForm.eval_eq_value]
    exact near_zero_iff

theorem holds_congr {c : Constraint Rat} {n : Nat} (within : c.form.Within n) {v v' : Nat → Rat}
    (h : ∀ i < n, v i = v' i) : c.Holds v ↔ c.Holds v' := by
  rw [Holds, Holds, LinearForm.value_congr within h]

/-- The constraint simplified, and negated if its bound is negative. -/
def normalized {α : Type} [Scalar α] (c : Constraint α) : Constraint α :=
  if c.bound < 0 then { c with form := c.form.simplify }.negate
  else { c with form := c.form.simplify }

section Normalized

section Shape

variable {α : Type} [Scalar α] (c : Constraint α)

theorem normalized_index : c.normalized.index = c.index := by
  unfold normalized
  split <;> rfl

/-- The relation that is left when the bound loses its sign. -/
def unsignedRelation : Relation := if c.bound < 0 then c.relation.flip else c.relation

theorem normalized_relation : c.normalized.relation = c.unsignedRelation := by
  unfold normalized unsignedRelation
  split <;> rfl

theorem normalized_within {n : Nat} (h : c.form.Within n) : c.normalized.form.Within n := by
  unfold normalized
  split
  · exact h.simplify.neg
  · exact h.simplify

end Shape

variable (c : Constraint Rat)

theorem normalized_bound : c.normalized.bound = |c.bound| := by
  unfold normalized
  split
  · rename_i negative
    exact (abs_of_neg negative).symm
  · rename_i notNegative
    exact (abs_of_nonneg (not_lt.1 notNegative)).symm

theorem normalized_value (v : Nat → Rat) : c.normalized.bound - c.normalized.form.value v =
    if c.bound < 0 then -(c.bound - c.form.value v) else c.bound - c.form.value v := by
  unfold normalized
  split
  · change -c.bound - (-c.form.simplify).value v = _
    rw [LinearForm.value_neg, LinearForm.value_simplify, LinearMap.neg_apply]
    ring
  · rw [LinearForm.value_simplify]

theorem normalized_gap (v : Nat → Rat) : c.normalized.gap v = c.gap v := by
  rw [gap, normalized_value, gap]
  split
  · exact abs_neg _
  · rfl

theorem normalized_holds (v : Nat → Rat) : c.normalized.Holds v ↔ c.Holds v := by
  unfold normalized
  split
  · rw [Holds, Holds]
    simp only [negate, LinearForm.value_neg, LinearForm.value_simplify, LinearMap.neg_apply]
    cases c.relation <;> simp [Relation.flip]
  · rw [Holds, Holds, LinearForm.value_simplify]

end Normalized

end Constraint

namespace Objective

/-- The value of the objective as something to maximise. -/
noncomputable def gain (o : Objective Rat) (v : Nat → Rat) : Rat :=
  match o.sense with
  | .maximize => o.form.value v
  | .minimize => -o.form.value v

/-- A point is worth more than a bound in the objective's own sense. -/
def Beats (o : Objective Rat) (x : List Rat) (bound : Rat) : Prop :=
  match o.sense with
  | .maximize => bound < o.eval x
  | .minimize => o.eval x < bound

theorem eval_eq_gain (o : Objective Rat) (x : List Rat) : o.eval x =
    if o.sense = .maximize then o.gain (valuation x) else -o.gain (valuation x) := by
  cases sense : o.sense <;> simp [eval, gain, sense, LinearForm.eval_eq_value]

theorem gain_congr {o : Objective Rat} {n : Nat} (within : o.form.Within n) {v v' : Nat → Rat}
    (h : ∀ i < n, v i = v' i) : o.gain v = o.gain v' := by
  rw [gain, gain, LinearForm.value_congr within h]

end Objective

namespace Edit

variable {α β γ : Type}

/-- The model that a call leaves, answered or refused. -/
def after (edit : Edit α β) (m : Model α) : Model α :=
  match edit.run m with
  | .ok _ m' => m'
  | .error _ m' => m'

theorem run_discard (edit : Edit α β) (m : Model α) :
    EStateM.run (discard edit) m = (edit.run m).map fun _ => PUnit.unit :=
  EStateM.run_map (Function.const β PUnit.unit) edit m

theorem after_discard (edit : Edit α β) (m : Model α) : after (discard edit) m = edit.after m := by
  rw [after, after, run_discard]
  cases edit.run m <;> rfl

/-- The call keeps a property of models, whatever its result. -/
def Keeps (P : Model α → Prop) (edit : Edit α β) : Prop := ∀ m, P m → P (edit.after m)

variable {P : Model α → Prop} {edit : Edit α β} {next : β → Edit α γ}

theorem Keeps.discard (keeps : edit.Keeps P) : Keeps P (Functor.discard edit) := by
  intro m h
  rw [after_discard]
  exact keeps m h

theorem Keeps.bind (first : edit.Keeps P) (rest : ∀ b, (next b).Keeps P) :
    Keeps P (edit >>= next) := by
  intro m h
  have kept := first m h
  unfold after at kept ⊢
  rw [EStateM.run_bind]
  split at kept
  · rename_i b m' done
    rw [done]
    exact rest b m' kept
  · rename_i e m' refused
    rw [refused]
    exact kept

theorem Keeps.forM {f : β → Edit α PUnit} (each : ∀ b, (f b).Keeps P) (items : List β) :
    Keeps P (items.forM f) := by
  induction items with
  | nil => exact fun _ h => h
  | cons b items ih => exact (each b).bind fun _ => ih

end Edit

namespace Model

/-- The value of the model's objective as something to maximise, zero without one. -/
noncomputable def gain (m : Model Rat) (v : Nat → Rat) : Rat :=
  m.objective.elim 0 (·.gain v)

/-- A point with non-negative entries that satisfies every constraint exactly. -/
structure Feasible (m : Model Rat) (x : List Rat) : Prop where
  length : x.length = m.vars.length
  nonneg : ∀ value ∈ x, 0 ≤ value
  satisfied : ∀ c ∈ m.constraints, c.isSatisfied x 0 = true

theorem Feasible.valuation_nonneg {m : Model Rat} {x : List Rat} (h : m.Feasible x) (i : Nat) :
    0 ≤ valuation x i := LinearForm.valuation_nonneg h.nonneg i

section Operations

variable {α : Type}

/-- Constraints carry their positions and forms stay within the variables. -/
structure Indexed (m : Model α) : Prop where
  index : ∀ (i : Nat) (c : Constraint α), m.constraints[i]? = some c → c.index = i
  within : ∀ c ∈ m.constraints, c.form.Within m.vars.length
  objective : ∀ o ∈ m.objective, o.form.Within m.vars.length

theorem Indexed.empty (name : String) : (Model.empty name : Model α).Indexed :=
  ⟨by simp [Model.empty], by simp [Model.empty], by simp [Model.empty]⟩

theorem Indexed.pushVariable {m : Model α} (h : m.Indexed) (v : Variable) :
    (m.pushVariable v).Indexed := by
  have longer : m.vars.length ≤ (m.vars ++ [v]).length := by simp
  exact ⟨h.index, fun c hc => (h.within c hc).mono longer,
    fun o ho => (h.objective o ho).mono longer⟩

theorem Indexed.pushConstraint {m : Model α} {c : Constraint α} (h : m.Indexed)
    (within : c.form.Within m.vars.length) :
    { m with
      constraints := m.constraints ++ [{ c with index := m.constraints.length }] }.Indexed := by
  refine ⟨fun i c' found => ?_, fun c' mem => ?_, h.objective⟩
  · rcases lt_or_ge i m.constraints.length with old | new
    · exact h.index i c' (by simpa [List.getElem?_append_left old] using found)
    · rw [List.getElem?_append_right new, List.getElem?_singleton] at found
      split at found
      · obtain rfl := Option.some.inj found
        simp only
        omega
      · exact nomatch found
  · rcases List.mem_append.1 mem with old | new
    · exact h.within c' old
    · obtain rfl := List.mem_singleton.1 new
      exact within

theorem Indexed.replaceObjective {m : Model α} {o : Objective α} (h : m.Indexed)
    (within : o.form.Within m.vars.length) : { m with objective := some o }.Indexed :=
  ⟨h.index, h.within, fun _ found => Option.mem_some_iff.1 found ▸ within⟩

theorem within_of_checkForm {m : Model α} {f : LinearForm α} (h : m.checkForm f = .ok ()) :
    f.Within m.vars.length := by
  apply LinearForm.within_of_maxIndex?
  intro i largest
  rw [checkForm, largest] at h
  by_contra outside
  simp [not_lt.1 outside] at h

/-- A name is refused if it is taken. -/
theorem run_addVariable (m : Model α) (name : String) : (addVariable name).run m =
    if (m.variableNamed? name).isSome then .error (.duplicateName name) m
    else .ok (m.nextVariable name) (m.pushVariable (m.nextVariable name)) := by
  simp only [addVariable, EStateM.run_bind, EStateM.run_get]
  split <;> rfl

/-- A constraint is refused if its form does not pass the check. -/
theorem run_addConstraint (m : Model α) (c : Constraint α) : (addConstraint c).run m =
    match m.checkForm c.form with
    | .error e => .error e m
    | .ok () => .ok m.constraints.length
        { m with constraints := m.constraints ++ [{ c with index := m.constraints.length }] } := by
  simp only [addConstraint, EStateM.run_bind, EStateM.run_get]
  cases m.checkForm c.form <;> rfl

/-- An objective is refused if its form does not pass the check. -/
theorem run_setObjective (m : Model α) (o : Objective α) : (setObjective o).run m =
    match m.checkForm o.form with
    | .error e => .error e m
    | .ok () => .ok () { m with objective := some o } := by
  simp only [setObjective, EStateM.run_bind, EStateM.run_get]
  cases m.checkForm o.form <;> rfl

theorem keeps_addVariable (name : String) : (addVariable (α := α) name).Keeps Indexed := by
  intro m h
  rw [Edit.after, run_addVariable]
  cases (m.variableNamed? name).isSome with
  | false => exact h.pushVariable _
  | true => exact h

theorem keeps_addConstraint (c : Constraint α) : (addConstraint c).Keeps Indexed := by
  intro m h
  rw [Edit.after, run_addConstraint]
  cases checked : m.checkForm c.form with
  | error e => exact h
  | ok _ => exact h.pushConstraint (within_of_checkForm checked)

theorem keeps_setObjective (o : Objective α) : (setObjective o).Keeps Indexed := by
  intro m h
  rw [Edit.after, run_setObjective]
  cases checked : m.checkForm o.form with
  | error e => exact h
  | ok _ => exact h.replaceObjective (within_of_checkForm checked)

end Operations

section Built

variable {α : Type} [Scalar α]

/-- What calls on a new model can leave. -/
inductive Built : Model α → Prop
  | empty (name : String) : Built (.empty name)
  | addVariable {m : Model α} (built : Built m) (name : String) :
      Built ((addVariable name).after m)
  | addConstraint {m : Model α} (built : Built m) (c : Constraint α) :
      Built ((addConstraint c).after m)
  | setObjective {m : Model α} (built : Built m) (o : Objective α) :
      Built ((setObjective o).after m)
  | simplify {m : Model α} (built : Built m) : Built m.simplify

theorem Indexed.simplify {m : Model α} (h : m.Indexed) : m.simplify.Indexed := by
  refine ⟨fun i c hc => ?_, fun c hc => ?_, fun o ho => ?_⟩
  · obtain ⟨c', hc', rfl⟩ := Option.map_eq_some_iff.1 (List.getElem?_map .. ▸ hc)
    exact h.index i c' hc'
  · obtain ⟨c', hc', rfl⟩ := List.mem_map.1 hc
    exact (h.within c' hc').simplify
  · obtain ⟨o', ho', rfl⟩ := Option.map_eq_some_iff.1 ho
    exact (h.objective o' ho').simplify

theorem Built.indexed {m : Model α} (built : m.Built) : m.Indexed := by
  induction built with
  | empty name => exact .empty name
  | addVariable _ name ih => exact keeps_addVariable name _ ih
  | addConstraint _ c ih => exact keeps_addConstraint c _ ih
  | setObjective _ o ih => exact keeps_setObjective o _ ih
  | simplify _ ih => exact ih.simplify

/-- Building from parts makes calls only. -/
theorem keeps_build (b : Blueprint α) : b.build.Keeps Built := by
  have name (name : String) : (addVariable (α := α) name).Keeps Built :=
    fun _ built => .addVariable built name
  have constraint (c : Constraint α) : (addConstraint c).Keeps Built :=
    fun _ built => .addConstraint built c
  apply (Edit.Keeps.forM (fun s => (name s).discard) b.names).bind
  intro _
  apply (Edit.Keeps.forM (fun c => (constraint c).discard) b.constraints).bind
  intro _
  cases b.objective with
  | none => exact fun _ built => built
  | some o => exact fun _ built => .setObjective built o

theorem built_of_toModel {b : Blueprint α} {m : Model α} (h : b.toModel = .ok m) : m.Built := by
  have kept := keeps_build b _ (.empty b.name)
  unfold Blueprint.toModel at h
  unfold Edit.after at kept
  split at h
  · rename_i m' done
    rw [done] at kept
    exact Except.ok.inj h ▸ kept
  · exact nomatch h

/-- The parts of a model. -/
def blueprint (m : Model α) : Blueprint α :=
  ⟨m.name, m.vars.map Variable.name, m.constraints, m.objective⟩

/-- A model is built if putting its parts together again gives the same model. -/
theorem built_of_rebuilt {m : Model α} (same : m.blueprint.toModel = .ok m) : m.Built :=
  built_of_toModel same

end Built

section Normalized

theorem normalized_constraints {α : Type} [Scalar α] (m : Model α) :
    m.normalized.constraints = m.constraints.map Constraint.normalized := by
  rw [normalized, simplify, List.map_map]
  rfl

theorem normalized_indexed {α : Type} [Scalar α] {m : Model α} (h : m.Indexed) : m.normalized.Indexed := by
  refine ⟨fun i c hc => ?_, fun c hc => ?_, fun o ho => ?_⟩
  · rw [normalized_constraints, List.getElem?_map] at hc
    obtain ⟨c', hc', rfl⟩ := Option.map_eq_some_iff.1 hc
    rw [c'.normalized_index]
    exact h.index i c' hc'
  · rw [normalized_constraints] at hc
    obtain ⟨c', hc', rfl⟩ := List.mem_map.1 hc
    exact c'.normalized_within (h.within c' hc')
  · obtain ⟨o', ho', rfl⟩ := Option.map_eq_some_iff.1 ho
    have within := h.simplify.objective o' ho'
    split
    · exact within.neg
    · exact within

/-- The objective of a normalised model is the gain of the model. -/
theorem normalized_gain (m : Model Rat) (v : Nat → Rat) :
    (m.normalized.objective.elim 0 fun o => o.form.value v) = m.gain v := by
  unfold normalized simplify gain
  cases m.objective with
  | none => rfl
  | some o =>
    obtain ⟨form, sense⟩ := o
    cases sense
    · simp [Objective.negate, Objective.gain, LinearForm.value_neg, LinearForm.value_simplify]
    · simp [Objective.gain, LinearForm.value_simplify]

theorem feasible_iff {m : Model Rat} {x : List Rat} : m.Feasible x ↔
    x.length = m.vars.length ∧ (∀ value ∈ x, 0 ≤ value) ∧
      ∀ c ∈ m.normalized.constraints, c.Holds (valuation x) := by
  rw [normalized_constraints]
  simp only [List.forall_mem_map, Constraint.normalized_holds]
  constructor
  · rintro ⟨length, nonneg, satisfied⟩
    exact ⟨length, nonneg, fun c hc => Constraint.isSatisfied_zero_iff.1 (satisfied c hc)⟩
  · rintro ⟨length, nonneg, holds⟩
    exact ⟨length, nonneg, fun c hc => Constraint.isSatisfied_zero_iff.2 (holds c hc)⟩

end Normalized

end Model

end LinearProgram
