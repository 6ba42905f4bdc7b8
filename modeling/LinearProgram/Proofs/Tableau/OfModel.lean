import Mathlib
import LinearProgram.Proofs.StandardForm
import LinearProgram.Proofs.Tableau.Basis

/-!
# The table of a model

* `ofModel_sized`: the size of the table that is written down for a model;
* `Tabulates`, `ofModel_eq_ok`: it has the forms and bounds as equations;
* `Carries`: the constraint rows of a table are the equations of a standard form, with
  `Carries.slack_unitIn`, `Carries.surplus`, `Carries.side` for what they hold;
* `Represents`: the solutions of a table are those of the standard form, and its
  objective row is the gain of the model there;
* `Represents.extend_satisfies`, `Represents.feasible`: feasible points of the
  model are solutions of such a table and come from them.
-/

namespace LinearProgram

open LinearForm (valuation)

namespace Tableau

section Written

variable {α : Type} [Scalar α] {costs : List α} {m : Model α}

/-- The rows that are written down for a model. -/
def writtenRows (costs : List α) (m : Model α) : List (List α) :=
  costs :: m.constraints.map fun c => c.form.coefficients m.vars.length ++ [c.bound]

/-- Costs for all variables and a value are above rows of the same length. -/
theorem ofModel_sized (h : costs.length = m.vars.length + 1) :
    ofModel costs m = .ok ⟨writtenRows costs m⟩ ∧
      Sized ⟨writtenRows costs m⟩ m.constraints.length m.vars.length := by
  refine ofRows_eq_ok (by simp) ?_
  refine List.forall_mem_cons.2 ⟨h, List.forall_mem_map.2 fun c _ => ?_⟩
  rw [List.length_append, LinearForm.length_coefficients]
  rfl

end Written

/-- Given costs above the forms and bounds of all constraints. -/
structure Tabulates (t : Tableau Rat) (costs : List Rat) (m : Model Rat) : Prop where
  sized : t.Sized m.constraints.length m.vars.length
  cost : ∀ j, t.get 0 j = costs[j]?.getD 0
  coefficient : ∀ i c, m.constraints[i]? = some c → ∀ j < m.vars.length,
    t.get (i + 1) j = c.form.value (Pi.single j 1)
  bound : ∀ i c, m.constraints[i]? = some c → t.get (i + 1) m.vars.length = c.bound

theorem ofModel_eq_ok {costs : List Rat} {m : Model Rat} (h : costs.length = m.vars.length + 1) :
    ∃ t, ofModel costs m = .ok t ∧ t.Tabulates costs m := by
  obtain ⟨written, sized⟩ := ofModel_sized h
  have length (c : Constraint Rat) : (c.form.coefficients m.vars.length).length = m.vars.length :=
    LinearForm.length_coefficients _ _
  have line (i : Nat) (c : Constraint Rat) (hc : m.constraints[i]? = some c) :
      Tableau.line ⟨writtenRows costs m⟩ (i + 1) =
        c.form.coefficients m.vars.length ++ [c.bound] := by
    simp [Tableau.line, writtenRows, hc]
  refine ⟨_, written, sized, fun j => rfl, fun i c hc j hj => ?_, fun i c hc => ?_⟩
  · rw [get, line i c hc, List.getElem?_append_left (by rw [length]; exact hj)]
    exact c.form.getD_coefficients hj
  · rw [get, line i c hc, List.getElem?_append_right (by rw [length]), length]
    simp

/-- A row of the table is the form and the bound of its constraint. -/
theorem Tabulates.equation {t : Tableau Rat} {costs : List Rat} {m : Model Rat}
    (h : t.Tabulates costs m) {i : Nat} {c : Constraint Rat} (hc : m.constraints[i]? = some c)
    (within : c.form.Within m.vars.length) (v : Nat → Rat) :
    t.equation (i + 1) v = c.form.value v + c.bound * v m.vars.length := by
  rw [h.sized.equation_apply, Finset.sum_range_succ, h.bound i c hc,
    LinearForm.value_eq_sum within]
  congr 1
  apply Finset.sum_congr rfl
  intro j hj
  rw [h.coefficient i c hc j (Finset.mem_range.1 hj)]

/-- The constraint rows hold the coefficients and bounds of a standard form. Other columns may
stand between the two. -/
structure Carries (t : Tableau Rat) (s : StandardForm Rat) (n : Nat) : Prop where
  sized : t.Sized s.model.constraints.length n
  wide : s.model.vars.length ≤ n
  coefficient : ∀ i c, s.model.constraints[i]? = some c → ∀ j < s.model.vars.length,
    t.get (i + 1) j = c.form.value (unit j)
  bound : ∀ i c, s.model.constraints[i]? = some c → t.get (i + 1) n = c.bound

theorem Tabulates.carries {t : Tableau Rat} {costs : List Rat} {s : StandardForm Rat}
    (h : t.Tabulates costs s.model) : t.Carries s s.model.vars.length :=
  ⟨h.sized, le_rfl, h.coefficient, h.bound⟩

/-- Other costs above the same rows. -/
theorem Carries.of_rows {t u : Tableau Rat} {s : StandardForm Rat} {n : Nat} (h : t.Carries s n)
    (sized : u.Sized s.model.constraints.length n)
    (rows : ∀ i j, u.get (i + 1) j = t.get (i + 1) j) : u.Carries s n :=
  ⟨sized, h.wide, fun i c hc j hj => by rw [rows, h.coefficient i c hc j hj],
    fun i c hc => by rw [rows, h.bound i c hc]⟩

namespace Carries

variable {t : Tableau Rat} {m : Model Rat} {s : StandardForm Rat} {n : Nat}
  (carries : t.Carries s n) (std : m.Standardizes s)

include carries std

/-- Right-hand sides are the bounds without their signs. -/
theorem side {i : Nat} {c : Constraint Rat} (hc : m.constraints[i]? = some c) :
    t.get (i + 1) n = |c.bound| := by
  have inside : i < s.model.constraints.length :=
    std.length.symm ▸ (List.getElem?_eq_some_iff.1 hc).1
  have found := List.getElem?_eq_getElem inside
  obtain ⟨c', hc', bound, _⟩ := std.origin found
  obtain rfl : c = c' := Option.some.inj (hc.symm.trans hc')
  rw [carries.bound i _ found, bound]

theorem side_nonneg (i : Nat) : 0 ≤ t.get (i + 1) n := by
  cases hc : m.constraints[i]? with
  | none =>
    have outside := List.getElem?_eq_none_iff.1 hc
    rw [carries.sized.get_eq_zero (.inl (by rw [std.length]; omega))]
  | some c =>
    rw [carries.side std hc]
    exact abs_nonneg _

variable (indexed : m.Indexed) {u i : Nat}

include indexed

/-- A slack column is a unit column of its constraint. -/
theorem slack_unitIn (hu : (u, i) ∈ s.slacks.entries) : t.UnitIn (i + 1) u := by
  refine unitIn_succ_iff.2 fun k => ?_
  cases hc : s.model.constraints[k]? with
  | none =>
    have outside := List.getElem?_eq_none_iff.1 hc
    have := std.slack_lt_length hu
    rw [carries.sized.get_eq_zero (.inl (by omega)), if_neg (by omega)]
  | some c => rw [carries.coefficient k c hc u (std.slack_lt hu), std.slack_unit indexed hu hc]

/-- A surplus column has minus one in its constraint. -/
theorem surplus (hu : (u, i) ∈ s.surpluses.entries) : t.get (i + 1) u = -1 := by
  have found := List.getElem?_eq_getElem (std.surplus_lt_length hu)
  rw [carries.coefficient i _ found u (std.surplus_bounds hu).2, std.surplus_unit indexed hu found,
    if_pos rfl]

end Carries

/-- A vector solves all equations of the standard form. -/
def Solves (s : StandardForm Rat) (v : Nat → Rat) : Prop :=
  ∀ c ∈ s.model.constraints, c.form.value v + c.bound * v s.model.vars.length = 0

/-- The table has the solutions of the standard form and prices them by the
gain of the model. -/
structure Represents (t : Tableau Rat) (m : Model Rat) (s : StandardForm Rat) (k : Nat) : Prop where
  sized : t.Sized k s.model.vars.length
  vanishes : ∀ v, t.Vanishes v ↔ Solves s v
  price : ∀ v, t.Vanishes v → t.equation 0 v = -m.gain v

theorem Represents.equivalent {t u : Tableau Rat} {m : Model Rat} {s : StandardForm Rat} {k : Nat}
    (h : t.Represents m s k) (sized : u.Sized k s.model.vars.length) (same : t.Equivalent u) :
    u.Represents m s k := by
  refine ⟨sized, fun v => (same.vanishes_iff v).symm.trans (h.vanishes v), fun v hv => ?_⟩
  have old := (same.vanishes_iff v).2 hv
  rw [same.price old, h.price v old]

end Tableau

theorem StandardForm.length_objectiveRow {α : Type} [Scalar α] (s : StandardForm α) :
    s.objectiveRow.length = s.model.vars.length + 1 := by
  unfold StandardForm.objectiveRow
  cases s.model.objective <;> simp

namespace Model

theorem gain_congr {m : Model Rat} (indexed : m.Indexed) {v v' : Nat → Rat}
    (h : ∀ j < m.vars.length, v j = v' j) : m.gain v = m.gain v' := by
  unfold gain
  cases objective : m.objective with
  | none => rfl
  | some o => exact Objective.gain_congr (indexed.objective o objective) h

/-- The gain does not see the solver's variables. -/
theorem gain_single_of_le {m : Model Rat} (indexed : m.Indexed) {u : Nat}
    (h : m.vars.length ≤ u) : m.gain (Pi.single u 1) = 0 := by
  unfold gain
  cases objective : m.objective with
  | none => rfl
  | some o =>
    have zero := LinearForm.value_single_of_le (indexed.objective o objective) h
    rw [Option.elim_some, Objective.gain, zero, neg_zero]
    split <;> rfl

namespace Standardizes

variable {m : Model Rat} {s : StandardForm Rat} (std : m.Standardizes s)

include std

theorem solves_atPoint {y : Nat → Rat} :
    Tableau.Solves s (Tableau.atPoint s.model.vars.length y) ↔
      ∀ c ∈ s.model.constraints, c.form.value y = c.bound := by
  refine forall₂_congr fun c hc => ?_
  have own : c.form.value (Tableau.atPoint s.model.vars.length y) = c.form.value y :=
    LinearForm.value_congr (std.within c hc) fun j hj => Function.update_of_ne hj.ne _ _
  rw [own, Tableau.atPoint, Function.update_self, mul_neg_one, ← sub_eq_add_neg, sub_eq_zero]

variable (indexed : m.Indexed)

include indexed

/-- Row 0 of the standard form is minus the gain. -/
theorem sum_objectiveRow (v : Nat → Rat) :
    ∑ j ∈ Finset.range (s.model.vars.length + 1), s.objectiveRow[j]?.getD 0 * v j = -m.gain v := by
  have normal := normalized_gain m v
  rw [← std.objective] at normal
  rw [Finset.sum_range_succ, ← normal]
  unfold StandardForm.objectiveRow
  cases objective : s.model.objective with
  | none =>
    rw [Option.elim_none, neg_zero]
    apply add_eq_zero_iff_eq_neg.2
    rw [Finset.sum_eq_zero]
    · simp
    · intro j hj
      have hj := Finset.mem_range.1 hj
      rw [List.getElem?_append_left (by simpa using hj)]
      simp [hj]
  | some o =>
    have within : (-o.form).Within s.model.vars.length := by
      rw [std.objective] at objective
      exact ((normalized_indexed indexed).objective o objective).neg.mono std.own_le
    rw [Option.elim_some, ← LinearMap.neg_apply, ← LinearForm.value_neg,
      LinearForm.value_eq_sum within]
    have last : ((-o.form).coefficients s.model.vars.length ++ [0])[s.model.vars.length]?.getD 0
        = 0 := by
      rw [List.getElem?_append_right (by simp)]
      simp
    rw [last, zero_mul, add_zero]
    apply Finset.sum_congr rfl
    intro j hj
    have hj := Finset.mem_range.1 hj
    rw [List.getElem?_append_left (by simpa using hj), LinearForm.getD_coefficients _ hj]

/-- The table on the slack basis represents the model. -/
theorem tableau_represents : ∃ t, s.tableau = .ok t ∧
    t.Tabulates s.objectiveRow s.model ∧ t.Represents m s s.model.constraints.length := by
  obtain ⟨t, written, tabulates⟩ := Tableau.ofModel_eq_ok (s.length_objectiveRow)
  have equation {i : Nat} {c : Constraint Rat} (hc : s.model.constraints[i]? = some c)
      (v : Nat → Rat) := tabulates.equation hc (std.within c (List.mem_of_getElem? hc)) v
  refine ⟨t, written, tabulates, tabulates.sized, fun v => ⟨fun hv c hc => ?_, fun hv i hi => ?_⟩,
    fun v _ => ?_⟩
  · obtain ⟨i, hi⟩ := List.getElem?_of_mem hc
    rw [← equation hi, hv (i + 1) (Nat.succ_pos i)]
  · obtain ⟨i, rfl⟩ := Nat.exists_eq_succ_of_ne_zero hi.ne'
    cases hc : s.model.constraints[i]? with
    | none =>
      apply tabulates.sized.equation_eq_zero
      have := List.getElem?_eq_none_iff.1 hc
      omega
    | some c =>
      rw [Nat.succ_eq_add_one, equation hc]
      exact hv c (List.mem_of_getElem? hc)
  · rw [tabulates.sized.equation_apply]
    simp only [tabulates.cost]
    exact std.sum_objectiveRow indexed v

theorem gain_atPoint {y : Nat → Rat} :
    m.gain (Tableau.atPoint s.model.vars.length y) = m.gain y := by
  apply gain_congr indexed
  intro j hj
  exact Function.update_of_ne (hj.trans_le std.own_le).ne _ _

/-- The gaps are worth nothing. -/
theorem gain_extend (x : List Rat) :
    m.gain (Tableau.atPoint s.model.vars.length (s.extend m x)) = m.gain (valuation x) := by
  rw [std.gain_atPoint indexed]
  exact gain_congr indexed fun j hj => s.extend_own m x hj

end Standardizes

end Model

namespace Tableau.Represents

variable {t : Tableau Rat} {m : Model Rat} {s : StandardForm Rat} {k : Nat}
  (represents : t.Represents m s k) (std : m.Standardizes s) (indexed : m.Indexed)

include represents std indexed

/-- A feasible point with its gaps satisfies the table, at its gain. -/
theorem extend_satisfies {x : List Rat} (feasible : m.Feasible x) :
    t.Vanishes (atPoint s.model.vars.length (s.extend m x)) ∧
      t.equation 0 (atPoint s.model.vars.length (s.extend m x)) = -m.gain (valuation x) := by
  have solves : Solves s (atPoint s.model.vars.length (s.extend m x)) :=
    std.solves_atPoint.2 fun c hc => std.extend_solves indexed feasible hc
  have vanishes := (represents.vanishes _).2 solves
  exact ⟨vanishes, by rw [represents.price _ vanishes, std.gain_extend indexed]⟩

/-- A non-negative solution of the table is feasible on the model's own variables. -/
theorem feasible {x : List Rat} {y : Nat → Rat} (length : x.length = m.vars.length)
    (same : ∀ j < m.vars.length, valuation x j = y j)
    (nonneg : ∀ j < s.model.vars.length, 0 ≤ y j)
    (vanishes : t.Vanishes (atPoint s.model.vars.length y)) :
    m.Feasible x ∧ m.gain (valuation x) = -t.equation 0 (atPoint s.model.vars.length y) := by
  have solves := std.solves_atPoint.1 ((represents.vanishes _).1 vanishes)
  refine ⟨std.feasible_of_solves indexed length same nonneg solves, ?_⟩
  rw [represents.price _ vanishes, std.gain_atPoint indexed, neg_neg]
  exact Model.gain_congr indexed same

end Tableau.Represents

end LinearProgram
