import Mathlib
import LinearProgram.Proofs.Restore

/-!
# Redundant rows and loose columns

A redundant row leaves its trace in the artificial columns only. Once it is
dropped, an artificial column may look like a unit column of a row that has a
basic column of its own; that basic column is loose. The equations the dropped
rows came from tell the two apart:

* `Separates`: a combination of the equations that does not see the solver's
  variables and is minus one on every loose column;
* `Redundancy`, `Redundancy.separates`: it is the sum of the equations whose
  artificial variables are basic in redundant rows.
-/

namespace LinearProgram

open Tableau (atPoint unit Solves)

/-- An equation of the standard form as a functional, zero past the end. -/
noncomputable def StandardForm.equation (s : StandardForm Rat) (i : Nat) :
    (Nat → Rat) →ₗ[Rat] Rat :=
  (s.model.constraints[i]?).elim 0 fun c =>
    c.form.value + coordinate c.bound s.model.vars.length

theorem StandardForm.equation_apply {s : StandardForm Rat} {i : Nat} {c : Constraint Rat}
    (h : s.model.constraints[i]? = some c) (v : Nat → Rat) :
    s.equation i v = c.form.value v + c.bound * v s.model.vars.length := by
  rw [StandardForm.equation, h]
  rfl

theorem Tableau.solves_iff {s : StandardForm Rat} {v : Nat → Rat} :
    Solves s v ↔ ∀ i, s.equation i v = 0 := by
  constructor
  · intro solves i
    cases hc : s.model.constraints[i]? with
    | none =>
      rw [StandardForm.equation, hc]
      rfl
    | some c => rw [StandardForm.equation_apply hc, solves c (List.mem_of_getElem? hc)]
  · intro zero c hc
    obtain ⟨i, hi⟩ := List.getElem?_of_mem hc
    rw [← StandardForm.equation_apply hi, zero i]

/-- A functional that follows from the equations, does not see slacks and
surpluses, and is minus one on every loose column. -/
structure Separates (m : Model Rat) (s : StandardForm Rat) (Loose : Nat → Prop)
    (ω : (Nat → Rat) →ₗ[Rat] Rat) : Prop where
  solves : ∀ v, Solves s v → ω v = 0
  blind : ∀ v, (∀ j < m.vars.length, v j = 0) → v s.model.vars.length = 0 → ω v = 0
  loose : ∀ c, Loose c → ω (unit c) = -1

/-- Without loose columns nothing has to be told apart. -/
theorem Separates.zero (m : Model Rat) (s : StandardForm Rat) {Loose : Nat → Prop}
    (cleared : ∀ c, ¬ Loose c) : Separates m s Loose 0 :=
  ⟨fun _ _ => rfl, fun _ _ _ => rfl, fun c loose => absurd loose (cleared c)⟩

/-- With zeros for the artificial variables, a point and its gaps stay themselves. -/
theorem Model.Standardizes.lift_extend {m : Model Rat} {s : StandardForm Rat}
    (std : m.Standardizes s) (x : List Rat) {n : Nat} (le : s.model.vars.length ≤ n) :
    Tableau.lift s.model.vars.length n (atPoint s.model.vars.length (s.extend m x)) =
      atPoint n (s.extend m x) := by
  funext j
  by_cases own : j < s.model.vars.length
  · rw [Tableau.lift_own own, atPoint, atPoint, Function.update_of_ne own.ne,
      Function.update_of_ne (own.trans_le le).ne]
  · by_cases last : j = n
    · rw [last, Tableau.lift_rhs le, atPoint, atPoint, Function.update_self, Function.update_self]
    · rw [Tableau.lift, if_neg own, if_neg last, atPoint, Function.update_of_ne last,
        std.extend_outside x (not_lt.1 own)]

namespace Tableau.Auxiliary

variable {m : Model Rat} {s : StandardForm Rat} {raw : Tableau Rat} (auxiliary : raw.Auxiliary s)
  (std : m.Standardizes s)

include auxiliary std

/-- Without artificial variables a row of an auxiliary table is an equation. -/
theorem equation_lift (i : Nat) (v : Nat → Rat) :
    raw.equation (i + 1) (lift s.model.vars.length s.phaseOneWidth v) = s.equation i v := by
  cases hc : s.model.constraints[i]? with
  | none =>
    have outside := List.getElem?_eq_none_iff.1 hc
    rw [auxiliary.sized.equation_eq_zero (by omega), StandardForm.equation, hc]
    rfl
  | some c =>
    have wide : s.model.vars.length ≤ s.phaseOneWidth := Nat.le_add_right _ _
    rw [auxiliary.row i c hc _ fun j le lt => lift_between le lt v, lift_rhs wide,
      StandardForm.equation_apply hc,
      LinearForm.value_congr (std.within c (List.mem_of_getElem? hc)) fun j hj => lift_own hj v]

/-- The solutions without artificial variables are those of the standard form. -/
theorem vanishes_lift (v : Nat → Rat) :
    raw.Vanishes (lift s.model.vars.length s.phaseOneWidth v) ↔ Solves s v := by
  rw [solves_iff]
  constructor
  · intro vanishes i
    rw [← auxiliary.equation_lift std, vanishes (i + 1) (Nat.succ_pos i)]
  · intro zero k pos
    obtain ⟨i, rfl⟩ := Nat.exists_eq_succ_of_ne_zero pos.ne'
    exact (auxiliary.equation_lift std i v).trans (zero i)

/-- A feasible point with its gaps has no artificial part. -/
theorem extend_satisfies (indexed : m.Indexed) {x : List Rat} (feasible : m.Feasible x) :
    raw.Vanishes (atPoint s.phaseOneWidth (s.extend m x)) ∧
      raw.equation 0 (atPoint s.phaseOneWidth (s.extend m x)) = 0 := by
  have wide : s.model.vars.length ≤ s.phaseOneWidth := Nat.le_add_right _ _
  rw [← std.lift_extend x wide]
  constructor
  · exact (auxiliary.vanishes_lift std _).2
      (std.solves_atPoint.2 fun c hc => std.extend_solves indexed feasible hc)
  · rw [auxiliary.price]
    apply Finset.sum_eq_zero
    intro j hj
    obtain ⟨le, lt⟩ := Finset.mem_Ico.1 hj
    exact lift_between le lt _

/-- The columns of the standard form stand in an auxiliary table. -/
theorem get_own (i : Nat) {j : Nat} (hj : j < s.model.vars.length) :
    raw.get (i + 1) j = s.equation i (unit j) := by
  have le : s.model.vars.length ≤ s.phaseOneWidth := Nat.le_add_right _ _
  rw [← auxiliary.equation_lift std, ← auxiliary.sized.equation_unit _ (hj.le.trans le)]
  congr 1
  funext k
  rw [lift, unit, Pi.single_apply, Pi.single_apply]
  by_cases own : k < s.model.vars.length
  · rw [if_pos own]
  · rw [if_neg own, if_neg (by omega), if_neg hj.ne', ite_self]

end Tableau.Auxiliary

/-- A table of phase one with a basis, in which some rows are spent and have an
artificial column as their basic column. -/
structure Redundancy (s : StandardForm Rat) (u : Tableau Rat) (basic : Nat → Nat)
    (redundant : List Nat) : Prop where
  basis : u.FeasibleBasis s.model.constraints.length s.phaseOneWidth basic fun _ => False
  inside : ∀ d ∈ redundant, 0 < d ∧ d ≤ s.model.constraints.length
  spent : ∀ d ∈ redundant, s.phaseOne.artificials.contains (basic d) = true ∧
    s.phaseOne.Spent u s.phaseOneWidth d

/-- A column that is basic in a row that stays, while an artificial column looks
just like it in all rows that stay. -/
inductive Redundancy.Loose (s : StandardForm Rat) (u : Tableau Rat) (basic : Nat → Nat)
    (redundant : List Nat) (c : Nat) : Prop
  | mk (i a : Nat) (pos : 0 < i) (le : i ≤ s.model.constraints.length) (kept : i ∉ redundant)
    (column : basic i = c) (real : basic i < s.model.vars.length)
    (artificial : s.phaseOne.artificials.contains a = true)
    (alike : ∀ r, 0 < r → r ∉ redundant → u.get r a = if r = i then 1 else 0)
    (cost : u.get 0 a = 0)

namespace Redundancy

/-- A basic column taken off an artificial one, less what the redundant rows see of
the artificial one. -/
def difference (u : Tableau Rat) (basic : Nat → Nat) (redundant : List Nat) (a i : Nat) :
    Nat → Rat :=
  unit a - unit (basic i) - ∑ d ∈ redundant.toFinset, u.get d a • unit (basic d)

variable {m : Model Rat} {s : StandardForm Rat} {raw u : Tableau Rat} {basic : Nat → Nat}
  {redundant : List Nat} (redundancy : Redundancy s u basic redundant)
  (std : m.Standardizes s) (indexed : m.Indexed) (auxiliary : raw.Auxiliary s)
  (same : raw.Equivalent u)

include redundancy

/-- The constraint whose artificial variable is basic in a redundant row. -/
theorem exists_origin :
    ∃ origin : Nat → Nat, ∀ d ∈ redundant,
      (basic d, origin d) ∈ s.phaseOne.artificials.entries := by
  have covers := s.phaseOne_covers
  have total : ∀ d, ∃ i, d ∈ redundant → (basic d, i) ∈ s.phaseOne.artificials.entries := by
    intro d
    by_cases hd : d ∈ redundant
    · obtain ⟨le, lt⟩ := (covers.contains_iff _).1 (redundancy.spent d hd).1
      obtain ⟨i, hi⟩ := covers.key_of_bounds le lt
      exact ⟨i, fun _ => hi⟩
    · exact ⟨0, fun h => absurd h hd⟩
  choose origin listed using total
  exact ⟨origin, listed⟩

/-- Columns of other variables are zero in redundant rows. -/
theorem get_eq_zero {d j : Nat} (hd : d ∈ redundant) (hj : j < s.model.vars.length) :
    u.get d j = 0 := by
  have covers := s.phaseOne_covers
  refine (redundancy.spent d hd).2.1 j (hj.trans_le (Nat.le_add_right _ _)) ?_
  rw [Bool.eq_false_iff, ne_eq, covers.contains_iff]
  omega

include std indexed auxiliary same

/-- The constraint of a redundant row has no surplus: its column and the
artificial one cancel out, but the row sees only one of them. -/
theorem no_surplus {d i j : Nat} (hd : d ∈ redundant)
    (listed : (basic d, i) ∈ s.phaseOne.artificials.entries) :
    (j, i) ∉ s.surpluses.entries := by
  intro surplus
  have lt := (std.surplus_bounds surplus).2
  have wide : s.model.vars.length ≤ s.phaseOneWidth := Nat.le_add_right _ _
  obtain ⟨pos, le⟩ := redundancy.inside d hd
  have column := redundancy.basis.inside d pos le
  have vanishes : raw.Vanishes (unit j + unit (basic d)) := by
    intro k hk
    obtain ⟨k, rfl⟩ := Nat.exists_eq_succ_of_ne_zero hk.ne'
    rw [map_add, auxiliary.sized.equation_unit _ (lt.le.trans wide),
      auxiliary.sized.equation_unit _ column.le, Nat.succ_eq_add_one,
      auxiliary.artificial _ _ listed (k + 1) hk]
    cases hc : s.model.constraints[k]? with
    | none =>
      have outside := List.getElem?_eq_none_iff.1 hc
      have := std.surplus_lt_length surplus
      rw [auxiliary.sized.get_eq_zero (.inl (by omega)), if_neg (by omega), add_zero]
    | some c =>
      rw [auxiliary.get_own std k lt, StandardForm.equation_apply hc,
        std.surplus_unit indexed surplus hc, unit, Pi.single_apply, if_neg lt.ne', mul_zero,
        add_zero]
      by_cases here : k = i
      · rw [if_pos here, if_pos (by omega), neg_add_cancel]
      · rw [if_neg here, if_neg (by omega), add_zero]
  have row := (same.1 _ vanishes).1 d pos
  rw [map_add, redundancy.basis.sized.equation_unit _ (lt.le.trans wide),
    redundancy.basis.sized.equation_unit _ column.le, redundancy.get_eq_zero hd lt, zero_add,
    redundancy.basis.unit d pos le d pos, if_pos rfl] at row
  exact one_ne_zero row

/-- The equation of a redundant row does not see slacks and surpluses. -/
theorem blind {d i : Nat} (hd : d ∈ redundant)
    (listed : (basic d, i) ∈ s.phaseOne.artificials.entries) {v : Nat → Rat}
    (own : ∀ j < m.vars.length, v j = 0) (rhs : v s.model.vars.length = 0) :
    s.equation i v = 0 := by
  have covers := s.phaseOne_covers
  obtain ⟨lt, uncovered⟩ := (covers.row i).1 (IndexMap.mem_values.2 ⟨_, listed⟩)
  have hc := List.getElem?_eq_getElem lt
  rw [StandardForm.equation_apply hc, rhs, mul_zero, add_zero,
    LinearForm.value_eq_sum (std.within _ (List.mem_of_getElem? hc))]
  apply Finset.sum_eq_zero
  intro j hj
  rcases std.column_cases (Finset.mem_range.1 hj) with hown | ⟨k, slack⟩ | ⟨k, surplus⟩
  · rw [own j hown, mul_zero]
  · rw [std.slack_unit indexed slack hc, if_neg, zero_mul]
    rintro rfl
    exact uncovered (IndexMap.mem_values.2 ⟨j, slack⟩)
  · rw [std.surplus_unit indexed surplus hc, if_neg, zero_mul]
    rintro rfl
    exact redundancy.no_surplus std indexed auxiliary same hd listed surplus

omit std indexed auxiliary same

section Alike

variable {i a : Nat} (pos : 0 < i) (le : i ≤ s.model.constraints.length) (kept : i ∉ redundant)
  (real : basic i < s.model.vars.length) (artificial : s.phaseOne.artificials.contains a = true)
  (alike : ∀ r, 0 < r → r ∉ redundant → u.get r a = if r = i then 1 else 0)
  (cost : u.get 0 a = 0)

include real artificial

/-- How any table of phase one sees the difference. -/
theorem equation_difference {t : Tableau Rat}
    (sized : t.Sized s.model.constraints.length s.phaseOneWidth) (r : Nat) :
    t.equation r (difference u basic redundant a i) = t.get r a - t.get r (basic i) -
      ∑ d ∈ redundant.toFinset, u.get d a * t.get r (basic d) := by
  have wide : s.model.vars.length ≤ s.phaseOneWidth := Nat.le_add_right _ _
  have inside := ((s.phaseOne_covers.contains_iff a).1 artificial).2
  rw [difference, map_sub, map_sub, map_sum, sized.equation_unit _ inside.le,
    sized.equation_unit _ (real.le.trans wide)]
  congr 1
  apply Finset.sum_congr rfl
  intro d hd
  obtain ⟨dPos, dLe⟩ := redundancy.inside d (List.mem_toFinset.1 hd)
  rw [map_smul, smul_eq_mul, sized.equation_unit _ (redundancy.basis.inside d dPos dLe).le]

include pos le

include kept alike in
/-- The rows that stay see two columns that look alike, the redundant rows see
what is taken off. -/
theorem vanishes_difference : u.Vanishes (difference u basic redundant a i) := by
  intro r hr
  have spentPart : ∑ d ∈ redundant.toFinset, u.get d a * u.get r (basic d) =
      if r ∈ redundant then u.get r a else 0 := by
    rw [Finset.sum_congr rfl fun d hd => by
      rw [redundancy.basis.unit d (redundancy.inside d (List.mem_toFinset.1 hd)).1
        (redundancy.inside d (List.mem_toFinset.1 hd)).2 r hr, mul_ite, mul_one, mul_zero]]
    rw [Finset.sum_ite_eq]
    simp only [List.mem_toFinset]
  rw [redundancy.equation_difference real artificial redundancy.basis.sized, spentPart,
    redundancy.basis.unit i pos le r hr]
  by_cases hd : r ∈ redundant
  · rw [if_pos hd, if_neg (by rintro rfl; exact kept hd)]
    ring
  · rw [if_neg hd, alike r hr hd]
    ring

include cost in
theorem price_difference : u.equation 0 (difference u basic redundant a i) = 0 := by
  have cleared (r : Nat) (hr : 0 < r) (hrm : r ≤ s.model.constraints.length) :
      u.get 0 (basic r) = 0 := (redundancy.basis.cost r hr hrm).resolve_right id
  rw [redundancy.equation_difference real artificial redundancy.basis.sized, cost,
    cleared i pos le, Finset.sum_eq_zero]
  · ring
  · intro d hd
    obtain ⟨dPos, dLe⟩ := redundancy.inside d (List.mem_toFinset.1 hd)
    rw [cleared d dPos dLe, mul_zero]

include kept alike auxiliary same

include cost in
/-- The costs say how much the redundant rows see of the artificial column. -/
theorem sum_alike : ∑ d ∈ redundant.toFinset, u.get d a = 1 := by
  have covers := s.phaseOne_covers
  have column := (covers.contains_iff a).1 artificial
  have wide : s.model.vars.length ≤ s.phaseOneWidth := Nat.le_add_right _ _
  have vanishes := (same.vanishes_iff _).2
    (redundancy.vanishes_difference pos le kept real artificial alike)
  have price := (same.price vanishes).symm.trans
    (redundancy.price_difference pos le real artificial cost)
  have ones : ∑ d ∈ redundant.toFinset, u.get d a * raw.get 0 (basic d) =
      ∑ d ∈ redundant.toFinset, u.get d a := by
    apply Finset.sum_congr rfl
    intro d hd
    have bounds := (covers.contains_iff _).1 (redundancy.spent d (List.mem_toFinset.1 hd)).1
    rw [auxiliary.get_cost bounds.2.le, if_pos bounds, mul_one]
  rw [redundancy.equation_difference real artificial auxiliary.sized,
    auxiliary.get_cost column.2.le, if_pos column, auxiliary.get_cost (real.le.trans wide),
    if_neg (by omega), ones] at price
  linarith

include std

/-- The equation of a redundant row sees as much of the basic column as the row
does of the artificial one, with the other sign. -/
theorem equation_alike {origin : Nat → Nat}
    (listed : ∀ d ∈ redundant, (basic d, origin d) ∈ s.phaseOne.artificials.entries) {d : Nat}
    (hd : d ∈ redundant) : s.equation (origin d) (unit (basic i)) = -u.get d a := by
  have covers := s.phaseOne_covers
  have basis := redundancy.basis
  have inside {d : Nat} (hd : d ∈ redundant) := redundancy.inside d hd
  obtain ⟨aLe, aLt⟩ := (covers.contains_iff a).1 artificial
  obtain ⟨q, hq⟩ := covers.key_of_bounds aLe aLt
  have row := (same.vanishes_iff _).2
    (redundancy.vanishes_difference pos le kept real artificial alike)
      (origin d + 1) (Nat.succ_pos _)
  have notThere : raw.get (origin d + 1) a = 0 := by
    rw [auxiliary.artificial a q hq _ (Nat.succ_pos _), if_neg]
    intro here
    obtain rfl : origin d = q := Nat.succ_injective here
    obtain rfl := IndexMap.key_unique covers.distinct hq (listed d hd)
    have one := alike i pos kept
    rw [basis.unit d (inside hd).1 (inside hd).2 i pos, if_pos rfl, if_neg] at one
    · exact zero_ne_one one
    · rintro rfl
      exact kept hd
  have own : ∑ d' ∈ redundant.toFinset, u.get d' a * raw.get (origin d + 1) (basic d') =
      u.get d a := by
    rw [Finset.sum_eq_single d]
    · rw [auxiliary.artificial _ _ (listed d hd) _ (Nat.succ_pos _), if_pos rfl, mul_one]
    · intro d' hd' different
      have hd' := List.mem_toFinset.1 hd'
      rw [auxiliary.artificial _ _ (listed d' hd') _ (Nat.succ_pos _), if_neg, mul_zero]
      intro here
      have sameOrigin : origin d = origin d' := Nat.succ_injective here
      have sameColumn : basic d = basic d' :=
        IndexMap.key_unique covers.distinct (listed d hd) (sameOrigin ▸ listed d' hd')
      have unit := basis.unit d' (inside hd').1 (inside hd').2
      rw [← sameColumn] at unit
      exact different (unit.row_eq (basis.unit d (inside hd).1 (inside hd).2) (inside hd').1)
    · intro absent
      exact absurd (List.mem_toFinset.2 hd) absent
  rw [redundancy.equation_difference real artificial auxiliary.sized, notThere, own,
    auxiliary.get_own std _ real] at row
  linarith

end Alike

include std auxiliary same

/-- A loose column weighs minus one in the equations of the redundant rows. -/
theorem sum_loose {origin : Nat → Nat}
    (listed : ∀ d ∈ redundant, (basic d, origin d) ∈ s.phaseOne.artificials.entries) {c : Nat}
    (loose : Loose s u basic redundant c) :
    ∑ d ∈ redundant.toFinset, s.equation (origin d) (unit c) = -1 := by
  obtain ⟨i, a, pos, le, kept, rfl, real, artificial, alike, cost⟩ := loose
  rw [← redundancy.sum_alike auxiliary same pos le kept real artificial alike cost,
    ← Finset.sum_neg_distrib]
  apply Finset.sum_congr rfl
  intro d hd
  exact redundancy.equation_alike std auxiliary same pos le kept real artificial alike listed
    (List.mem_toFinset.1 hd)

theorem not_loose (none : redundant = []) (c : Nat) : ¬ Loose s u basic redundant c := by
  intro loose
  obtain ⟨_, listed⟩ := redundancy.exists_origin
  have sum := redundancy.sum_loose std auxiliary same listed loose
  simp [none] at sum

include indexed

/-- The equations of the redundant rows tell loose columns apart. -/
theorem separates : ∃ ω, Separates m s (Loose s u basic redundant) ω := by
  obtain ⟨origin, listed⟩ := redundancy.exists_origin
  refine ⟨∑ d ∈ redundant.toFinset, s.equation (origin d), fun v solves => ?_,
    fun v own rhs => ?_, fun c loose => ?_⟩
  · rw [LinearMap.sum_apply]
    exact Finset.sum_eq_zero fun d _ => Tableau.solves_iff.1 solves (origin d)
  · rw [LinearMap.sum_apply]
    apply Finset.sum_eq_zero
    intro d hd
    have hd := List.mem_toFinset.1 hd
    exact redundancy.blind std indexed auxiliary same hd (listed d hd) own rhs
  · rw [LinearMap.sum_apply]
    exact redundancy.sum_loose std auxiliary same listed loose

end Redundancy

end LinearProgram
