import Mathlib
import LinearProgram.Proofs.Optimality
import LinearProgram.Proofs.Polyhedron

/-!
# Unbounded answers

An unbounded answer is read off one column of the last table. Its reduced cost
only tells how the objective changes along that column when the costs of the
basic columns are cleared.

* `Tableau.HasImprovingRay`: a direction without negative entries that keeps the
  constraint rows and lowers row 0;
* `Tableau.FeasibleBasis.exists_beyond`: along such a direction row 0 falls without bound;
* `Tableau.Represents.exists_beyond`, `Tableau.Represents.bounded`: a table of
  phase two with an improving ray has feasible points of any gain, one without
  bounds them all;
* `unbounded_iff_hasImprovingRay`: the same for the answers of the solver, with
  `lostRay_bounded` for a bounded model that is called unbounded.
-/

namespace LinearProgram

open LinearForm (valuation)
open Tableau (atPoint)

namespace Objective

/-- Beating every bound in the objective's own sense is having any gain. -/
theorem forall_beats_iff {m : Model Rat} {o : Objective Rat} (objective : m.objective = some o) :
    (∀ bound, ∃ x, m.Feasible x ∧ o.Beats x bound) ↔
      ∀ bound, ∃ x, m.Feasible x ∧ bound < m.gain (valuation x) := by
  have gain (x : List Rat) : m.gain (valuation x) = o.gain (valuation x) := by
    rw [Model.gain, objective]
    rfl
  simp only [gain, Beats, Objective.gain, LinearForm.eval_eq_value, Objective.eval]
  cases o.sense with
  | maximize => exact Iff.rfl
  | minimize =>
    constructor
    · intro beats bound
      obtain ⟨x, feasible, less⟩ := beats (-bound)
      exact ⟨x, feasible, lt_neg_of_lt_neg less⟩
    · intro gains bound
      obtain ⟨x, feasible, more⟩ := gains (-bound)
      exact ⟨x, feasible, neg_lt_neg_iff.1 more⟩

end Objective

namespace Tableau

/-- A direction that keeps the constraint rows, with a gain. -/
structure IsImprovingRay (t : Tableau Rat) (d : Nat → Rat) : Prop where
  nonneg : ∀ j, 0 ≤ d j
  keeps : ∀ i, 0 < i → t.leftSide i d = 0
  improves : t.leftSide 0 d < 0

def HasImprovingRay (t : Tableau Rat) : Prop := ∃ d, t.IsImprovingRay d

variable {t : Tableau Rat} {m n : Nat}

/-- Entries outside the columns of the table do not matter. -/
theorem HasImprovingRay.inside (sized : t.Sized m n) (ray : t.HasImprovingRay) :
    ∃ d, (∀ j, 0 ≤ d j) ∧ d n = 0 ∧ t.Vanishes d ∧ t.equation 0 d < 0 := by
  obtain ⟨d, nonneg, keeps, improves⟩ := ray
  have outside : Function.update d n 0 n = 0 := Function.update_self _ _ _
  have same (i : Nat) : t.equation i (Function.update d n 0) = t.leftSide i d := by
    rw [sized.equation_eq_leftSide i outside]
    exact sized.leftSide_congr i fun j hj => Function.update_of_ne hj.ne _ _
  refine ⟨Function.update d n 0, fun j => ?_, outside, fun i pos => ?_, ?_⟩
  · by_cases h : j = n
    · rw [h, outside]
    · rw [Function.update_of_ne h]
      exact nonneg j
  · rw [same, keeps i pos]
  · rw [same]
    exact improves

theorem HasImprovingRay.of_vanishes (sized : t.Sized m n) {d : Nat → Rat} (nonneg : ∀ j, 0 ≤ d j)
    (outside : d n = 0) (vanishes : t.Vanishes d) (improves : t.equation 0 d < 0) :
    t.HasImprovingRay := by
  refine ⟨d, nonneg, fun i pos => ?_, ?_⟩
  · rw [← sized.equation_eq_leftSide i outside]
    exact vanishes i pos
  · rwa [← sized.equation_eq_leftSide 0 outside]

/-- A column without positive entries and with a negative cost shows a ray. -/
theorem FeasibleBasis.hasImprovingRay {basic : Nat → Nat}
    (basis : t.FeasibleBasis m n basic fun _ => False) {c : Nat} (hc : c < n)
    (cost : t.get 0 c < 0) (free : ∀ i < m, t.get (i + 1) c ≤ 0) : t.HasImprovingRay := by
  apply HasImprovingRay.of_vanishes basis.sized (d := t.ray m basic c) (ray_nonneg free)
    (basis.ray_outside hc le_rfl) (basis.ray_vanishes hc)
  rw [basis.ray_price hc fun _ => id]
  exact cost

theorem atPoint_add_smul {y d : Nat → Rat} (h : d n = 0) (a : Rat) :
    atPoint n (y + a • d) = atPoint n y + a • d := by
  funext j
  by_cases same : j = n
  · simp [atPoint, same, h]
  · simp [atPoint, Function.update_of_ne same]

/-- From the basic solution, an improving ray leads to solutions of any price. -/
theorem FeasibleBasis.exists_beyond {basic : Nat → Nat} {Loose : Nat → Prop}
    (basis : t.FeasibleBasis m n basic Loose) (ray : t.HasImprovingRay) (bound : Rat) :
    ∃ z : Nat → Rat, (∀ j, 0 ≤ z j) ∧ t.Vanishes (atPoint n z) ∧
      bound < -t.equation 0 (atPoint n z) := by
  obtain ⟨d, nonneg, outside, vanishes, improves⟩ := ray.inside basis.sized
  let y := t.basicPoint m n basic
  let start := -t.equation 0 (atPoint n y)
  let slope := -t.equation 0 d
  let a := max 0 ((bound - start) / slope + 1)
  have rises : 0 < slope := neg_pos.2 improves
  refine ⟨y + a • d, fun j => ?_, fun i pos => ?_, ?_⟩
  · exact add_nonneg (basis.point_nonneg j) (mul_nonneg (le_max_left _ _) (nonneg j))
  · rw [atPoint_add_smul outside, map_add, map_smul, basis.point_vanishes i pos, vanishes i pos,
      smul_zero, add_zero]
  · have far : (bound - start) / slope < a := (lt_add_one _).trans_le (le_max_right _ _)
    have price : -t.equation 0 (atPoint n (y + a • d)) = start + a * slope := by
      rw [atPoint_add_smul outside, map_add, map_smul, smul_eq_mul]
      ring
    rw [div_lt_iff₀ rises] at far
    rw [price]
    linarith

/-- The vectors that keep the constraint rows and do not use the right-hand column. -/
def directions (t : Tableau Rat) (n : Nat) : Submodule Rat (Nat → Rat) where
  carrier := {v | v n = 0 ∧ t.Vanishes v}
  add_mem' := by
    rintro v w ⟨hv, keepsV⟩ ⟨hw, keepsW⟩
    refine ⟨by rw [Pi.add_apply, hv, hw, add_zero], fun i pos => ?_⟩
    rw [map_add, keepsV i pos, keepsW i pos, add_zero]
  zero_mem' := ⟨rfl, fun i _ => map_zero _⟩
  smul_mem' := by
    rintro a v ⟨hv, keeps⟩
    refine ⟨by rw [Pi.smul_apply, hv, smul_zero], fun i pos => ?_⟩
    rw [map_smul, keeps i pos, smul_zero]

theorem atPoint_sub_atPoint {y z : Nat → Rat} (hy : y n = 0) (hz : z n = 0) :
    atPoint n z - atPoint n y = z - y := by
  funext j
  by_cases same : j = n
  · simp [atPoint, same, hy, hz]
  · simp [atPoint, Function.update_of_ne same]

namespace Represents

variable {m : Model Rat} {s : StandardForm Rat} {k : Nat} {basic : Nat → Nat} {Loose : Nat → Prop}
  (represents : t.Represents m s k) (std : m.Standardizes s) (indexed : m.Indexed)
  (basis : t.FeasibleBasis k s.model.vars.length basic Loose)

include represents std indexed basis

/-- An improving ray leads to feasible points of any gain. -/
theorem exists_beyond (ray : t.HasImprovingRay) (bound : Rat) :
    ∃ x, m.Feasible x ∧ bound < m.gain (valuation x) := by
  obtain ⟨z, nonneg, satisfied, more⟩ := basis.exists_beyond ray bound
  obtain ⟨feasible, gain⟩ := represents.feasible std indexed (length_pointOf _ z)
    (fun _ hj => valuation_pointOf hj _) (fun j _ => nonneg j) satisfied
  exact ⟨_, feasible, by rwa [gain]⟩

/-- Without an improving ray, the gains of feasible points are bounded. -/
theorem bounded (none : ¬ t.HasImprovingRay) :
    ∃ bound, ∀ x, m.Feasible x → m.gain (valuation x) ≤ bound := by
  set n := s.model.vars.length with hn
  let y := t.basicPoint k n basic
  have hy : y n = 0 := basis.weights_outside _ le_rfl
  have noRay : ∀ d ∈ t.directions n, (∀ j, 0 ≤ d j) → (-t.equation 0) d ≤ 0 := by
    intro d ⟨outside, vanishes⟩ nonneg
    rw [LinearMap.neg_apply, neg_nonpos]
    by_contra improves
    exact none (.of_vanishes basis.sized nonneg outside vanishes (not_le.1 improves))
  obtain ⟨bound, bounds⟩ := bounded_of_no_ray noRay n y
  refine ⟨bound + t.get 0 n, fun x feasible => ?_⟩
  obtain ⟨vanishes, price⟩ := represents.extend_satisfies std indexed feasible
  have outside : s.extend m x n = 0 := std.extend_outside x le_rfl
  have direction : s.extend m x - y ∈ t.directions n := by
    refine ⟨by rw [Pi.sub_apply, outside, hy, sub_zero], fun i pos => ?_⟩
    rw [← atPoint_sub_atPoint hy outside, map_sub, vanishes i pos, basis.point_vanishes i pos,
      sub_zero]
  have small := bounds (s.extend m x) (s.extend_nonneg feasible)
    (fun j hj => std.extend_outside x hj) direction
  rw [basis.sized.equation_atPoint_eq 0 outside] at price
  rw [LinearMap.neg_apply] at small
  linarith

end Represents

end Tableau

section Answers

variable {m : Model Rat} {limit : Option Nat} {fuel : Nat} {solution : Solution Rat}

/-- A model that is called unbounded has a feasible point. It is unbounded exactly
when the last table has an improving ray, and always when phase two started with a
recognised column in every row, for which it is enough that no row was dropped. -/
theorem unbounded_iff_hasImprovingRay (built : m.Built)
    (solved : (Solver.solve ⟨0, limit⟩ fuel m).outcome = .ok solution)
    (unbounded : solution.status = .unbounded) :
    (∃ x, m.Feasible x) ∧ ∃ o, m.objective = some o ∧
      ((∀ bound, ∃ x, m.Feasible x ∧ o.Beats x bound) ↔
        solution.finalTableau.HasImprovingRay) ∧
      (solution.initialTableau.HasBasis → ∀ bound, ∃ x, m.Feasible x ∧ o.Beats x bound) ∧
      (solution.initialTableau.height = m.constraints.length + 1 →
        solution.initialTableau.HasBasis) := by
  obtain ⟨s, valid, standard, answers⟩ := Solver.solve_eq_ok solved
  have indexed := built.indexed
  have std := Model.standardForm_standardizes indexed standard
  obtain ⟨o, objective⟩ := Model.objective_of_validate valid
  cases answers with
  | infeasible start => exact nomatch unbounded
  | optimal start run values => exact nomatch unbounded
  | @unbounded first last start run =>
    have starts : StartsFeasible m s first := starts_spec std indexed start
    obtain ⟨k, basic, Loose, ω, basis, represents, _, ends⟩ := starts.run limit fuel
    refine ⟨starts.exists_feasible std indexed, o, objective, ?_⟩
    rw [Objective.forall_beats_iff objective]
    cases run with
    | blocked ending => exact absurd ending ends.notBlocked
    | @unbounded c ending =>
      have beyond := represents.exists_beyond std indexed basis
      refine ⟨⟨fun gains => ?_, beyond⟩, fun full => beyond ?_, starts.hasBasis⟩
      · by_contra none
        obtain ⟨bound, bounds⟩ := represents.bounded std indexed basis none
        obtain ⟨x, feasible, more⟩ := gains bound
        exact absurd (bounds x feasible) (not_le.2 more)
      · obtain ⟨k', basic', start'⟩ := starts.cleared full
        obtain ⟨_, _, ends'⟩ := start'.sized.run le_rfl limit fuel
        obtain ⟨_, basis'⟩ := start'.run limit fuel
        obtain ⟨enters, free⟩ := ends'.unbounded c ending
        exact basis'.hasImprovingRay enters.lt (by simpa using enters.cost) free

end Answers

/-- Maximises a variable that is only asked to be at least one. -/
def openRay : Model Rat :=
  ⟨"open ray", [⟨"x", 0⟩], [⟨⟨[⟨0, 1⟩]⟩, .atLeast, 1, 0⟩], some ⟨⟨[⟨0, 1⟩]⟩, .maximize⟩⟩

/-- Maximises `w - 2x` under `x - w = 0`, asked for twice with opposite signs. -/
def lostRay : Model Rat :=
  ⟨"lost ray", [⟨"x", 0⟩, ⟨"w", 1⟩],
    [⟨⟨[⟨0, 1⟩, ⟨1, -1⟩]⟩, .equal, 0, 0⟩, ⟨⟨[⟨0, -1⟩, ⟨1, 1⟩]⟩, .equal, 0, 1⟩],
    some ⟨⟨[⟨0, -2⟩, ⟨1, 1⟩]⟩, .maximize⟩⟩

theorem built_lostRay : lostRay.Built := Model.built_of_rebuilt rfl

theorem lostRay_not_beats {o : Objective Rat} (objective : lostRay.objective = some o) {x : List Rat}
    (feasible : lostRay.Feasible x) : ¬ o.Beats x 0 := by
  intro beats
  obtain rfl := Option.some.inj objective
  have equal := Constraint.isSatisfied_zero_iff.1 (feasible.satisfied _ List.mem_cons_self)
  have same : valuation x 0 + -valuation x 1 = 0 := by
    simpa [Constraint.Holds, LinearForm.value, LinearForm.total_cons_apply] using equal
  have more : 0 < -2 * valuation x 0 + valuation x 1 := by
    simpa [Objective.Beats, Objective.eval, LinearForm.eval_eq_value, LinearForm.value,
      LinearForm.total_cons_apply] using beats
  linarith [feasible.valuation_nonneg 0]

/-- The open ray starts phase two with all its rows and so has an improving ray in the last table.
When a row has lost its column there may be none, and then the model is bounded. -/
theorem openRay_unbounded :
    (∃ solution o, (Solver.solve ⟨0, none⟩ 10 openRay).outcome = .ok solution ∧
      solution.status = .unbounded ∧ openRay.objective = some o ∧
      solution.initialTableau.height = openRay.constraints.length + 1 ∧
      solution.initialTableau.HasBasis ∧ (∀ bound, ∃ x, openRay.Feasible x ∧ o.Beats x bound) ∧
      solution.finalTableau.HasImprovingRay) ∧
    ∃ solution, (Solver.solve ⟨0, none⟩ 10 lostRay).outcome = .ok solution ∧
      solution.status = .unbounded ∧ (∃ x, lostRay.Feasible x) ∧
      ¬ solution.finalTableau.HasImprovingRay ∧ ¬ solution.initialTableau.HasBasis := by
  constructor
  · have built : openRay.Built := Model.built_of_rebuilt rfl
    obtain ⟨solution, solved, read⟩ := exists_ok_of_map
      (f := fun solution => (solution.status, solution.initialTableau.height))
      (c := (.unbounded, 2)) (x := (Solver.solve ⟨0, none⟩ 10 openRay).outcome) (by decide +kernel)
    injection read with status whole
    obtain ⟨_, o, objective, rays, gains, basis⟩ := unbounded_iff_hasImprovingRay built solved status
    exact ⟨solution, o, solved, status, objective, whole, basis whole, gains (basis whole),
      rays.1 (gains (basis whole))⟩
  · obtain ⟨solution, solved, status⟩ := exists_ok_of_map (f := Solution.status)
      (c := .unbounded) (x := (Solver.solve ⟨0, none⟩ 10 lostRay).outcome) (by decide +kernel)
    obtain ⟨feasible, o, objective, rays, gains, _⟩ :=
      unbounded_iff_hasImprovingRay built_lostRay solved status
    have bounded : ¬ ∀ bound, ∃ x, lostRay.Feasible x ∧ o.Beats x bound := by
      intro beaten
      obtain ⟨x, inside, beats⟩ := beaten 0
      exact lostRay_not_beats objective inside beats
    exact ⟨solution, solved, status, feasible, fun ray => bounded (rays.2 ray),
      fun basis => bounded (gains basis)⟩

/-- The cost of `x` is not cleared when phase two starts, so the reduced cost of `w`
leaves out that `x` grows with it. -/
theorem lostRay_bounded : lostRay.Built ∧
    (∃ solution, (Solver.solve ⟨0, none⟩ 10 lostRay).outcome = .ok solution ∧
      solution.status = .unbounded) ∧
    ∃ o, lostRay.objective = some o ∧ ∀ x, lostRay.Feasible x → ¬ o.Beats x 0 := by
  obtain ⟨solution, solved, status⟩ := exists_ok_of_map (f := Solution.status)
    (c := .unbounded) (x := (Solver.solve ⟨0, none⟩ 10 lostRay).outcome) (by decide +kernel)
  exact ⟨built_lostRay, ⟨solution, solved, status⟩, _, rfl, fun _ => lostRay_not_beats rfl⟩

end LinearProgram
