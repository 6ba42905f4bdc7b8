import Mathlib
import LinearProgram.Proofs.Start

/-!
# Feasible starts and the infeasible verdict

* `StartsFeasible.run`, `StartsFeasible.exists_feasible`: the tables of phase two
  show feasible points of the model;
* `infeasible_iff_no_feasible`: without a tolerance and without rounding, a model
  is called infeasible exactly when it has no feasible point.
-/

namespace LinearProgram

open Tableau (atPoint unit Solves)

section Start

variable {m : Model Rat} {s : StandardForm Rat} {first : Tableau Rat} (std : m.Standardizes s)
  (indexed : m.Indexed)

/-- A run of phase two keeps what its first table has. -/
theorem StartsFeasible.run (starts : StartsFeasible m s first) (limit : Option Nat) (fuel : Nat) :
    ∃ k basic Loose ω,
      (first.run 0 limit fuel).last.FeasibleBasis k s.model.vars.length basic Loose ∧
      (first.run 0 limit fuel).last.Represents m s k ∧ Separates m s Loose ω ∧
      Tableau.Ends 0 k s.model.vars.length (first.run 0 limit fuel) := by
  obtain ⟨k, basic, Loose, ω, basis, represents, separates, _⟩ := starts
  obtain ⟨sized, same, ends⟩ := represents.sized.run le_rfl limit fuel
  obtain ⟨basic', basis'⟩ := basis.run limit fuel
  exact ⟨k, basic', Loose, ω, basis', represents.equivalent sized same, separates, ends⟩

include std indexed

/-- The basic solution of a table of phase two is feasible, whatever its costs. -/
theorem Tableau.FeasibleBasis.feasible {t : Tableau Rat} {k : Nat} {basic : Nat → Nat}
    {Loose : Nat → Prop} (basis : t.FeasibleBasis k s.model.vars.length basic Loose)
    (represents : t.Represents m s k) :
    m.Feasible (pointOf m.vars.length (t.basicPoint k s.model.vars.length basic)) :=
  (represents.feasible std indexed (length_pointOf _ _) (fun _ hj => valuation_pointOf hj _)
    (fun j _ => basis.point_nonneg j) basis.point_vanishes).1

theorem StartsFeasible.exists_feasible (starts : StartsFeasible m s first) :
    ∃ x, m.Feasible x := by
  obtain ⟨k, basic, _, _, basis, represents, _⟩ := starts
  exact ⟨_, basis.feasible std indexed represents⟩

end Start

section Infeasible

variable {m : Model Rat} {limit : Option Nat} {fuel : Nat} {solution : Solution Rat}

/-- The infeasible verdict is exact. -/
theorem infeasible_iff_no_feasible (built : m.Built)
    (solved : (Solver.solve ⟨0, limit⟩ fuel m).outcome = .ok solution) :
    solution.status = .infeasible ↔ ¬ ∃ x, m.Feasible x := by
  obtain ⟨s, _, standard, answers⟩ := Solver.solve_eq_ok solved
  have indexed := built.indexed
  have std := Model.standardForm_standardizes indexed standard
  cases answers with
  | infeasible start => exact ⟨fun _ => starts_spec std indexed start, fun _ => rfl⟩
  | unbounded start _ =>
    have feasible := (starts_spec std indexed start).exists_feasible std indexed
    exact ⟨nofun, fun none => absurd feasible none⟩
  | optimal start _ _ =>
    have feasible := (starts_spec std indexed start).exists_feasible std indexed
    exact ⟨nofun, fun none => absurd feasible none⟩

end Infeasible

/-- Asks two variables to add up to a number between two bounds. -/
def sumBetween (low high : Rat) : Model Rat :=
  ⟨"sum between", [⟨"x", 0⟩, ⟨"y", 1⟩],
    [⟨⟨[⟨0, 1⟩, ⟨1, 1⟩]⟩, .atLeast, low, 0⟩, ⟨⟨[⟨0, 1⟩, ⟨1, 1⟩]⟩, .atMost, high, 1⟩],
    some ⟨⟨[⟨0, 1⟩]⟩, .maximize⟩⟩

/-- Between two and one, one pivot takes the artificial variable from two to one, which is as
little as it can be. Between one and two, phase one brings it to zero. -/
theorem sumBetween_verdicts :
    (∃ solution, (Solver.solve ⟨0, none⟩ 10 (sumBetween 2 1)).outcome = .ok solution ∧
      solution.status = .infeasible ∧ solution.finalTableau.objectiveValue = .ok (-1) ∧
      ¬ ∃ x, (sumBetween 2 1).Feasible x) ∧
    ∃ solution, (Solver.solve ⟨0, none⟩ 10 (sumBetween 1 2)).outcome = .ok solution ∧
      solution.status = .optimal ∧ ∃ x, (sumBetween 1 2).Feasible x := by
  have built (low high : Rat) : (sumBetween low high).Built := Model.built_of_rebuilt rfl
  constructor
  · obtain ⟨solution, solved, read⟩ := exists_ok_of_map
      (f := fun solution => (solution.status, solution.finalTableau.objectiveValue))
      (c := (.infeasible, .ok (-1)))
      (x := (Solver.solve ⟨0, none⟩ 10 (sumBetween 2 1)).outcome) (by decide +kernel)
    injection read with status shown
    exact ⟨solution, solved, status, shown, (infeasible_iff_no_feasible (built 2 1) solved).1 status⟩
  · obtain ⟨solution, solved, status⟩ := exists_ok_of_map (f := Solution.status) (c := .optimal)
      (x := (Solver.solve ⟨0, none⟩ 10 (sumBetween 1 2)).outcome) (by decide +kernel)
    refine ⟨solution, solved, status, ?_⟩
    by_contra none
    have infeasible := (infeasible_iff_no_feasible (built 1 2) solved).2 none
    exact nomatch status.symm.trans infeasible

end LinearProgram
