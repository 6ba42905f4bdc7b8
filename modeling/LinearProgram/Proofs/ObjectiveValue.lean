import Mathlib
import LinearProgram.Proofs.StartingBasis

/-!
# The value of an optimal answer

Row 0 accumulates the value of the objective over all pivots, while an answer has
its objective evaluated at the point that was read from the last table. The point
may lack a column whose cost was not cleared when phase two started, and then it
need not even be feasible. Both values agree all the same:

* `Tableau.OwnCost`: a column has the cost that the objective gives it;
* `starts_ownCost`, `FeasibleBasis.ownCost_pivot_move`: over the whole of phase two
  the cost of a basic column is cleared or its own;
* `gain_readPoint`: what the point lacks is worth as much in row 0 as in the
  objective, so the point is worth what row 0 shows;
* `objectiveValue_eq`: the same for the answers of the solver;
  `shortRow_objectiveValue` for a model whose answer lacks a column.
-/

namespace LinearProgram

open LinearForm (valuation)
open Tableau (atPoint)

/-- The cost of a column is the one that it has in the objective. -/
def Tableau.OwnCost (t : Tableau Rat) (s : StandardForm Rat) (c : Nat) : Prop :=
  t.get 0 c = s.objectiveRow[c]?.getD 0

namespace Tableau.FeasibleBasis

variable {s : StandardForm Rat} {t u : Tableau Rat} {k n : Nat} {basic : Nat → Nat}
  (basis : t.FeasibleBasis k n basic (t.OwnCost s))

include basis

/-- A pivot clears the cost of the column that enters the basis and keeps those of
the columns that stay. -/
theorem ownCost_pivot_move {e : Exchange Rat} (move : t.move 0 = .ok (.pivot e u)) :
    u.FeasibleBasis k n (Function.update basic e.row e.column) (u.OwnCost s) := by
  obtain ⟨entered, kept⟩ := basis.get_pivot_move move
  refine (basis.pivot_move move).relax fun i pos le => ?_
  by_cases same : i = e.row
  · subst same
    rw [Function.update_self, entered, if_neg pos.ne]
    exact .inl rfl
  · rw [Function.update_of_ne same, OwnCost, kept i pos le same]
    exact basis.cost i pos le

theorem ownCost_reaches (reaches : t.Reaches 0 u) :
    ∃ basic', u.FeasibleBasis k n basic' (u.OwnCost s) :=
  reaches.invariant (P := fun u => ∃ basic, u.FeasibleBasis k n basic (u.OwnCost s))
    (fun _ _ _ ⟨_, basis⟩ move => ⟨_, basis.ownCost_pivot_move move⟩) ⟨basic, basis⟩

end Tableau.FeasibleBasis

/-- A row has a column that was read for it and cleared, or it is shadowed and its own
basic column has kept its cost. -/
theorem Reduction.ownCost_basis {s : StandardForm Rat} {cleared kept priced restored : Tableau Rat}
    {basic : Nat → Nat} {redundant : List Nat} {k : Nat} {old : Nat → Nat}
    {listed : List (Option Nat)} (reduction : Reduction s cleared kept basic redundant k old)
    (read : kept.basis 0 = .ok listed)
    (table : Tableau.Priced kept priced k s.phaseOneWidth s.model.vars.length s.objectiveRow)
    (clear : priced.canonicalize 0 (s.phaseOne.realBasis listed) = .ok restored) :
    ∃ basic', restored.FeasibleBasis k s.model.vars.length basic' (restored.OwnCost s) := by
  refine reduction.exists_basis read table clear fun i hi => ?_
  obtain ⟨c, hc, found, own⟩ | shadowed := reduction.listed_or_shadowed read hi
  · exact ⟨c, hc, own, .inl (reduction.cost_listed read table clear hc found own)⟩
  · obtain ⟨oldPos, oldLe, stays⟩ := reduction.keeps.inside (i + 1) (Nat.succ_pos i) hi
    have hc := reduction.real (old (i + 1)) oldPos oldLe stays
    have own := reduction.basis.unit (i + 1) (Nat.succ_pos i) hi
    exact ⟨_, hc, own, .inr (reduction.cost_shadowed read table clear shadowed hc own)⟩

section Answers

variable {m : Model Rat} {s : StandardForm Rat} {limit : Option Nat} {fuel : Nat}

/-- When phase two starts, the cost of every basic column is cleared or its own. -/
theorem starts_ownCost {first : Tableau Rat} (std : m.Standardizes s) (indexed : m.Indexed)
    (starts : Solver.Starts ⟨0, limit⟩ fuel s (.feasible first)) :
    ∃ k basic, first.FeasibleBasis k s.model.vars.length basic (first.OwnCost s) := by
  cases starts with
  | slack covered table =>
    obtain ⟨basic, basis⟩ := slack_basis std indexed covered table
    exact ⟨_, basic, basis.relax fun i pos le => (basis.cost i pos le).imp id False.elim⟩
  | restored uncovered table run zero restore =>
    obtain ⟨inside, _⟩ := Solver.Accepts.inPhaseOne std indexed (.mk uncovered table run zero)
    obtain ⟨_, basis⟩ := inside.basis
    cases PhaseOne.restore_eq_ok restore with
    | mk read driven dropped reread strip price clear =>
      obtain ⟨_, k, _, reduction, _⟩ := exists_reduction basis zero read driven dropped
      exact ⟨k, reduction.ownCost_basis reread (reduction.priced strip price) clear⟩

/-- The point that is read from a table of phase two gains what row 0 shows. -/
theorem gain_readPoint {t : Tableau Rat} {k : Nat} {basic : Nat → Nat}
    {listed : List (Option Nat)} (std : m.Standardizes s) (indexed : m.Indexed)
    (basis : t.FeasibleBasis k s.model.vars.length basic (t.OwnCost s))
    (represents : t.Represents m s k) (reads : t.ReadsBasis k s.model.vars.length listed) :
    m.gain (t.readPoint k s.model.vars.length listed) = t.get 0 s.model.vars.length := by
  set n := s.model.vars.length
  let point := atPoint n (t.readPoint k n listed)
  let rest := t.leftover k n listed basic
  have vanishes : t.Vanishes (point + rest) := by
    intro i pos
    by_cases le : i ≤ k
    · rw [map_add, reads.equation_readPoint basis.sized pos le,
        basis.equation_leftover pos le]
      split <;> simp
    · exact basis.sized.equation_eq_zero (Nat.lt_of_not_le le) _
  -- Columns that are left over have the costs of the objective.
  have own : t.equation 0 rest =
      ∑ j ∈ Finset.range (n + 1), s.objectiveRow[j]?.getD 0 * rest j := by
    rw [basis.sized.equation_apply]
    apply Finset.sum_congr rfl
    intro j _
    by_cases zero : rest j = 0
    · simp [zero]
    · rw [basis.loose_of_leftover_ne_zero reads zero]
  have price := represents.price _ vanishes
  rw [← std.sum_objectiveRow indexed, map_add, own, reads.price_readPoint basis.sized] at price
  have value := std.sum_objectiveRow indexed point
  rw [std.gain_atPoint indexed] at value
  simp only [Pi.add_apply, mul_add, Finset.sum_add_distrib] at price
  linarith

/-- The objective at the point of an optimal answer is what row 0 of the last table
shows, negated if it was to be minimised. -/
theorem objectiveValue_eq {solution : Solution Rat} (built : m.Built)
    (solved : (Solver.solve ⟨0, limit⟩ fuel m).outcome = .ok solution)
    (optimal : solution.status = .optimal) :
    ∃ o value, m.objective = some o ∧ solution.finalTableau.objectiveValue = .ok value ∧
      solution.objectiveValue = some (if o.sense = .maximize then value else -value) := by
  obtain ⟨s, valid, standard, answers⟩ := Solver.solve_eq_ok solved
  have indexed := built.indexed
  have std := Model.standardForm_standardizes indexed standard
  obtain ⟨o, objective⟩ := Model.objective_of_validate valid
  cases answers with
  | infeasible start => exact nomatch optimal
  | unbounded start run => exact nomatch optimal
  | @optimal first last columns start run values =>
    have starts : StartsFeasible m s first := starts_spec std indexed start
    obtain ⟨k, _, _, _, loose, represents, _⟩ := starts.run limit fuel
    obtain ⟨k', _, own⟩ := starts_ownCost std indexed start
    obtain ⟨basic, basis⟩ := own.ownCost_reaches (Tableau.reaches_run first limit fuel)
    obtain rfl : k' = k := by
      have rows := loose.sized.height
      rw [basis.sized.height] at rows
      exact Nat.succ_injective rows
    cases run with
    | optimal ending =>
      obtain ⟨listed, read, reads⟩ := basis.sized.basis
      have point := basis.sized.take_assignment read reads values std.own_le
      have gain : o.gain (valuation (columns.take m.vars.length)) =
          (first.run 0 limit fuel).last.get 0 s.model.vars.length := by
        rw [← gain_readPoint std indexed basis represents reads, Model.gain, objective, point]
        exact Objective.gain_congr (indexed.objective o objective) fun _ hj =>
          valuation_pointOf hj _
      refine ⟨o, _, objective, basis.sized.objectiveValue, ?_⟩
      rw [← gain, ← Objective.eval_eq_gain]
      simp [Solution.objectiveValue, Solution.assignment, Solution.optimal, objective]

end Answers

/-- Minimises `2x - w` under `x - w = 0`, asked for twice with opposite signs, and
`w ≤ 1`. -/
def shortRow : Model Rat :=
  ⟨"short row", [⟨"x", 0⟩, ⟨"w", 1⟩],
    [⟨⟨[⟨0, 1⟩, ⟨1, -1⟩]⟩, .equal, 0, 0⟩, ⟨⟨[⟨0, -1⟩, ⟨1, 1⟩]⟩, .equal, 0, 1⟩,
      ⟨⟨[⟨1, 1⟩]⟩, .atMost, 1, 2⟩],
    some ⟨⟨[⟨0, 2⟩, ⟨1, -1⟩]⟩, .minimize⟩⟩

/-- The answer lacks `x`, and so does row 0. -/
theorem shortRow_objectiveValue : ∃ solution,
    (Solver.solve ⟨0, none⟩ 10 shortRow).outcome = .ok solution ∧ solution.status = .optimal ∧
    solution.assignment = some [0, 1] ∧ solution.objectiveValue = some (-1) ∧
    solution.finalTableau.objectiveValue = .ok 1 := by
  have built : shortRow.Built := Model.built_of_rebuilt rfl
  obtain ⟨solution, solved, read⟩ := exists_ok_of_map
    (f := fun solution => (solution.status, solution.assignment, solution.objectiveValue))
    (c := (.optimal, some [0, 1], some (-1)))
    (x := (Solver.solve ⟨0, none⟩ 10 shortRow).outcome) (by decide +kernel)
  simp only [Prod.mk.injEq] at read
  obtain ⟨status, assigned, worth⟩ := read
  obtain ⟨o, value, objective, shown, same⟩ := objectiveValue_eq built solved status
  obtain rfl : ⟨⟨[⟨0, 2⟩, ⟨1, -1⟩]⟩, .minimize⟩ = o := Option.some.inj objective
  have value_eq : -1 = -value := Option.some.inj (worth.symm.trans same)
  rw [← neg_injective value_eq] at shown
  exact ⟨solution, solved, status, assigned, worth, shown⟩

end LinearProgram
