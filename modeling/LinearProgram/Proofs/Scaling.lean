import Mathlib
import LinearProgram.Proofs.Restatement
import LinearProgram.Proofs.Tableau.Scaling
import LinearProgram.Proofs.Totality

/-!
# Objectives under a positive factor

Multiplying the objective by a positive factor multiplies row 0 of every table of phase two
and changes nothing else:

* `Model.scaleObjective`, `normalized_scaleObjective`: the normalised form keeps its
  constraints, `objectiveRow_scaled`: row 0 is multiplied;
* `restore_scaled`, `start_scaled`: phase one is the same, and phase two starts with the
  multiplied row 0;
* `solve_scaled`: the answers go in step, stage by stage;
* `scaleObjective_answers`: what this means for an answer.
-/

namespace LinearProgram

def Objective.scale (k : Rat) (o : Objective Rat) : Objective Rat := { o with form := o.form.scale k }

/-- The model with its objective multiplied by a factor. -/
def Model.scaleObjective (k : Rat) (m : Model Rat) : Model Rat :=
  { m with objective := m.objective.map (Objective.scale k) }

def Start.scale (k : Rat) : Start Rat → Start Rat
  | .feasible first => .feasible (first.scaleCosts k)
  | .infeasible last => .infeasible last

/-- The answer to the model with the multiplied objective. Without a feasible point both
tableaus belong to phase one and stay. -/
def Solution.scale (k : Rat) (solution : Solution Rat) : Solution Rat :=
  { solution with
    model := solution.model.scaleObjective k
    initialTableau :=
      if solution.isFeasible then solution.initialTableau.scaleCosts k else solution.initialTableau
    finalTableau :=
      if solution.isFeasible then solution.finalTableau.scaleCosts k else solution.finalTableau }

variable {k : Rat}

theorem Objective.eval_scale (k : Rat) (o : Objective Rat) (x : List Rat) :
    (o.scale k).eval x = k * o.eval x := by
  simp [Objective.eval, Objective.scale, LinearForm.eval_eq_value, LinearForm.value_scale]

theorem Solution.objectiveValue_scale (k : Rat) (solution : Solution Rat) :
    (solution.scale k).objectiveValue = solution.objectiveValue.map (k * ·) := by
  rw [objectiveValue, objectiveValue, show (solution.scale k).assignment = solution.assignment from rfl]
  cases solution.assignment with
  | none => rfl
  | some x => simp [scale, Model.scaleObjective, Function.comp_def, Objective.eval_scale]

theorem Model.normalized_scaleObjective (nonzero : k ≠ 0) (m : Model Rat) :
    (m.scaleObjective k).normalized =
      m.normalized.reface m.name (m.normalized.objective.map (Objective.scale k)) := by
  have objective : (m.scaleObjective k).normalized.objective =
      m.normalized.objective.map (Objective.scale k) := by
    simp only [normalized, simplify, scaleObjective, Option.map_map]
    congr 1
    funext o
    obtain ⟨form, sense⟩ := o
    cases sense <;>
      simp [Objective.scale, Objective.negate, LinearForm.simplify_scale _ nonzero,
        LinearForm.scale_neg]
  exact congrArg (Model.mk m.name m.normalized.vars m.normalized.constraints) objective

theorem LinearForm.coefficients_scale (f : LinearForm Rat) (k : Rat) (width : Nat) :
    (f.scale k).coefficients width = (f.coefficients width).map (k * ·) := by
  refine List.ext_getElem (by simp) fun j inside _ => ?_
  rw [length_coefficients] at inside
  have entry := f.getD_coefficients inside
  have scaled := (f.scale k).getD_coefficients inside
  rw [value_scale, LinearMap.smul_apply, smul_eq_mul, ← entry] at scaled
  simpa [inside] using scaled

namespace StandardForm

variable {s : StandardForm Rat} {name : String}

theorem objectiveRow_scaled (s : StandardForm Rat) (name : String) :
    (s.reface name (s.model.objective.map (Objective.scale k))).objectiveRow =
      s.objectiveRow.map (k * ·) := by
  cases objective : s.model.objective with
  | none => simp [objectiveRow, reface, Model.reface, objective]
  | some o =>
    simp [objectiveRow, reface, Model.reface, objective, Objective.scale, LinearForm.scale_neg,
      LinearForm.coefficients_scale]

/-- The slacks get the table with the multiplied row 0. -/
theorem tableau_scaled (s : StandardForm Rat) (name : String) :
    (s.reface name (s.model.objective.map (Objective.scale k))).tableau =
      s.tableau.map (Tableau.scaleCosts k) := by
  rw [tableau, tableau, objectiveRow_scaled]
  exact Tableau.ofModel_scaleCosts k s.objectiveRow s.model

end StandardForm

/-- The table is restored as before, up to the row that is written into it. -/
theorem PhaseOne.restore_scaled (pos : 0 < k) (p : PhaseOne Rat) (s : StandardForm Rat)
    (name : String) (t : Tableau Rat) :
    (restore 0 (p.reface name (s.model.objective.map (Objective.scale k)))
      (s.reface name (s.model.objective.map (Objective.scale k))) t).outcome =
      (restore 0 p s t).outcome.map (Tableau.scaleCosts k) := by
  have same : (p.reface name (s.model.objective.map (Objective.scale k))).artificials =
      p.artificials := rfl
  unfold restore
  simp only [Traced.outcome_bind, Traced.outcome_ofExcept, driveOut_congr same, same,
    s.objectiveRow_scaled]
  refine bind_eq_map_of_same rfl fun listed _ => bind_eq_map_of_same rfl fun driven _ =>
    bind_eq_map_of_same rfl fun kept _ => bind_eq_map_of_same rfl fun reread _ =>
    bind_eq_map_of_same rfl fun stripped _ => ?_
  exact bind_eq_map (stripped.setObjectiveRow_scaleCosts k _) fun priced _ =>
    priced.canonicalize_scaleCosts pos _

namespace Solver

variable {limit : Option Nat} {fuel : Nat}

theorem optimize_scaled (pos : 0 < k) {t : Tableau Rat} {m n : Nat} (sized : t.Sized m n) :
    (optimize ⟨0, limit⟩ fuel (t.scaleCosts k)).outcome =
      (optimize ⟨0, limit⟩ fuel t).outcome.map (Verdict.scale k) := by
  rw [outcome_optimize, outcome_optimize, Tableau.run, sized.runFrom_scaleCosts pos,
    Run.verdict_scale]
  rfl

theorem start_scaled (pos : 0 < k) (limit : Option Nat) (fuel : Nat) (s : StandardForm Rat)
    (name : String) :
    (start ⟨0, limit⟩ fuel (s.reface name (s.model.objective.map (Objective.scale k)))).outcome =
      (start ⟨0, limit⟩ fuel s).outcome.map (Start.scale k) := by
  unfold start
  rw [show (s.reface name _).needsPhaseOne = s.needsPhaseOne from rfl]
  split
  · simp only [Traced.outcome_bind, Traced.outcome_note, outcome_ofTable, s.phaseOne_reface]
    refine bind_eq_map_of_same rfl fun _ _ => bind_eq_map_of_same rfl fun first _ =>
      bind_eq_map_of_same rfl fun verdict _ => ?_
    cases verdict with
    | unbounded last => rfl
    | optimal last =>
      simp only [Traced.outcome_bind, outcome_ofTable]
      refine bind_eq_map_of_same rfl fun positive _ => ?_
      cases positive with
      | true => rfl
      | false =>
        simp only [Bool.false_eq_true, if_false, Traced.outcome_bind, Traced.outcome_mapError]
        exact bind_eq_map (mapError_eq_map (s.phaseOne.restore_scaled pos s name last))
          fun table _ => rfl
  · simp only [Traced.outcome_bind, outcome_ofTable]
    exact bind_eq_map (mapError_eq_map (s.tableau_scaled name)) fun table _ => rfl

/-- Solving the model with the multiplied objective goes in step with solving the model. -/
theorem solve_scaled (pos : 0 < k) (m : Model Rat) :
    (solve ⟨0, limit⟩ fuel (m.scaleObjective k)).outcome =
      (solve ⟨0, limit⟩ fuel m).outcome.map (Solution.scale k) := by
  have valid : (m.scaleObjective k).validate = m.validate := by
    simp [Model.validate, Model.scaleObjective]
  have standard := Model.standardForm_reface (m.normalized_scaleObjective pos.ne')
  unfold solve
  simp only [Traced.outcome_bind, Traced.outcome_note, outcome_ofModel, outcome_ofTable, valid]
  refine bind_eq_map_of_same rfl fun _ _ => bind_eq_map (mapError_eq_map standard) fun s found => ?_
  refine bind_eq_map_of_same rfl fun _ _ => ?_
  have started := start_scaled pos limit fuel s m.name
  rw [Model.objective_standardForm (mapError_eq_ok.1 found)] at started
  refine bind_eq_map started fun start starts => ?_
  cases start with
  | infeasible last => rfl
  | feasible first =>
    obtain ⟨n, sized⟩ := exists_sized_of_start starts
    simp only [Start.scale, Traced.outcome_bind]
    refine bind_eq_map (optimize_scaled pos sized) fun verdict optimized => ?_
    cases verdict with
    | unbounded last => rfl
    | optimal last =>
      have sized' : last.Sized n s.model.vars.length := by
        have unfaulted : Unfaulted _ (optimize ⟨0, limit⟩ fuel first).outcome :=
          optimize_unfaulted sized
        rw [optimized] at unfaulted
        exact unfaulted
      simp only [Verdict.scale, Traced.outcome_bind, Traced.outcome_note, outcome_ofTable]
      refine bind_eq_map_of_same (by rw [sized'.assignment_scaleCosts pos]) fun columns _ => ?_
      refine bind_eq_map (mapError_eq_map (last.objectiveValue_scaleCosts k)) fun value _ => ?_
      exact bind_eq_map_of_same rfl fun _ _ => rfl

end Solver

/-- Under a positive factor on the objective, solving fails with the same error, or gives an answer
of the same status with the same assignment. The objective value is multiplied by the factor, and
of the tableaus of phase two row 0 alone is multiplied. -/
theorem scaleObjective_answers {k : Rat} (pos : 0 < k) (m : Model Rat) (limit : Option Nat)
    (fuel : Nat) :
    (∀ e, (Solver.solve ⟨0, limit⟩ fuel (m.scaleObjective k)).outcome = .error e ↔
      (Solver.solve ⟨0, limit⟩ fuel m).outcome = .error e) ∧
    ∀ solution, (Solver.solve ⟨0, limit⟩ fuel m).outcome = .ok solution →
      ∃ scaled, (Solver.solve ⟨0, limit⟩ fuel (m.scaleObjective k)).outcome = .ok scaled ∧
        scaled.status = solution.status ∧ scaled.assignment = solution.assignment ∧
        scaled.objectiveValue = solution.objectiveValue.map (k * ·) ∧
        if solution.status = .infeasible then
          scaled.initialTableau = solution.initialTableau ∧
            scaled.finalTableau = solution.finalTableau
        else
          scaled.initialTableau = solution.initialTableau.scaleCosts k ∧
            scaled.finalTableau = solution.finalTableau.scaleCosts k := by
  rw [Solver.solve_scaled pos]
  refine ⟨fun e => ?_, fun solution solved => ?_⟩
  · cases (Solver.solve ⟨0, limit⟩ fuel m).outcome <;> simp [Except.map]
  · refine ⟨solution.scale k, by rw [solved]; rfl, rfl, rfl, solution.objectiveValue_scale k, ?_⟩
    cases feasible : solution.isFeasible <;> cases bounded : solution.isBounded <;>
      simp [Solution.status, Solution.scale, feasible, bounded]

/-- Half the objective has the optimum at the same point, at half the value. -/
theorem plainRows_halved : ∃ solution halved,
    (Solver.solve ⟨0, some 3⟩ 4 plainRows).outcome = .ok solution ∧
    (Solver.solve ⟨0, some 3⟩ 4 (plainRows.scaleObjective (1 / 2))).outcome = .ok halved ∧
    solution.assignment = some [4, 0] ∧ halved.assignment = some [4, 0] ∧
    solution.objectiveValue = some 12 ∧ halved.objectiveValue = some 6 ∧
    halved.finalTableau = solution.finalTableau.scaleCosts (1 / 2) := by
  obtain ⟨solution, solved, read⟩ := exists_ok_of_map
    (f := fun solution => (solution.status, solution.assignment, solution.objectiveValue))
    (c := (.optimal, some [4, 0], some 12))
    (x := (Solver.solve ⟨0, some 3⟩ 4 plainRows).outcome) (by decide +kernel)
  simp only [Prod.mk.injEq] at read
  obtain ⟨optimal, assigned, worth⟩ := read
  obtain ⟨halved, solved', _, same, value, tableaus⟩ :=
    (scaleObjective_answers (k := 1 / 2) (by norm_num) plainRows (some 3) 4).2 solution solved
  rw [optimal, if_neg (by decide)] at tableaus
  refine ⟨solution, halved, solved, solved', assigned, same.trans assigned, worth, ?_, tableaus.2⟩
  rw [value, worth]
  norm_num

end LinearProgram
