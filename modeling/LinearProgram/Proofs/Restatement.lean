import Mathlib
import LinearProgram.Proofs.Canonical
import LinearProgram.Proofs.Solver
import LinearProgram.Proofs.StandardForm

/-!
# Writing a model down in another way

How a model is written does not bear on its answer, neither the order of its terms nor
terms that are split up or cancel, nor which of its constraints and whether its
objective are written with opposite signs:

* `reface`, `standardForm_reface`, `phaseOne_reface`: the loops that add variables of the
  solver look at neither the name nor the objective;
* `rename`, `solve_rename`: solving sees a model through its normalised form, and there
  the name is not looked at;
* `Restates`: one constraint, objective or model written like another;
  `Restates.normalized`: both have the same normalised form;
* `solve_restated`: what the answers have in common.
-/

namespace LinearProgram

section Rename

variable {α : Type} [Scalar α]

/-- The model under another name. -/
def Model.rename (m : Model α) (name : String) : Model α := { m with name := name }

def StandardForm.rename (s : StandardForm α) (name : String) : StandardForm α :=
  { s with model := s.model.rename name }

def PhaseOne.rename (p : PhaseOne α) (name : String) : PhaseOne α :=
  { p with model := p.model.rename name }

/-- The model under another name and with another objective, of which nothing is seen where
variables of the solver are added. -/
def Model.reface (m : Model α) (name : String) (objective : Option (Objective α)) : Model α :=
  { m with name := name, objective := objective }

def StandardForm.reface (s : StandardForm α) (name : String) (objective : Option (Objective α)) :
    StandardForm α :=
  { s with model := s.model.reface name objective }

def PhaseOne.reface (p : PhaseOne α) (name : String) (objective : Option (Objective α)) :
    PhaseOne α :=
  { p with model := p.model.reface name objective }

namespace Model

variable {m m' : Model α} {κ : α} {name : String} {objective : Option (Objective α)}

omit [Scalar α] in
theorem equalize_reface (m : Model α) (added : IndexMap) (i : Nat) :
    (m.reface name objective).equalize κ added i =
      (m.equalize κ added i).map fun result => (result.1.reface name objective, result.2) := by
  unfold equalize
  rw [show (m.reface name objective).constraints = m.constraints from rfl]
  split <;> rfl

omit [Scalar α] in
theorem foldlM_equalize_reface (m : Model α) (added : IndexMap) (indices : List Nat) :
    indices.foldlM (fun (x : Model α × IndexMap) i => x.1.equalize κ x.2 i)
        (m.reface name objective, added) =
      (indices.foldlM (fun (x : Model α × IndexMap) i => x.1.equalize κ x.2 i) (m, added)).map
        fun result => (result.1.reface name objective, result.2) := by
  induction indices generalizing m added with
  | nil => rfl
  | cons i indices ih =>
    rw [List.foldlM_cons, List.foldlM_cons]
    exact bind_eq_map (m.equalize_reface added i) fun next _ => ih next.1 next.2

omit [Scalar α] in
theorem equalizeAll_reface (m : Model α) (r : Relation) (κ : α) :
    (m.reface name objective).equalizeAll r κ =
      (m.equalizeAll r κ).map fun result => (result.1.reface name objective, result.2) :=
  m.foldlM_equalize_reface .empty (m.indicesOf r)

/-- The standard form depends on the normalised form. -/
theorem standardForm_reface (same : m'.normalized = m.normalized.reface name objective) :
    m'.standardForm = m.standardForm.map (·.reface name objective) := by
  unfold standardForm
  rw [same]
  exact bind_eq_map (equalizeAll_reface _ _ _) fun first _ =>
    bind_eq_map (equalizeAll_reface _ _ _) fun second _ => rfl

theorem objective_standardForm {s : StandardForm α} (h : m.standardForm = .ok s) :
    s.model.objective = m.normalized.objective := by
  obtain ⟨slackened, slack, -, surplus, -⟩ := standardForm_adjoins h
  rw [surplus.objective, slack.objective]

theorem standardForm_rename (same : m'.normalized = m.normalized.rename name) :
    m'.standardForm = m.standardForm.map (·.rename name) := by
  rw [show m.normalized.rename name = m.normalized.reface name m.normalized.objective from rfl]
    at same
  rw [standardForm_reface same]
  cases standard : m.standardForm with
  | error cause => rfl
  | ok s =>
    rw [← objective_standardForm standard]
    rfl

end Model

theorem StandardForm.phaseOne_reface (s : StandardForm α) (name : String)
    (objective : Option (Objective α)) :
    (s.reface name objective).phaseOne = s.phaseOne.reface name objective := by
  have fold (indices : List Nat) (p : PhaseOne α) : indices.foldl (fun p i =>
      PhaseOne.mk (p.model.attach "R" i 1).1
        (p.artificials.insert (p.model.attach "R" i 1).2 i)) (p.reface name objective) =
      (indices.foldl (fun p i => PhaseOne.mk (p.model.attach "R" i 1).1
        (p.artificials.insert (p.model.attach "R" i 1).2 i)) p).reface name objective := by
    induction indices generalizing p with
    | nil => rfl
    | cons i indices ih =>
      rw [List.foldl_cons, List.foldl_cons, ← ih]
      rfl
  exact fold _ ⟨s.model, .empty⟩

theorem StandardForm.phaseOne_rename (s : StandardForm α) (name : String) :
    (s.rename name).phaseOne = s.phaseOne.rename name := by
  have objective : s.phaseOne.model.objective = s.model.objective := s.phaseOne_adjoins.1.objective
  rw [show s.rename name = s.reface name s.model.objective from rfl, s.phaseOne_reface, ← objective]
  rfl

namespace PhaseOne

/-- Only the artificial variables are looked at. -/
theorem driveOut_congr {p p' : PhaseOne α} (same : p'.artificials = p.artificials) (ε : α)
    (items : List (Option Nat × Nat)) (t : Tableau α) :
    driveOut ε p' items t = driveOut ε p items t := by
  induction items generalizing t with
  | nil => rfl
  | cons e rest ih =>
    unfold driveOut
    simp only [ih, same]

theorem restore_rename (ε : α) (p : PhaseOne α) (s : StandardForm α) (name : String)
    (t : Tableau α) : restore ε (p.rename name) (s.rename name) t = restore ε p s t := by
  unfold restore
  simp only [driveOut_congr (show (p.rename name).artificials = p.artificials from rfl)]
  rfl

end PhaseOne

namespace Solver

variable {m m' : Model α}

theorem start_rename (solver : Solver α) (fuel : Nat) (s : StandardForm α) (name : String) :
    solver.start fuel (s.rename name) = solver.start fuel s := by
  unfold start
  simp only [s.phaseOne_rename, PhaseOne.restore_rename]
  rfl

/-- Models with the same variables and the same normalised form have the same answers. -/
theorem solve_rename (vars : m'.vars = m.vars)
    (objective : m'.objective.isNone = m.objective.isNone)
    (same : m'.normalized = m.normalized.rename m'.name) (solver : Solver α) (fuel : Nat) :
    (solver.solve fuel m').outcome =
      (solver.solve fuel m).outcome.map fun solution => { solution with model := m' } := by
  have valid : m'.validate = m.validate := by rw [Model.validate, Model.validate, vars, objective]
  unfold solve
  rw [valid, Model.standardForm_rename same]
  simp only [Traced.outcome_bind, Traced.outcome_note, outcome_ofModel, outcome_ofTable, bind_ok]
  cases m.validate with
  | error cause => rfl
  | ok _ =>
    cases m.standardForm with
    | error cause => rfl
    | ok s =>
      change ((solver.start fuel (s.rename m'.name)).outcome.bind fun start => _) =
        Except.map _ ((solver.start fuel s).outcome.bind fun start => _)
      rw [start_rename]
      cases (solver.start fuel s).outcome with
      | error e => rfl
      | ok start =>
        cases start with
        | infeasible last => rfl
        | feasible first =>
          simp only [bind_ok, Traced.outcome_bind]
          cases (solver.optimize fuel first).outcome with
          | error e => rfl
          | ok verdict =>
            cases verdict with
            | unbounded last => rfl
            | optimal last =>
              simp only [bind_ok, Traced.outcome_bind, Traced.outcome_note, outcome_ofTable]
              cases last.assignment solver.tolerance with
              | error cause => rfl
              | ok columns => cases last.objectiveValue <;> rfl

end Solver

end Rename

/-- Another constraint is written like this one: with the same total coefficients, or,
unless the bound is zero, with all signs changed. -/
inductive Constraint.Restates (c c' : Constraint Rat) : Prop
  | same (relation : c'.relation = c.relation) (bound : c'.bound = c.bound)
      (totals : ∀ j, c'.form.coefficient j = c.form.coefficient j)
  | negated (nonzero : c.bound ≠ 0) (relation : c'.relation = c.relation.flip)
      (bound : c'.bound = -c.bound) (totals : ∀ j, c'.form.coefficient j = -c.form.coefficient j)

/-- Another objective is written like this one: with the same total coefficients, or in
the opposite sense with all signs changed. -/
inductive Objective.Restates (o o' : Objective Rat) : Prop
  | same (sense : o'.sense = o.sense)
      (totals : ∀ j, o'.form.coefficient j = o.form.coefficient j)
  | negated (sense : o'.sense = o.sense.flip)
      (totals : ∀ j, o'.form.coefficient j = -o.form.coefficient j)

/-- Another model is written like this one, over the same variables. -/
structure Model.Restates (m m' : Model Rat) : Prop where
  vars : m'.vars = m.vars
  constraints : List.Forall₂ Constraint.Restates m.constraints m'.constraints
  objective : Option.Rel Objective.Restates m.objective m'.objective

theorem Constraint.Restates.normalized {c c' : Constraint Rat} (restates : c.Restates c')
    (index : c'.index = c.index) : c'.normalized = c.normalized := by
  obtain ⟨form, relation, bound, i⟩ := c
  obtain ⟨form', relation', bound', i'⟩ := c'
  obtain rfl : i' = i := index
  cases restates with
  | same relation bound totals =>
    simp only at relation bound totals
    subst relation bound
    rw [Constraint.normalized, Constraint.normalized, LinearForm.simplify_eq_iff.2 totals]
  | negated nonzero relation bound totals =>
    simp only at nonzero relation bound totals
    subst relation bound
    -- Exactly one of the bounds is negative, and its constraint is the one that is negated.
    rw [Constraint.normalized, Constraint.normalized, LinearForm.simplify_eq_neg totals]
    rcases lt_or_gt_of_ne nonzero with negative | positive
    · rw [if_neg (by simpa using negative.le), if_pos negative]
      rfl
    · rw [if_pos (by simpa using positive), if_neg (by simpa using positive.le)]
      simp only [Constraint.negate, LinearForm.neg_neg_form, Relation.flip_flip, neg_neg]

/-- The objective as it is maximised. -/
theorem Objective.Restates.maximised {o o' : Objective Rat} (restates : o.Restates o') :
    (if o'.sense = .minimize then Objective.negate { o' with form := o'.form.simplify }
      else { o' with form := o'.form.simplify }) =
      if o.sense = .minimize then Objective.negate { o with form := o.form.simplify }
        else { o with form := o.form.simplify } := by
  obtain ⟨form, sense⟩ := o
  obtain ⟨form', sense'⟩ := o'
  cases restates with
  | same sense totals =>
    simp only at sense totals
    subst sense
    rw [LinearForm.simplify_eq_iff.2 totals]
  | negated sense totals =>
    simp only at sense totals
    subst sense
    rw [LinearForm.simplify_eq_neg totals]
    cases sense <;> simp [Objective.negate, Sense.flip, LinearForm.neg_neg_form]

/-- The value of the other objective is the same, or the opposite in the opposite sense. -/
theorem Objective.Restates.eval {o o' : Objective Rat} (restates : o.Restates o') (x : List Rat) :
    o'.eval x = if o'.sense = o.sense then o.eval x else -o.eval x := by
  rw [Objective.eval, Objective.eval, LinearForm.eval_eq_value, LinearForm.eval_eq_value]
  cases restates with
  | same sense totals => rw [if_pos sense, LinearForm.value_eq_of_coefficient totals]
  | negated sense totals =>
    have different : o'.sense ≠ o.sense := by
      rw [sense]
      cases o.sense <;> decide
    rw [if_neg different, LinearForm.value_eq_neg totals, LinearMap.neg_apply]

namespace Model.Restates

variable {m m' : Model Rat} (restates : m.Restates m')

include restates

theorem normalized (indexed : m.Indexed) (indexed' : m'.Indexed) :
    m'.normalized = m.normalized.rename m'.name := by
  obtain ⟨vars, constraints, objective⟩ := restates
  have sameConstraints : m'.normalized.constraints = m.normalized.constraints := by
    rw [normalized_constraints, normalized_constraints]
    obtain ⟨length, each⟩ := List.forall₂_iff_get.1 constraints
    apply List.ext_getElem
    · rw [List.length_map, List.length_map, length]
    · intro i inside' inside
      rw [List.length_map] at inside inside'
      rw [List.getElem_map, List.getElem_map]
      refine (each i inside inside').normalized ?_
      rw [List.get_eq_getElem, List.get_eq_getElem,
        indexed.index i _ (List.getElem?_eq_getElem inside),
        indexed'.index i _ (List.getElem?_eq_getElem inside')]
  have sameObjective : m'.normalized.objective = m.normalized.objective := by
    unfold Model.normalized Model.simplify
    dsimp only
    generalize m.objective = o at objective
    generalize m'.objective = o' at objective
    cases objective with
    | none => rfl
    | some restates => exact congrArg some restates.maximised
  exact congr (congr (congrArg (Model.mk m'.name) vars) sameConstraints) sameObjective

theorem objective_isNone : m'.objective.isNone = m.objective.isNone := by
  have objective := restates.objective
  generalize m.objective = o at objective
  generalize m'.objective = o' at objective
  cases objective <;> rfl

/-- The objective is written in the same sense or in the opposite one. -/
theorem eval_objective (x : List Rat) : (m'.objective.map fun o => o.eval x) =
    if m'.objective.map Objective.sense = m.objective.map Objective.sense then
      m.objective.map fun o => o.eval x
    else (m.objective.map fun o => o.eval x).map (-·) := by
  have objective := restates.objective
  generalize m.objective = o at objective
  generalize m'.objective = o' at objective
  cases objective with
  | none => rfl
  | some restates =>
    simp only [Option.map_some, restates.eval, Option.some.injEq]
    split <;> rfl

end Model.Restates

/-- An answer is about the model that was solved. -/
theorem Solver.model_of_solve {α : Type} [Scalar α] {solver : Solver α} {fuel : Nat} {m : Model α}
    {solution : Solution α} (solved : (solver.solve fuel m).outcome = .ok solution) :
    solution.model = m := by
  obtain ⟨s, _, _, answers⟩ := solve_eq_ok solved
  cases answers <;> rfl

/-- Two models that are written like each other fail with the same error, or have
answers that differ in nothing but the objective value, which is the opposite if the
objectives are optimised in opposite senses. -/
theorem solve_restated {m m' : Model Rat} (built : m.Built) (built' : m'.Built)
    (restates : m.Restates m') (solver : Solver Rat) (fuel : Nat) :
    (∀ e, (solver.solve fuel m').outcome = .error e ↔ (solver.solve fuel m).outcome = .error e) ∧
    ∀ solution, (solver.solve fuel m).outcome = .ok solution →
      ∃ solution', (solver.solve fuel m').outcome = .ok solution' ∧
        solution'.status = solution.status ∧ solution'.assignment = solution.assignment ∧
        solution'.initialTableau = solution.initialTableau ∧
        solution'.finalTableau = solution.finalTableau ∧
        solution'.objectiveValue =
          if m'.objective.map Objective.sense = m.objective.map Objective.sense then
            solution.objectiveValue
          else solution.objectiveValue.map (-·) := by
  have renamed := Solver.solve_rename restates.vars restates.objective_isNone
    (restates.normalized built.indexed built'.indexed) solver fuel
  refine ⟨fun e => ?_, fun solution solved => ?_⟩
  · rw [renamed]
    cases (solver.solve fuel m).outcome <;> simp [Except.map]
  · obtain rfl := Solver.model_of_solve solved
    have assignment : Solution.assignment { solution with model := m' } = solution.assignment := by
      rw [Solution.assignment, restates.vars]
      rfl
    refine ⟨{ solution with model := m' }, by rw [renamed, solved]; rfl, rfl, assignment, rfl, rfl,
      ?_⟩
    rw [Solution.objectiveValue, Solution.objectiveValue, assignment]
    cases solution.assignment with
    | none => simp
    | some x => exact restates.eval_objective x

/-- Maximises `3x + 2y` under `x + y ≤ 4` and `-x ≤ -1`. -/
def plainRows : Model Rat :=
  ⟨"plain rows", [⟨"x", 0⟩, ⟨"y", 1⟩],
    [⟨⟨[⟨0, 1⟩, ⟨1, 1⟩]⟩, .atMost, 4, 0⟩, ⟨⟨[⟨0, -1⟩]⟩, .atMost, -1, 1⟩],
    some ⟨⟨[⟨0, 3⟩, ⟨1, 2⟩]⟩, .maximize⟩⟩

/-- The same with split and cancelling terms, the second row as `x ≥ 1`, and the
objective as a cost. -/
def twistedRows : Model Rat :=
  ⟨"twisted rows", [⟨"x", 0⟩, ⟨"y", 1⟩],
    [⟨⟨[⟨1, 1⟩, ⟨0, 3⟩, ⟨0, -2⟩]⟩, .atMost, 4, 0⟩,
      ⟨⟨[⟨1, 5⟩, ⟨0, 1⟩, ⟨1, -5⟩]⟩, .atLeast, 1, 1⟩],
    some ⟨⟨[⟨1, -2⟩, ⟨0, -3⟩]⟩, .minimize⟩⟩

theorem plainRows_restates : plainRows.Restates twistedRows where
  vars := rfl
  constraints := by
    refine .cons (.same rfl rfl ?_) (.cons (.negated (by decide) rfl rfl ?_) .nil)
    · rintro (_ | _ | j)
      · decide +kernel
      · decide +kernel
      · rfl
    · rintro (_ | _ | j)
      · decide +kernel
      · decide +kernel
      · rfl
  objective := by
    refine .some (.negated rfl ?_)
    rintro (_ | _ | j)
    · decide +kernel
    · decide +kernel
    · rfl

/-- Both have the optimum `(4, 0)`, worth `12` and `-12`. -/
theorem plainRows_restated : ∃ solution solution',
    (Solver.solve ⟨0, some 3⟩ 4 plainRows).outcome = .ok solution ∧
    (Solver.solve ⟨0, some 3⟩ 4 twistedRows).outcome = .ok solution' ∧
    solution.assignment = some [4, 0] ∧ solution'.assignment = some [4, 0] ∧
    solution'.finalTableau = solution.finalTableau ∧
    solution.objectiveValue = some 12 ∧ solution'.objectiveValue = some (-12) := by
  have built : plainRows.Built := Model.built_of_rebuilt rfl
  have built' : twistedRows.Built := Model.built_of_rebuilt rfl
  obtain ⟨solution, solved, read⟩ := exists_ok_of_map
    (f := fun solution => (solution.assignment, solution.objectiveValue))
    (c := (some [4, 0], some 12))
    (x := (Solver.solve ⟨0, some 3⟩ 4 plainRows).outcome) (by decide +kernel)
  injection read with assigned worth
  obtain ⟨solution', solved', _, same, _, last, value⟩ :=
    (solve_restated built built' plainRows_restates ⟨0, some 3⟩ 4).2 solution solved
  refine ⟨solution, solution', solved, solved', assigned, same.trans assigned, last, worth, ?_⟩
  rw [value, worth]
  rfl

end LinearProgram
