import Mathlib
import LinearProgram.Proofs.Totality

/-!
# Answers are certified by their tableaus

What can be told about an answer without looking at any number of the model, over any
scalars:

* `Solution.Consistent`: the parts of an answer that say how it ended agree;
* `Model.inequalities`, `Model.length_standardForm`: one new column for every inequality;
  `StandardForm.length_phaseOne`: and one for every constraint without a slack;
* `Verdict.IsCertificate`: the tests that ended a run hold of its last table;
  `Run.Decides.certified`;
* `Model.PhaseTwoTables`, `Model.PhaseOneTable`: the sizes of the tableaus of an answer and
  where they come from;
* `solve_certified`: all this holds of every answer.
-/

namespace LinearProgram

variable {α : Type}

/-- A solution that has an assignment, one that is not feasible and one that is not bounded
exclude each other, and the status says which it is. -/
def Solution.Consistent (solution : Solution α) : Prop :=
  (solution.hasAssignment, solution.isFeasible, solution.isBounded) =
    match solution.status with
    | .optimal => (true, true, true)
    | .infeasible => (false, false, true)
    | .unbounded => (false, true, false)

/-- The number of inequalities. -/
def Model.inequalities (m : Model α) : Nat := m.constraints.countP fun c => c.relation != .equal

theorem Model.length_indicesOf (m : Model α) (r : Relation) :
    (m.indicesOf r).length = m.constraints.countP fun c => c.relation == r := by
  rw [indicesOf, List.length_map, List.countP_eq_length_filter]

/-- An inequality is an upper or a lower bound. -/
theorem Model.inequalities_eq_add (m : Model α) :
    m.inequalities = (m.indicesOf .atMost).length + (m.indicesOf .atLeast).length := by
  rw [length_indicesOf, length_indicesOf, inequalities]
  induction m.constraints with
  | nil => rfl
  | cons c constraints ih =>
    cases relation : c.relation <;> simp [relation, ih] <;> omega

section Sizes

variable [Scalar α] {m : Model α} {s : StandardForm α}

/-- Normalising turns inequalities around and leaves equations what they are. -/
theorem Model.inequalities_normalized (m : Model α) :
    m.normalized.inequalities = m.inequalities := by
  rw [inequalities, inequalities, normalized_constraints, List.countP_map]
  refine List.countP_congr fun c _ => ?_
  rw [Function.comp_apply, c.normalized_relation, Constraint.unsignedRelation]
  split
  · cases c.relation <;> simp [Relation.flip]
  · rfl

/-- The standard form has one more variable for every inequality. -/
theorem Model.length_standardForm (indexed : m.Indexed) (h : m.standardForm = .ok s) :
    s.model.vars.length = m.vars.length + m.inequalities := by
  obtain ⟨slackened, slack, -, surplus, -⟩ := standardForm_adjoins h
  obtain ⟨slackRows, surplusRows⟩ := standardForm_values indexed h
  have slackCount := congrArg List.length slackRows
  have surplusCount := congrArg List.length surplusRows
  rw [IndexMap.values, List.length_map] at slackCount surplusCount
  rw [surplus.vars, slack.vars, slackCount, surplusCount, Nat.add_assoc, ← inequalities_eq_add,
    inequalities_normalized]
  rfl

theorem Model.length_standardForm_constraints (h : m.standardForm = .ok s) :
    s.model.constraints.length = m.constraints.length := by
  obtain ⟨slackened, slack, -, surplus, -⟩ := standardForm_adjoins h
  rw [surplus.length, slack.length, normalized_constraints, List.length_map]

/-- Phase one has one more variable for every constraint without a slack. -/
theorem StandardForm.length_phaseOne (s : StandardForm α) :
    s.phaseOne.model.vars.length = s.model.vars.length + s.uncovered.length := by
  rw [s.phaseOne_vars, ← s.phaseOne_adjoins.2, IndexMap.values, List.length_map]

end Sizes

section Certificates

variable [Scalar α] {solver : Solver α} {fuel : Nat} {tolerance : α} {m : Model α}
  {s : StandardForm α} {t : Tableau α} {k n : Nat}

/-- The tests that end a run, as its verdict says. -/
def Verdict.IsCertificate (tolerance : α) : Verdict α → Prop
  | .optimal last => last.isOptimal tolerance = .ok true
  | .unbounded last => last.isOptimal tolerance = .ok false ∧
      ∃ c, last.entering = .ok c ∧ last.isUnbounded tolerance c = .ok true

/-- A run from a sized table ends with a table it reaches, of the same size and with a
certificate of the verdict. -/
theorem Run.Decides.certified {limit : Option Nat} {v : Verdict α}
    (decides : (t.run tolerance limit fuel).Decides v) (sized : t.Sized k n) :
    v.table.Sized k n ∧ t.Reaches tolerance v.table ∧ v.IsCertificate tolerance := by
  obtain ⟨reaches, justified⟩ : t.Reaches tolerance (t.run tolerance limit fuel).last ∧
      (t.run tolerance limit fuel).ending.Justified tolerance (t.run tolerance limit fuel).last :=
    Tableau.runFrom_spec tolerance limit 0 fuel t
  have sized' := sized.of_reaches reaches
  rw [decides.table_eq]
  refine ⟨sized', reaches, ?_⟩
  cases decides with
  | optimal ending =>
    rw [ending] at justified
    cases sized'.guarded_of_move justified with
    | optimal nonneg => exact sized'.isOptimal.trans (by rw [decide_eq_true nonneg])
  | @unbounded column ending =>
    rw [ending] at justified
    cases sized'.guarded_of_move justified with
    | unbounded negative least inside free =>
      refine ⟨sized'.isOptimal.trans (by rw [decide_eq_false negative]), column, ?_, ?_⟩
      · exact sized'.entering.trans (by rw [least])
      · exact (sized'.isUnbounded inside.le).trans (by rw [decide_eq_true free])
  | blocked ending =>
    rw [ending] at justified
    exact absurd justified sized'.move_ne_blocked

/-- The first and the last tableau of phase two: pivots lead from one to the other, and they
have one column for every variable, inequality and right-hand side. -/
structure Model.PhaseTwoTables (m : Model α) (tolerance : α) (first last : Tableau α) : Prop where
  width : first.width = m.vars.length + m.inequalities + 1
  width_last : last.width = m.vars.length + m.inequalities + 1
  height : last.height = first.height
  height_pos : 1 ≤ last.height
  height_le : last.height ≤ m.constraints.length + 1
  reached : first.Reaches tolerance last

/-- A tableau that phase one reaches: all rows are there, and one more column for every
constraint without a slack. -/
structure Model.PhaseOneTable (m : Model α) (tolerance : α) (last : Tableau α) : Prop where
  height : last.height = m.constraints.length + 1
  reached : ∃ s first, m.standardForm = .ok s ∧ s.phaseOne.initialTableau tolerance = .ok first ∧
    first.Reaches tolerance last ∧
    last.width = m.vars.length + m.inequalities + 1 + s.uncovered.length

theorem Solver.Starts.phaseTwoTables {first : Tableau α} {v : Verdict α}
    (starts : Starts solver fuel s (.feasible first))
    (run : (first.run solver.tolerance solver.limit fuel).Decides v) (indexed : m.Indexed)
    (standard : m.standardForm = .ok s) :
    m.PhaseTwoTables solver.tolerance first v.table ∧ first.Rectangular ∧ v.table.Rectangular ∧
      v.IsCertificate solver.tolerance := by
  obtain ⟨k, le, sized⟩ := starts.sized
  obtain ⟨sized', reached, certificate⟩ := run.certified sized
  have width := Model.length_standardForm indexed standard
  rw [Model.length_standardForm_constraints standard] at le
  refine ⟨⟨?_, ?_, ?_, ?_, ?_, reached⟩, sized.rectangular, sized'.rectangular, certificate⟩
  · rw [sized.width, width]
  · rw [sized'.width, width]
  · rw [sized'.height, sized.height]
  · simp [sized'.height]
  · simpa [sized'.height] using le

theorem Solver.Starts.phaseOneTable {last : Tableau α}
    (starts : Starts solver fuel s (.infeasible last)) (indexed : m.Indexed)
    (standard : m.standardForm = .ok s) :
    m.PhaseOneTable solver.tolerance last ∧ last.Rectangular := by
  obtain ⟨first, v, table, run, rfl⟩ : ∃ first v,
      s.phaseOne.initialTableau solver.tolerance = .ok first ∧
      (first.run solver.tolerance solver.limit fuel).Decides v ∧ v.table = last := by
    cases starts with
    | unbounded _ table run => exact ⟨_, _, table, run, rfl⟩
    | positive _ table run => exact ⟨_, _, table, run, rfl⟩
  have sized := sized_of_phaseOne table run
  refine ⟨⟨?_, s, first, standard, table, ?_, ?_⟩, sized.rectangular⟩
  · rw [sized.height, Model.length_standardForm_constraints standard]
  · rw [run.table_eq]
    exact Tableau.reaches_run first solver.limit fuel
  · rw [sized.width, s.length_phaseOne, Model.length_standardForm indexed standard]
    omega

/-- Every answer is well formed. It is either an assignment with one value for every variable,
infeasible or unbounded, and the status says which. Its tableaus are rectangular and have the
sizes that the model gives them: the first and the last one of phase two, where the last one
passes the test for the verdict, or twice the same one of phase one. -/
theorem solve_certified (built : m.Built) {solution : Solution α}
    (solved : (solver.solve fuel m).outcome = .ok solution) :
    solution.Consistent ∧ (∀ x, solution.assignment = some x → x.length = m.vars.length) ∧
    solution.initialTableau.Rectangular ∧ solution.finalTableau.Rectangular ∧
    match solution.status with
    | .optimal =>
        m.PhaseTwoTables solver.tolerance solution.initialTableau solution.finalTableau ∧
        solution.finalTableau.isOptimal solver.tolerance = .ok true
    | .unbounded =>
        m.PhaseTwoTables solver.tolerance solution.initialTableau solution.finalTableau ∧
        solution.finalTableau.isOptimal solver.tolerance = .ok false ∧
        ∃ c, solution.finalTableau.entering = .ok c ∧
          solution.finalTableau.isUnbounded solver.tolerance c = .ok true
    | .infeasible => solution.initialTableau = solution.finalTableau ∧
        m.PhaseOneTable solver.tolerance solution.finalTableau := by
  obtain ⟨s, _, standard, answers⟩ := Solver.solve_eq_ok solved
  have indexed := built.indexed
  cases answers with
  | infeasible start =>
    obtain ⟨phase, rectangular⟩ := start.phaseOneTable indexed standard
    exact ⟨rfl, nofun, rectangular, rectangular, rfl, phase⟩
  | unbounded start run =>
    obtain ⟨phase, rectangular, rectangular', certificate⟩ :=
      start.phaseTwoTables run indexed standard
    exact ⟨rfl, nofun, rectangular, rectangular', phase, certificate⟩
  | @optimal _ _ columns start run values =>
    obtain ⟨phase, rectangular, rectangular', certificate⟩ :=
      start.phaseTwoTables run indexed standard
    refine ⟨rfl, fun x assigned => ?_, rectangular, rectangular', phase, certificate⟩
    obtain ⟨k, _, sized⟩ := start.sized
    obtain ⟨columns', values', length⟩ :=
      (run.certified sized).1.exists_assignment solver.tolerance
    obtain rfl : columns' = columns := Except.ok.inj (values'.symm.trans values)
    obtain rfl := Option.some.inj assigned
    rw [List.length_take, length, Model.length_standardForm indexed standard]
    simp [Solution.optimal]

end Certificates

/-- Maximises `x` between two bounds, beside `y = 1`. -/
def rangeBeside (low high : Rat) : Model Rat :=
  ⟨"range", [⟨"x", 0⟩, ⟨"y", 1⟩],
    [⟨⟨[⟨0, 1⟩]⟩, .atMost, high, 0⟩, ⟨⟨[⟨0, 1⟩]⟩, .atLeast, low, 1⟩, ⟨⟨[⟨1, 1⟩]⟩, .equal, 1, 2⟩],
    some ⟨⟨[⟨0, 1⟩]⟩, .maximize⟩⟩

/-- Between two and one, the answer is the last tableau of phase one, with one column for each of
`x`, `y`, the slack, the surplus, the right-hand side and the constraints without a slack. Between
one and two, it has the first and the last tableau of phase two, where nothing can be gained. -/
theorem rangeBeside_certified :
    (∃ solution s, (Solver.solve ⟨0, none⟩ 10 (rangeBeside 2 1)).outcome = .ok solution ∧
      solution.status = .infeasible ∧ solution.Consistent ∧
      solution.initialTableau = solution.finalTableau ∧ solution.finalTableau.height = 4 ∧
      (rangeBeside 2 1).standardForm = .ok s ∧
      solution.finalTableau.width = 5 + s.uncovered.length) ∧
    ∃ solution, (Solver.solve ⟨0, none⟩ 10 (rangeBeside 1 2)).outcome = .ok solution ∧
      solution.status = .optimal ∧ solution.Consistent ∧ solution.assignment = some [2, 1] ∧
      (rangeBeside 1 2).PhaseTwoTables 0 solution.initialTableau solution.finalTableau ∧
      solution.finalTableau.width = 5 ∧ solution.finalTableau.isOptimal 0 = .ok true := by
  have built (low high : Rat) : (rangeBeside low high).Built := Model.built_of_rebuilt rfl
  constructor
  · obtain ⟨solution, solved, status⟩ := exists_ok_of_map (f := Solution.status) (c := .infeasible)
      (x := (Solver.solve ⟨0, none⟩ 10 (rangeBeside 2 1)).outcome) (by decide +kernel)
    obtain ⟨consistent, _, _, _, shape⟩ := solve_certified (built 2 1) solved
    rw [status] at shape
    obtain ⟨same, height, s, _, standard, _, _, width⟩ := shape
    exact ⟨solution, s, solved, status, consistent, same, height, standard, width⟩
  · obtain ⟨solution, solved, read⟩ := exists_ok_of_map
      (f := fun solution => (solution.status, solution.assignment)) (c := (.optimal, some [2, 1]))
      (x := (Solver.solve ⟨0, none⟩ 10 (rangeBeside 1 2)).outcome) (by decide +kernel)
    injection read with status assigned
    obtain ⟨consistent, _, _, _, shape⟩ := solve_certified (built 1 2) solved
    rw [status] at shape
    obtain ⟨tables, optimal⟩ := shape
    exact ⟨solution, solved, status, consistent, assigned, tables, tables.width_last, optimal⟩

end LinearProgram
