import Mathlib
import LinearProgram.Proofs.Start

/-!
# The sum of the artificial variables

Phase one maximises minus the sum of the artificial variables, and row 0 keeps
the account of it over a whole run, whatever columns enter:

* `Balances`: row 0 shows minus the sum of the artificial variables in the values
  that are read from the table, and the test for positive ones finds some exactly
  when this is not zero;
* `InPhaseOne.balances`, `InPhaseOne.balances_le`: all tables of phase one balance,
  and no pivot lowers what row 0 shows;
* `phaseOne_balances`: the same over all pivots from the first table of phase one,
  where an optimisation that comes to an end never finds a column that can grow
  without bound; `floorRow_balances` for a model.
-/

namespace LinearProgram

namespace PhaseOne

/-- Sum of the artificial variables among the values of all columns. -/
def artificialSum (p : PhaseOne Rat) (values : List Rat) : Rat :=
  (p.artificials.keys.map fun v => values[v]?.getD 0).sum

/-- Row 0 shows minus the sum of the artificial variables, which are not negative. -/
structure Balances (p : PhaseOne Rat) (t : Tableau Rat) (value : Rat) : Prop where
  shown : t.objectiveValue = .ok value
  sum : ∃ values, t.assignment 0 = .ok values ∧ value = -p.artificialSum values
  nonpos : value ≤ 0
  positive : ∃ answer, p.artificialsPositive 0 t = .ok answer ∧ (answer = true ↔ value ≠ 0)

end PhaseOne

namespace StandardForm

variable {s : StandardForm Rat} {t u : Tableau Rat}

/-- The artificial variables are the columns behind those of the standard form. -/
theorem artificialSum_eq (s : StandardForm Rat) (values : List Rat) :
    s.phaseOne.artificialSum values =
      ∑ j ∈ Finset.Ico s.model.vars.length s.phaseOneWidth, values[j]?.getD 0 := by
  rw [PhaseOne.artificialSum, s.phaseOne_covers.keys, List.range'_eq_map_range, List.map_map,
    Tableau.sum_range_map, Finset.sum_Ico_eq_sum_range]
  simp [phaseOneWidth]

namespace InPhaseOne

variable (inside : s.InPhaseOne t)

include inside

theorem balances : s.phaseOne.Balances t (t.get 0 s.phaseOneWidth) := by
  obtain ⟨⟨raw, auxiliary, same⟩, _, basis⟩ := inside
  obtain ⟨basic, values, basis, _, assigned, _, value⟩ := basis.reads fun _ => id
  have sum : s.phaseOne.artificialSum values = -t.get 0 s.phaseOneWidth := by
    simp only [artificialSum_eq, value, auxiliary.sum_basicPoint same basis]
  have nonneg : ∀ v ∈ Finset.Ico s.model.vars.length s.phaseOneWidth,
      0 ≤ values[v]?.getD 0 := by
    intro v _
    rw [value]
    exact basis.point_nonneg v
  have total : 0 ≤ s.phaseOne.artificialSum values := by
    rw [artificialSum_eq]
    exact Finset.sum_nonneg nonneg
  obtain ⟨answer, tested⟩ : ∃ answer, s.phaseOne.artificialsPositive 0 t = .ok answer := by
    rw [PhaseOne.artificialsPositive, assigned]
    exact ⟨_, rfl⟩
  constructor
  case shown => exact basis.sized.objectiveValue
  case sum => exact ⟨values, assigned, by rw [sum, neg_neg]⟩
  case nonpos => linarith
  case positive =>
    refine ⟨answer, tested, ?_⟩
    calc answer = true ↔ ∃ v, s.phaseOne.artificials.contains v = true ∧ 0 < values[v]?.getD 0 :=
          PhaseOne.artificialsPositive_iff assigned tested
      _ ↔ 0 < s.phaseOne.artificialSum values := by
          rw [artificialSum_eq, Finset.sum_pos_iff_of_nonneg nonneg]
          simp [s.phaseOne_covers.contains_iff]
      _ ↔ t.get 0 s.phaseOneWidth ≠ 0 := by
          rw [total.lt_iff_ne', sum, neg_ne_zero]

/-- The account after a pivot, which does not lower it. -/
theorem balances_le {e : Exchange Rat} (move : t.move 0 = .ok (.pivot e u)) :
    ∃ value, s.phaseOne.Balances u value ∧ t.get 0 s.phaseOneWidth ≤ value := by
  obtain ⟨_, basis⟩ := inside.basis
  exact ⟨_, (inside.pivot_move move).balances, basis.objective_le move⟩

/-- An optimisation that comes to an end has found an optimum. -/
theorem optimal_of_optimize {limit : Option Nat} {fuel : Nat} {verdict : Verdict Rat}
    (ended : (Solver.optimize ⟨0, limit⟩ fuel t).outcome = .ok verdict) :
    verdict = .optimal (t.run 0 limit fuel).last := by
  have reached := inside.reaches (Tableau.reaches_run t limit fuel)
  obtain ⟨⟨raw, auxiliary, same⟩, _, basis⟩ := reached
  obtain ⟨_, start⟩ := inside.basis
  obtain ⟨_, _, ends⟩ := start.sized.run le_rfl limit fuel
  cases Run.verdict_eq_ok ended with
  | optimal => rfl
  | unbounded ending =>
    obtain ⟨enters, free⟩ := ends.unbounded _ ending
    exact (phaseOne_bounded auxiliary same basis enters free).elim
  | blocked ending => exact absurd ending ends.notBlocked

end InPhaseOne

end StandardForm

/-- Phase one gets a first table. All tables that pivots lead to from there balance,
no pivot lowers what row 0 shows, and an optimisation that comes to an end has found
an optimum. -/
theorem phaseOne_balances {m : Model Rat} {s : StandardForm Rat} (built : m.Built)
    (standard : m.standardForm = .ok s) :
    ∃ first, s.phaseOne.initialTableau 0 = .ok first ∧
      (∀ t, first.Reaches 0 t → ∃ value, s.phaseOne.Balances t value ∧
        ∀ e u, t.move 0 = .ok (.pivot e u) →
          ∃ value', s.phaseOne.Balances u value' ∧ value ≤ value') ∧
      ∀ limit fuel verdict, (Solver.optimize ⟨0, limit⟩ fuel first).outcome = .ok verdict →
        ∃ last, verdict = .optimal last ∧ first.Reaches 0 last := by
  have indexed := built.indexed
  have std := Model.standardForm_standardizes indexed standard
  obtain ⟨first, table, _⟩ := s.exists_initialTableau 0
  have start := StandardForm.inPhaseOne_start std indexed table
  refine ⟨first, table, fun t reaches => ?_, fun limit fuel verdict ended => ?_⟩
  · have inside := start.reaches reaches
    exact ⟨_, inside.balances, fun e u move => inside.balances_le move⟩
  · exact ⟨_, start.optimal_of_optimize ended, Tableau.reaches_run first limit fuel⟩

/-- Minimises a variable that is at least one and, with another one, makes three. -/
def floorRow : Model Rat :=
  ⟨"floor row", [⟨"x", 0⟩, ⟨"y", 1⟩],
    [⟨⟨[⟨0, 1⟩]⟩, .atLeast, 1, 0⟩, ⟨⟨[⟨0, 1⟩, ⟨1, 1⟩]⟩, .equal, 3, 1⟩],
    some ⟨⟨[⟨0, 1⟩]⟩, .minimize⟩⟩

/-- The first table of its phase one. The columns are those of `x` and `y`, of what `x` is more
than one and of the artificial variables. -/
def floorStart : Tableau Rat :=
  ⟨[[-2, -1, 1, 0, 0, -4], [1, 0, -1, 1, 0, 1], [1, 1, 0, 0, 1, 3]]⟩

/-- The table after `x` has entered. -/
def floorStep : Tableau Rat :=
  ⟨[[0, -1, -1, 2, 0, -2], [1, 0, -1, 1, 0, 1], [0, 1, 1, -1, 1, 2]]⟩

/-- The artificial variables make four at first, two after one pivot and nothing in the end. -/
theorem floorRow_balances : floorRow.Built ∧ ∃ s, floorRow.standardForm = .ok s ∧
    s.phaseOne.initialTableau 0 = .ok floorStart ∧ s.phaseOne.Balances floorStart (-4) ∧
    floorStart.move 0 = .ok (.pivot ⟨0, -2, 1⟩ floorStep) ∧ s.phaseOne.Balances floorStep (-2) ∧
    ∃ last, (Solver.optimize ⟨0, none⟩ 10 floorStart).outcome = .ok (.optimal last) ∧
      s.phaseOne.Balances last 0 := by
  have built : floorRow.Built := Model.built_of_rebuilt rfl
  obtain ⟨s, standard, table⟩ := exists_ok_of_map (f := fun s => s.phaseOne.initialTableau 0)
    (c := .ok floorStart) (x := floorRow.standardForm) (by decide +kernel)
  have move : floorStart.move 0 = .ok (.pivot ⟨0, -2, 1⟩ floorStep) := by decide +kernel
  have shown : (floorStart.run 0 none 10).last.objectiveValue = .ok 0 := by decide +kernel
  have ended : (Solver.optimize ⟨0, none⟩ 10 floorStart).outcome =
      .ok (.optimal (floorStart.run 0 none 10).last) := by
    have ending : (floorStart.run 0 none 10).ending = .optimal := by decide +kernel
    rw [Solver.outcome_optimize, Run.verdict, ending]
  obtain ⟨first, table', reached, optimal⟩ := phaseOne_balances built standard
  obtain rfl : floorStart = first := Except.ok.inj (table.symm.trans table')
  obtain ⟨start, startBalances, _⟩ := reached floorStart (.refl _)
  obtain rfl : start = -4 := Except.ok.inj startBalances.shown.symm
  obtain ⟨next, nextBalances, _⟩ := reached floorStep (.step move (.refl _))
  obtain rfl : next = -2 := Except.ok.inj nextBalances.shown.symm
  obtain ⟨last, same, reaches⟩ := optimal _ _ _ ended
  obtain rfl := Verdict.optimal.inj same
  obtain ⟨final, finalBalances, _⟩ := reached _ reaches
  obtain rfl : final = 0 := Except.ok.inj (finalBalances.shown.symm.trans shown)
  exact ⟨built, s, standard, table, startBalances, move, nextBalances, _, ended, finalBalances⟩

end LinearProgram
