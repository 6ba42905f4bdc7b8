import Mathlib
import LinearProgram.Proofs.Verdicts

/-!
# Points of optimal answers

The point of an optimal answer is read off the columns of the last table. When a
redundant row was dropped before phase two, a row can be left whose basic column
is not recognised, and what that row asks for is not read.

* `Tableau.Settled`: the rows without a recognised column ask for nothing;
* `feasible_readPoint_iff`: the point that is read from a table of phase two is
  feasible exactly when the table is settled;
* `optimal_feasible_iff_settled`: the same for the answers of the solver, with
  `lostRow_infeasible_answer` for a model whose answer is not feasible.
-/

namespace LinearProgram

open LinearForm (valuation)
open Tableau (atPoint unit Solves)

namespace Tableau

/-- Every constraint row has a basic column that is recognised. -/
def HasBasis (t : Tableau Rat) : Prop := ∃ listed, t.basis 0 = .ok listed ∧ none ∉ listed

/-- Rows without a recognised column have right-hand side zero. -/
def Settled (t : Tableau Rat) : Prop :=
  ∃ listed sides, t.basis 0 = .ok listed ∧ t.rightSides = .ok sides ∧
    ∀ i : Nat, listed[i]? = some none → sides[i]? = some 0

/-- The recognised column of a row, counted with the objective row. -/
def recognised (listed : List (Option Nat)) (i : Nat) : Option Nat := (listed[i - 1]?).join

/-- The basic column of a row, where none is recognised. -/
def missed (listed : List (Option Nat)) (basic : Nat → Nat) (i : Nat) : Option Nat :=
  if (recognised listed i).isSome then none else some (basic i)

/-- The values that are read from a table. -/
def readPoint (t : Tableau Rat) (m n : Nat) (listed : List (Option Nat)) : Nat → Rat :=
  combination m (recognised listed) (t.get · n)

/-- What the rows without a recognised column ask for. -/
def leftover (t : Tableau Rat) (m n : Nat) (listed : List (Option Nat)) (basic : Nat → Nat) :
    Nat → Rat :=
  combination m (missed listed basic) (t.get · n)

variable {t : Tableau Rat} {m n : Nat} {basic : Nat → Nat} {Loose : Nat → Prop}
  {listed : List (Option Nat)}

theorem recognised_eq_none (length : listed.length = m) {i : Nat} (hi : i < m) :
    recognised listed (i + 1) = none ↔ listed[i]? = some none := by
  rw [recognised, Nat.add_sub_cancel, List.getElem?_eq_getElem (length.symm ▸ hi), Option.join_some,
    Option.some.injEq]

/-- The columns that are assigned have the values of the point that is read. -/
theorem Sized.take_assignment (sized : t.Sized m n) (read : t.basis 0 = .ok listed)
    (reads : t.ReadsBasis m n listed) {columns : List Rat} (values : t.assignment 0 = .ok columns)
    {own : Nat} (le : own ≤ n) : columns.take own = pointOf own (t.readPoint m n listed) := by
  obtain ⟨columns', assigned, length, value⟩ := sized.assignment read reads
  obtain rfl : columns' = columns := by simpa [assigned] using values
  refine eq_pointOf (by simp [length, le]) fun j hj => ?_
  rw [valuation_take hj, valuation]
  exact value j

theorem settled_iff (sized : t.Sized m n) (read : t.basis 0 = .ok listed)
    (length : listed.length = m) :
    t.Settled ↔ ∀ i < m, recognised listed (i + 1) = none → t.get (i + 1) n = 0 := by
  constructor
  · rintro ⟨listed', sides, read', right, zero⟩ i hi none
    obtain rfl : listed = listed' := by simpa [read] using read'
    rw [sized.rightSides] at right
    injection right with right
    have side := zero i ((recognised_eq_none length hi).1 none)
    rw [← right] at side
    exact (map_range_eq_some.1 side).2
  · intro zero
    refine ⟨listed, _, read, sized.rightSides, fun i none => ?_⟩
    have hi : i < m := length ▸ (List.getElem?_eq_some_iff.1 none).1
    exact map_range_eq_some.2 ⟨hi, zero i hi ((recognised_eq_none length hi).2 none)⟩

namespace ReadsBasis

variable (reads : t.ReadsBasis m n listed)

include reads

theorem unitColumn {i c : Nat} (pos : 0 < i) (found : recognised listed i = some c) :
    c < n ∧ t.UnitColumn i c := by
  obtain ⟨hc, unit, _⟩ := reads.found (i - 1) c (Option.join_eq_some_iff.1 found)
  rw [Nat.sub_add_cancel pos] at unit
  exact ⟨hc, unit⟩

theorem readPoint_rhs : t.readPoint m n listed n = 0 := by
  by_contra nonzero
  obtain ⟨i, _, found⟩ := exists_of_combination_ne_zero nonzero
  exact lt_irrefl n (reads.unitColumn (Nat.succ_pos i) found).1

/-- In a constraint row, the values that are read leave nothing over if the row has
a recognised column, and its right-hand side if not. -/
theorem equation_readPoint (sized : t.Sized m n) {i : Nat} (pos : 0 < i) (le : i ≤ m) :
    t.equation i (atPoint n (t.readPoint m n listed)) =
      if (recognised listed i).isSome then 0 else -t.get i n := by
  have own : t.equation i (t.readPoint m n listed) =
      if (recognised listed i).isSome then t.get i n else 0 :=
    sized.equation_combination_unitIn (fun i c pos _ found =>
      ⟨(reads.unitColumn pos found).1, (reads.unitColumn pos found).2.unitIn⟩) _ pos le
  rw [sized.equation_atPoint_eq i reads.readPoint_rhs, own]
  split
  · exact sub_self _
  · exact zero_sub _

/-- In row 0, all recognised columns have cost zero. -/
theorem price_readPoint (sized : t.Sized m n) :
    t.equation 0 (atPoint n (t.readPoint m n listed)) = -t.get 0 n := by
  have own : t.equation 0 (t.readPoint m n listed) = 0 :=
    sized.price_combination (fun i c pos _ found => reads.unitColumn pos found) _
  rw [sized.equation_atPoint_eq 0 reads.readPoint_rhs, own, zero_sub]

end ReadsBasis

/-- A column is recognised in a row if and only if there is one to recognise. -/
theorem Sized.hasBasis_iff (sized : t.Sized m n) :
    t.HasBasis ↔ ∀ i < m, ∃ c < n, t.UnitColumn (i + 1) c := by
  constructor
  · rintro ⟨listed, read, full⟩ i hi
    obtain ⟨listed', read', reads⟩ := sized.basis
    obtain rfl : listed' = listed := by simpa [read'] using read
    cases column : recognised listed' (i + 1) with
    | none =>
      exact absurd (List.mem_of_getElem? ((recognised_eq_none reads.length hi).1 column)) full
    | some c => exact ⟨c, reads.unitColumn (Nat.succ_pos i) column⟩
  · intro columns
    obtain ⟨listed, read, reads⟩ := sized.basis
    refine ⟨listed, read, fun missing => ?_⟩
    obtain ⟨i, hi⟩ := List.getElem?_of_mem missing
    obtain ⟨c, hc, unit⟩ := columns i (reads.length ▸ (List.getElem?_eq_some_iff.1 hi).1)
    exact reads.missing i hi c hc unit

namespace FeasibleBasis

variable (basis : t.FeasibleBasis m n basic Loose)

include basis

theorem equation_leftover {i : Nat} (pos : 0 < i) (le : i ≤ m) :
    t.equation i (t.leftover m n listed basic) =
      if (recognised listed i).isSome then 0 else t.get i n := by
  have own : t.equation i (t.leftover m n listed basic) =
      if (missed listed basic i).isSome then t.get i n else 0 := by
    apply basis.sized.equation_combination_unitIn _ _ pos le
    intro i c pos le same
    rw [missed] at same
    split at same
    · exact nomatch same
    · obtain rfl := Option.some.inj same
      exact ⟨basis.inside i pos le, basis.unit i pos le⟩
  rw [own, missed]
  split <;> rfl

/-- A basic column is only missed when it is loose. -/
theorem loose_of_missed (reads : t.ReadsBasis m n listed) {i : Nat} (hi : i < m)
    (none : recognised listed (i + 1) = none) : Loose (basic (i + 1)) := by
  refine (basis.cost (i + 1) (Nat.succ_pos i) hi).resolve_left fun cost => ?_
  have entry := (recognised_eq_none reads.length hi).1 none
  exact reads.missing i entry _ (basis.inside (i + 1) (Nat.succ_pos i) hi)
    ((basis.unit (i + 1) (Nat.succ_pos i) hi).unitColumn (Nat.succ_pos i) cost)

/-- Only missed columns are left over. -/
theorem loose_of_leftover_ne_zero (reads : t.ReadsBasis m n listed) {j : Nat}
    (h : t.leftover m n listed basic j ≠ 0) : Loose j := by
  obtain ⟨i, hi, found⟩ := exists_of_combination_ne_zero h
  rw [missed] at found
  split at found
  · exact nomatch found
  · rename_i none
    obtain rfl := Option.some.inj found
    exact basis.loose_of_missed reads hi (by simpa using none)

theorem readPoint_nonneg (listed : List (Option Nat)) (j : Nat) : 0 ≤ t.readPoint m n listed j :=
  combination_nonneg basis.nonneg j

/-- If all basic columns are recognised, none has to be loose. -/
theorem cleared (full : t.HasBasis) : ∃ basic', t.FeasibleBasis m n basic' fun _ => False := by
  refine FeasibleBasis.exists_of_columns basis.sized (fun i hi => ?_)
    fun i hi => basis.nonneg (i + 1) (Nat.succ_pos i) hi
  obtain ⟨c, hc, unit⟩ := basis.sized.hasBasis_iff.1 full i hi
  have cost := unit 0
  rw [if_neg (Nat.succ_ne_zero i).symm] at cost
  exact ⟨c, hc, unit.unitIn, .inl cost⟩

theorem hasBasis (cleared : ∀ c, ¬ Loose c) : t.HasBasis := by
  refine basis.sized.hasBasis_iff.2 fun i hi => ?_
  exact ⟨basic (i + 1), basis.inside (i + 1) (Nat.succ_pos i) hi,
    basis.unitColumn (cleared _) (Nat.succ_pos i) hi⟩

/-- Without loose columns, every row has a recognised column. -/
theorem settled (cleared : ∀ c, ¬ Loose c) : t.Settled := by
  obtain ⟨listed, read, reads⟩ := basis.sized.basis
  refine (settled_iff basis.sized read reads.length).2 fun i hi none => ?_
  exact absurd (basis.loose_of_missed reads hi none) (cleared _)

end FeasibleBasis

end Tableau

section Optimal

variable {m : Model Rat} {s : StandardForm Rat} {t : Tableau Rat} {k : Nat} {basic : Nat → Nat}
  {Loose : Nat → Prop} {ω : (Nat → Rat) →ₗ[Rat] Rat} {listed : List (Option Nat)}

/-- The equations of the redundant rows weigh what the rows without a recognised
column ask for, since all of it stands in loose columns. -/
theorem Separates.leftover (separates : Separates m s Loose ω)
    (basis : t.FeasibleBasis k s.model.vars.length basic Loose)
    (reads : t.ReadsBasis k s.model.vars.length listed) :
    ω (t.leftover k s.model.vars.length listed basic) =
      -∑ i ∈ Finset.range k, if Tableau.recognised listed (i + 1) = none
        then t.get (i + 1) s.model.vars.length else 0 := by
  rw [Tableau.leftover, Tableau.combination_eq_sum, map_sum, ← Finset.sum_neg_distrib]
  apply Finset.sum_congr rfl
  intro i hi
  by_cases none : Tableau.recognised listed (i + 1) = none
  · have loose := basis.loose_of_missed reads (Finset.mem_range.1 hi) none
    simp [Tableau.missed, none, separates.loose _ loose]
  · rw [if_neg none, Tableau.missed, if_pos (Option.isSome_iff_ne_none.2 none), neg_zero]
    exact map_zero ω

variable (std : m.Standardizes s) (indexed : m.Indexed)
  (basis : t.FeasibleBasis k s.model.vars.length basic Loose) (represents : t.Represents m s k)
  (read : t.basis 0 = .ok listed) (reads : t.ReadsBasis k s.model.vars.length listed)

include std indexed basis represents reads

/-- If the values that are read are feasible, their gaps differ from them in slacks
and surpluses only, which the redundant rows do not see. -/
theorem settled_of_feasible_readPoint (separates : Separates m s Loose ω)
    (feasible : m.Feasible
      (pointOf m.vars.length (t.readPoint k s.model.vars.length listed))) {i : Nat} (hi : i < k)
    (none : Tableau.recognised listed (i + 1) = none) :
    t.get (i + 1) s.model.vars.length = 0 := by
  set n := s.model.vars.length with hn
  let y := t.readPoint k n listed
  let gaps := atPoint n (s.extend m (pointOf m.vars.length y))
  have solved : t.Vanishes gaps := (represents.extend_satisfies std indexed feasible).1
  have vanishes : t.Vanishes (gaps - atPoint n y - t.leftover k n listed basic) := by
    intro i pos
    by_cases le : i ≤ k
    · rw [map_sub, map_sub, solved i pos, reads.equation_readPoint basis.sized pos le,
        basis.equation_leftover pos le]
      split <;> ring
    · exact basis.sized.equation_eq_zero (Nat.lt_of_not_le le) _
  have unseen : ω (gaps - atPoint n y) = 0 := by
    apply separates.blind
    · intro j hj
      have ne := (hj.trans_le std.own_le).ne
      rw [Pi.sub_apply, sub_eq_zero]
      simp only [gaps, atPoint]
      rw [Function.update_of_ne ne, Function.update_of_ne ne, s.extend_own _ _ hj,
        valuation_pointOf hj]
    · rw [Pi.sub_apply, sub_eq_zero]
      simp only [gaps, atPoint, ← hn, Function.update_self]
  have total := separates.solves _ ((represents.vanishes _).1 vanishes)
  rw [map_sub, unseen, zero_sub, separates.leftover basis reads, neg_neg,
    Finset.sum_eq_zero_iff_of_nonneg] at total
  · have zero := total i (Finset.mem_range.2 hi)
    rwa [if_pos none] at zero
  · intro i hi
    split
    · exact basis.nonneg (i + 1) (Nat.succ_pos i) (Finset.mem_range.1 hi)
    · exact le_rfl

include read

/-- The values that are read from a table of phase two are feasible exactly when
it is settled. -/
theorem feasible_readPoint_iff (separates : Separates m s Loose ω) :
    m.Feasible (pointOf m.vars.length (t.readPoint k s.model.vars.length listed)) ↔
      t.Settled := by
  rw [Tableau.settled_iff basis.sized read reads.length]
  constructor
  · intro feasible i hi none
    exact settled_of_feasible_readPoint std indexed basis represents reads separates feasible hi
      none
  · intro zero
    refine (represents.feasible std indexed (length_pointOf _ _)
      (fun _ hj => valuation_pointOf hj _)
      (fun j _ => basis.readPoint_nonneg listed j) fun i pos => ?_).1
    by_cases le : i ≤ k
    · rw [reads.equation_readPoint basis.sized pos le]
      split
      · rfl
      · rename_i none
        obtain ⟨i, rfl⟩ := Nat.exists_eq_succ_of_ne_zero pos.ne'
        rw [zero i le (by simpa using none), neg_zero]
    · exact basis.sized.equation_eq_zero (Nat.lt_of_not_le le) _

end Optimal

section Answers

variable {m : Model Rat} {s : StandardForm Rat} {first : Tableau Rat} {limit : Option Nat}
  {fuel : Nat} {solution : Solution Rat}

/-- A start of phase two with a recognised column in every row. -/
theorem StartsFeasible.cleared (starts : StartsFeasible m s first) (full : first.HasBasis) :
    ∃ k basic, first.FeasibleBasis k s.model.vars.length basic fun _ => False := by
  obtain ⟨k, _, _, _, basis, _⟩ := starts
  exact ⟨k, basis.cleared full⟩

/-- If no row was dropped, phase two starts with a recognised column in every row. -/
theorem StartsFeasible.hasBasis (starts : StartsFeasible m s first)
    (whole : first.height = m.constraints.length + 1) : first.HasBasis := by
  obtain ⟨k, basic, Loose, _, basis, _, _, cleared⟩ := starts
  rw [basis.sized.height, Nat.add_right_cancel_iff] at whole
  exact basis.hasBasis (cleared whole)

/-- The point of an optimal answer is never negative. It is feasible exactly when
the last table is settled, and always when phase two started with a recognised
column in every row, for which it is enough that no row was dropped. -/
theorem optimal_feasible_iff_settled (built : m.Built)
    (solved : (Solver.solve ⟨0, limit⟩ fuel m).outcome = .ok solution)
    (optimal : solution.status = .optimal) :
    ∃ x, solution.assignment = some x ∧ (∀ value ∈ x, 0 ≤ value) ∧
      (m.Feasible x ↔ solution.finalTableau.Settled) ∧
      (solution.initialTableau.HasBasis → m.Feasible x) ∧
      (solution.initialTableau.height = m.constraints.length + 1 →
        solution.initialTableau.HasBasis) := by
  obtain ⟨s, _, standard, answers⟩ := Solver.solve_eq_ok solved
  have indexed := built.indexed
  have std := Model.standardForm_standardizes indexed standard
  cases answers with
  | infeasible start => exact nomatch optimal
  | unbounded start run => exact nomatch optimal
  | @optimal first last columns start run values =>
    have starts : StartsFeasible m s first := starts_spec std indexed start
    obtain ⟨k, basic, Loose, ω, basis, represents, separates, _⟩ := starts.run limit fuel
    cases run with
    | optimal ending =>
      obtain ⟨listed, read, reads⟩ := basis.sized.basis
      have point := basis.sized.take_assignment read reads values std.own_le
      refine ⟨pointOf m.vars.length (Tableau.readPoint _ k s.model.vars.length listed),
        congrArg some point, ?_, ?_⟩
      · intro value member
        obtain ⟨j, _, rfl⟩ := List.mem_map.1 member
        exact basis.readPoint_nonneg listed j
      · have settled := feasible_readPoint_iff std indexed basis represents read reads separates
        refine ⟨settled, fun full => settled.2 ?_, starts.hasBasis⟩
        obtain ⟨_, _, cleared⟩ := starts.cleared full
        obtain ⟨_, basis'⟩ := cleared.run limit fuel
        exact basis'.settled fun _ => id

end Answers

/-- Maximises the first of two variables whose sum is one. -/
def singleRow : Model Rat :=
  ⟨"single row", [⟨"x", 0⟩, ⟨"y", 1⟩], [⟨⟨[⟨0, 1⟩, ⟨1, 1⟩]⟩, .equal, 1, 0⟩],
    some ⟨⟨[⟨0, 1⟩]⟩, .maximize⟩⟩

/-- The same with the sum asked for twice. -/
def pairedRows : Model Rat :=
  ⟨"paired rows", [⟨"x", 0⟩, ⟨"y", 1⟩],
    [⟨⟨[⟨0, 1⟩, ⟨1, 1⟩]⟩, .equal, 1, 0⟩, ⟨⟨[⟨0, 1⟩, ⟨1, 1⟩]⟩, .equal, 1, 1⟩],
    some ⟨⟨[⟨0, 1⟩]⟩, .maximize⟩⟩

/-- Maximises `w - 2x` under `x - w = 0`, asked for twice with opposite signs, and
`w ≤ 1`. -/
def lostRow : Model Rat :=
  ⟨"lost row", [⟨"x", 0⟩, ⟨"w", 1⟩],
    [⟨⟨[⟨0, 1⟩, ⟨1, -1⟩]⟩, .equal, 0, 0⟩, ⟨⟨[⟨0, -1⟩, ⟨1, 1⟩]⟩, .equal, 0, 1⟩,
      ⟨⟨[⟨1, 1⟩]⟩, .atMost, 1, 2⟩],
    some ⟨⟨[⟨0, -2⟩, ⟨1, 1⟩]⟩, .maximize⟩⟩

theorem built_lostRow : lostRow.Built := Model.built_of_rebuilt rfl

theorem not_feasible_lostRow : ¬ lostRow.Feasible [0, 1] := by
  intro feasible
  exact absurd (feasible.satisfied _ List.mem_cons_self) (by decide +kernel)

/-- With one row, none is dropped. Of the paired rows one is dropped, and the other one keeps its
column. When a row loses its column, the last table tells that the answer is not feasible. -/
theorem pairedRows_feasible_iff_settled :
    (∃ solution, (Solver.solve ⟨0, none⟩ 10 singleRow).outcome = .ok solution ∧
      solution.status = .optimal ∧ solution.assignment = some [1, 0] ∧
      solution.initialTableau.height = singleRow.constraints.length + 1 ∧
      solution.initialTableau.HasBasis ∧ singleRow.Feasible [1, 0]) ∧
    (∃ solution, (Solver.solve ⟨0, none⟩ 10 pairedRows).outcome = .ok solution ∧
      solution.status = .optimal ∧ solution.assignment = some [1, 0] ∧
      solution.initialTableau.basis 0 = .ok [some 1] ∧ solution.initialTableau.HasBasis ∧
      pairedRows.Feasible [1, 0] ∧ solution.finalTableau.Settled) ∧
    ∃ solution, (Solver.solve ⟨0, none⟩ 10 lostRow).outcome = .ok solution ∧
      solution.status = .optimal ∧ solution.assignment = some [0, 1] ∧
      ¬ lostRow.Feasible [0, 1] ∧ ¬ solution.finalTableau.Settled ∧
      ¬ solution.initialTableau.HasBasis := by
  refine ⟨?_, ?_, ?_⟩
  · have built : singleRow.Built := Model.built_of_rebuilt rfl
    obtain ⟨solution, solved, read⟩ := exists_ok_of_map
      (f := fun solution => (solution.status, solution.assignment, solution.initialTableau.height))
      (c := (.optimal, some [1, 0], 2)) (x := (Solver.solve ⟨0, none⟩ 10 singleRow).outcome)
      (by decide +kernel)
    injection read with status read
    injection read with assigned whole
    obtain ⟨x, assigned', _, _, feasible, basis⟩ := optimal_feasible_iff_settled built solved status
    obtain rfl := Option.some.inj (assigned.symm.trans assigned')
    exact ⟨solution, solved, status, assigned, whole, basis whole, feasible (basis whole)⟩
  · have built : pairedRows.Built := Model.built_of_rebuilt rfl
    obtain ⟨solution, solved, read⟩ := exists_ok_of_map
      (f := fun solution => (solution.status, solution.assignment, solution.initialTableau.basis 0))
      (c := (.optimal, some [1, 0], .ok [some 1]))
      (x := (Solver.solve ⟨0, none⟩ 10 pairedRows).outcome) (by decide +kernel)
    injection read with status read
    injection read with assigned listed
    obtain ⟨x, assigned', _, settled, feasible, _⟩ :=
      optimal_feasible_iff_settled built solved status
    obtain rfl := Option.some.inj (assigned.symm.trans assigned')
    have basis : solution.initialTableau.HasBasis := ⟨_, listed, by simp⟩
    exact ⟨solution, solved, status, assigned, listed, basis, feasible basis,
      settled.1 (feasible basis)⟩
  · obtain ⟨solution, solved, read⟩ := exists_ok_of_map
      (f := fun solution => (solution.status, solution.assignment)) (c := (.optimal, some [0, 1]))
      (x := (Solver.solve ⟨0, none⟩ 10 lostRow).outcome) (by decide +kernel)
    injection read with status assigned
    obtain ⟨x, assigned', _, settled, feasible, _⟩ :=
      optimal_feasible_iff_settled built_lostRow solved status
    obtain rfl := Option.some.inj (assigned.symm.trans assigned')
    exact ⟨solution, solved, status, assigned, not_feasible_lostRow,
      fun zero => not_feasible_lostRow (settled.2 zero),
      fun basis => not_feasible_lostRow (feasible basis)⟩

/-- The cost of `x` is not cleared when phase two starts, so `x` is read as zero
although it equals `w`. -/
theorem lostRow_infeasible_answer : lostRow.Built ∧
    ∃ solution, (Solver.solve ⟨0, none⟩ 10 lostRow).outcome = .ok solution ∧
      solution.status = .optimal ∧ solution.assignment = some [0, 1] ∧
      ¬ lostRow.Feasible [0, 1] := by
  obtain ⟨solution, solved, read⟩ := exists_ok_of_map
    (f := fun solution => (solution.status, solution.assignment)) (c := (.optimal, some [0, 1]))
    (x := (Solver.solve ⟨0, none⟩ 10 lostRow).outcome) (by decide +kernel)
  injection read with status assigned
  exact ⟨built_lostRow, solution, solved, status, assigned, not_feasible_lostRow⟩

end LinearProgram
