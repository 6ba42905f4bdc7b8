import Mathlib
import LinearProgram.Proofs.Projection
import LinearProgram.Proofs.Start

/-!
# The first tableau

Whether phase one is needed or not, the solver starts from a table that is solved for the
slacks and, in the rows without one, for the artificial variables. The basis is read off the
columns, and columns of the model's own variables may pass for unit columns as well.

* `OnStartBasis.basis_eq_ok`: the basis that is read consists of the columns that were put
  there, as no column behind them is recognised in the same row;
* `exists_taken`, `ShowsArtificials`: row 0 of phase one is minus the sum of the rows that have
  an artificial variable, as taking one of them off does not disturb the others;
* `firstTableau_canonical`: all of it for every model; `ownUnits_canonical` for a model whose
  own columns are unit columns.
-/

namespace LinearProgram

namespace StandardForm

variable {m : Model Rat} {s : StandardForm Rat} {t : Tableau Rat} {ε : Rat}

/-- The columns that are recognised under the tolerance are those that start in the basis.
Surplus columns come behind the slacks, but have a minus one. -/
theorem OnStartBasis.basis_eq_ok (start : s.OnStartBasis t) (std : m.Standardizes s)
    (indexed : m.Indexed) (nonneg : 0 ≤ ε) (small : ε < 1) : ∃ columns : List Nat,
      t.basis ε = .ok (columns.map some) ∧ columns.length = s.model.constraints.length ∧
        ∀ i u, columns[i]? = some u ↔ s.StartColumn i u := by
  have sized := start.carries.sized
  have recognised {i u : Nat} (column : s.StartColumn i u) : Tableau.unitRow ε
      ((List.range (s.model.constraints.length + 1)).map (t.get · u)) = some (i + 1) :=
    Tableau.unitRow_of_unit _ nonneg small (Nat.succ_pos i)
      (Nat.succ_lt_succ (column.row_lt std)) fun k _ => start.unit i u column k
  choose! basic column using fun (i : Nat) (hi : i < s.model.constraints.length) =>
    exists_startColumn hi
  refine ⟨(List.range s.model.constraints.length).map basic, ?_, by simp, fun i u => ?_⟩
  · rw [List.map_map]
    refine sized.basis_eq_of_last (fun i hi => ((column i hi).bounds std).2)
      (fun i hi => recognised (column i hi)) fun i hi c hc later found => ?_
    have own := ((column i hi).bounds std).1
    rcases startColumn_cases std hc with before | ⟨i', column'⟩ | ⟨i', surplus⟩
    · omega
    · rw [recognised column', Option.some.injEq, Nat.succ_inj] at found
      exact later.ne ((column i hi).column_unique std (found ▸ column'))
    · have low : t.get (i' + 1) c < -ε := by
        rw [start.carries.surplus std indexed surplus]
        exact neg_lt_neg small
      rw [Tableau.unitRow_eq_none_of_lt (t.get · c)
        (Nat.succ_lt_succ (std.surplus_lt_length surplus)) low] at found
      cases found
  · rw [Tableau.map_range_eq_some]
    constructor
    · rintro ⟨hi, rfl⟩
      exact column i hi
    · intro listed
      have hi := listed.row_lt std
      exact ⟨hi, (column i hi).column_unique std listed⟩

/-- Sum of a column over the rows that have an artificial variable. -/
def artificialRowsSum (s : StandardForm Rat) (t : Tableau Rat) (j : Nat) : Rat :=
  (s.phaseOne.artificials.values.map fun i => t.get (i + 1) j).sum

/-- Row 0 is minus the sum of the rows that have an artificial variable. -/
structure ShowsArtificials (s : StandardForm Rat) (t : Tableau Rat) : Prop where
  value : t.objectiveValue = .ok (-s.artificialRowsSum t s.phaseOneWidth)
  reduced : ∀ j < s.phaseOneWidth, j ∉ s.phaseOne.artificials.keys →
    t.get 0 j = -s.artificialRowsSum t j

section Phase

variable (std : m.Standardizes s) (indexed : m.Indexed) (small : ε < 1)
  (h : s.phaseOne.initialTableau ε = .ok t)

include std indexed small h

/-- Only rows of artificial variables are taken off, and each of them once, as its own column
is cleared by no other row. -/
theorem exists_taken : ∃ raw : Tableau Rat, raw.Auxiliary s ∧
    ∀ j, t.get 0 j = raw.get 0 j - s.artificialRowsSum t j := by
  have covers := s.phaseOne_covers
  have start := onStartBasis_start std indexed small h
  obtain ⟨costs, raw, basis, priced, written, listed, cleared⟩ := initialTableau_eq_ok h
  have auxiliary := covers.auxiliary std priced written
  obtain ⟨length, placed⟩ := covers.startBasis_eq_ok listed
  obtain ⟨_, rows, weight, weighted, sums⟩ :=
    auxiliary.sized.get_canonicalize length.le cleared
  have once {i : Nat} (artificial : i ∈ s.phaseOne.artificials.values) : weight i = 1 := by
    obtain ⟨u, hu⟩ := IndexMap.mem_values.1 artificial
    have bounds := covers.key_bounds hu
    have unit := Tableau.unitIn_succ_iff.1 (auxiliary.artificial u i hu)
    have zero : t.get 0 u = 0 := start.unit i u (startColumn_of_artificial hu) 0
    rw [sums, auxiliary.get_cost bounds.2.le, if_pos bounds,
      Tableau.sum_unit_column fun k _ => unit k, if_pos (s.phaseOne_row_lt artificial)] at zero
    exact (sub_eq_zero.1 zero).symm
  have never {i : Nat} (other : i ∉ s.phaseOne.artificials.values) : weight i = 0 := by
    by_contra nonzero
    obtain ⟨u, _, found⟩ := weighted i nonzero
    exact other (IndexMap.mem_values.2 ⟨u, (placed i u).1 found⟩)
  refine ⟨raw, auxiliary, fun j => ?_⟩
  rw [sums, artificialRowsSum, ← List.sum_toFinset _ covers.distinct]
  congr 1
  symm
  apply Finset.sum_subset_zero_on_sdiff
  · intro i artificial
    exact Finset.mem_range.2 (s.phaseOne_row_lt (List.mem_toFinset.1 artificial))
  · intro i other
    rw [never fun artificial => (Finset.mem_sdiff.1 other).2 (List.mem_toFinset.2 artificial),
      zero_mul]
  · intro i artificial
    rw [once (List.mem_toFinset.1 artificial), one_mul, rows]

theorem showsArtificials_start : s.ShowsArtificials t := by
  have sized := (onStartBasis_start std indexed small h).carries.sized
  obtain ⟨raw, auxiliary, taken⟩ := exists_taken std indexed small h
  constructor
  · rw [sized.objectiveValue, taken, auxiliary.get_cost le_rfl, if_neg (by simp), zero_sub]
  · intro j hj other
    rw [taken, auxiliary.get_cost hj.le, if_neg, zero_sub]
    intro bounds
    exact other (List.contains_iff_mem.1 ((s.phaseOne_covers.contains_iff j).2 bounds))

end Phase

/-- A table to start from: the basis that is read consists of the columns that start in it, they
cost nothing, and right-hand sides are the bounds of the model without their signs. -/
structure CanonicalStart (s : StandardForm Rat) (m : Model Rat) (ε : Rat) (t : Tableau Rat) :
    Prop where
  sized : t.Sized m.constraints.length s.phaseOneWidth
  basis : ∃ columns : List Nat, t.basis ε = .ok (columns.map some) ∧
    columns.length = m.constraints.length ∧ ∀ i u, columns[i]? = some u ↔ s.StartColumn i u
  cost : ∀ i u, s.StartColumn i u → t.get 0 u = 0
  side : ∀ (i : Nat) (c : Constraint Rat), m.constraints[i]? = some c →
    t.get (i + 1) s.phaseOneWidth = |c.bound|

theorem OnStartBasis.canonicalStart (start : s.OnStartBasis t) (std : m.Standardizes s)
    (indexed : m.Indexed) (nonneg : 0 ≤ ε) (small : ε < 1) : s.CanonicalStart m ε t := by
  refine ⟨std.length ▸ start.carries.sized, ?_, fun i u column => start.unit i u column 0,
    fun i c hc => start.carries.side std hc⟩
  rw [← std.length]
  exact start.basis_eq_ok std indexed nonneg small

end StandardForm

/-- For every model that is built, the first table of either phase is solved for slacks and
artificial variables. The tolerance stands for any number that is less than one. -/
theorem Model.firstTableau_canonical {m : Model Rat} (built : m.Built) {ε : Rat} (nonneg : 0 ≤ ε)
    (small : ε < 1) : ∃ s, m.standardForm = .ok s ∧
      (s.needsPhaseOne = true → ∃ t, s.phaseOne.initialTableau ε = .ok t ∧
        s.CanonicalStart m ε t ∧ s.ShowsArtificials t) ∧
      (s.needsPhaseOne = false → ∃ t, s.tableau = .ok t ∧ s.CanonicalStart m ε t) := by
  have indexed := built.indexed
  obtain ⟨s, standard⟩ := exists_standardForm indexed
  have std := standardForm_standardizes indexed standard
  refine ⟨s, standard, fun _ => ?_, fun covered => ?_⟩
  · obtain ⟨t, table, _⟩ := s.exists_initialTableau ε
    have start := StandardForm.onStartBasis_start std indexed small table
    exact ⟨t, table, start.canonicalStart std indexed nonneg small,
      StandardForm.showsArtificials_start std indexed small table⟩
  · obtain ⟨t, table, _⟩ := s.exists_tableau
    have start := onStartBasis_slacks std indexed covered table
    exact ⟨t, table, start.canonicalStart std indexed nonneg small⟩

/-- In the first row, `x` has a unit column, and that of `y` is one within the tolerance. -/
def ownUnits : Model Rat :=
  ⟨"own units", [⟨"x", 0⟩, ⟨"y", 1⟩, ⟨"z", 2⟩],
    [⟨⟨[⟨0, 1⟩, ⟨1, 1 + 1 / 10000000000⟩]⟩, .atMost, 3, 0⟩, ⟨⟨[⟨2, -1⟩]⟩, .atMost, -2, 1⟩,
      ⟨⟨[⟨2, 1⟩]⟩, .equal, 4, 2⟩],
    some ⟨⟨[⟨0, 1⟩]⟩, .maximize⟩⟩

/-- Both are recognised, but the slack behind them starts in the basis. -/
theorem ownUnits_canonical : ownUnits.Built ∧ ∃ s t, ownUnits.standardForm = .ok s ∧
    s.phaseOne.initialTableau (1 / 1000000000) = .ok t ∧
    t.unitRows (1 / 1000000000) =
      .ok [some 1, some 1, none, some 1, none, some 2, some 3] ∧
    t.basis (1 / 1000000000) = .ok [some 3, some 5, some 6] ∧ t.objectiveValue = .ok (-6) := by
  have built : ownUnits.Built := Model.built_of_rebuilt rfl
  obtain ⟨s, standard, phaseOne, -⟩ :=
    Model.firstTableau_canonical built (ε := 1 / 1000000000) (by norm_num) (by norm_num)
  obtain ⟨s', standard', computed⟩ := exists_ok_of_map (x := ownUnits.standardForm)
    (f := fun s => (s.needsPhaseOne, s.slacks.entries, s.phaseOne.artificials.entries))
    (c := (true, [(3, 0)], [(5, 1), (6, 2)])) (by decide +kernel)
  obtain rfl : s = s' := Except.ok.inj (standard.symm.trans standard')
  simp only [Prod.mk.injEq] at computed
  obtain ⟨needed, slacks, artificials⟩ := computed
  obtain ⟨t, table, start, shows⟩ := phaseOne needed
  obtain ⟨t', table', recognised⟩ := exists_ok_of_map
    (x := ownUnits.standardForm.bind fun s => s.phaseOne.initialTableau (1 / 1000000000))
    (f := fun t => (t.unitRows (1 / 1000000000)).toOption)
    (c := some [some 1, some 1, none, some 1, none, some 2, some 3]) (by decide +kernel)
  rw [standard] at table'
  obtain rfl : t = t' := Except.ok.inj (table.symm.trans table')
  obtain ⟨columns, read, length, column⟩ := start.basis
  obtain ⟨a, b, c, rfl⟩ := List.length_eq_three.1 length
  obtain rfl : a = 3 := Option.some.inj ((column 0 3).2 (.slack (by simp [slacks])))
  obtain rfl : b = 5 := Option.some.inj
    ((column 1 5).2 (StandardForm.startColumn_of_artificial (by simp [artificials])))
  obtain rfl : c = 6 := Option.some.inj
    ((column 2 6).2 (StandardForm.startColumn_of_artificial (by simp [artificials])))
  have sum : s.artificialRowsSum t s.phaseOneWidth = 6 := by
    have rows : s.phaseOne.artificials.values = [1, 2] := by rw [IndexMap.values, artificials]; rfl
    have sides : t.get 2 s.phaseOneWidth = |(-2 : Rat)| ∧ t.get 3 s.phaseOneWidth = |(4 : Rat)| :=
      ⟨start.side 1 _ rfl, start.side 2 _ rfl⟩
    simp only [StandardForm.artificialRowsSum, rows, List.map_cons, List.map_nil, sides]
    decide +kernel
  exact ⟨built, s, t, standard, table, toOption_eq_some.1 recognised, read, sum ▸ shows.value⟩

end LinearProgram
