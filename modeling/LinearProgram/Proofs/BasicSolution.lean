import Mathlib
import LinearProgram.Proofs.Optimality

/-!
# The basic solution of any tableau

Without a tolerance, the basis and the assignment of a rectangular table are what their
names say, whether or not the table came from pivots.

* `basis_of_narrow`, `assignment_of_narrow`: rows without numbers have nothing to be read;
* `ReadsBasis.found_iff`, `ReadsBasis.missing_iff`: the last unit column of a row, or none;
* `ReadsBasis.leftSide_readPoint`: what the rows are at the values that are read;
* `basicSolution_exact`: all of it for every rectangular table; `halfBasis_exact` for one with
  a row that has no basic column.
-/

namespace LinearProgram

open LinearForm (valuation)

namespace Tableau

section Narrow

variable {α : Type} [Scalar α] {t : Tableau α}

theorem basis_of_narrow (narrow : t.width = 0) (ε : α) :
    t.basis ε = .ok (List.replicate (t.height - 1) none) := by
  have noColumns : t.unitRows ε = .ok [] := by
    rw [unitRows, rhsColumn, narrow]
    rfl
  rw [basis, noColumns, ok_bind, List.eq_replicate_of_mem (a := none) (l := List.map _ _),
    List.length_map, List.length_range]
  intro b hb
  obtain ⟨i, _, rfl⟩ := List.mem_map.1 hb
  rfl

omit [Scalar α] in
theorem settle_of_none {n : Nat} {items : List (Option Nat × List α)}
    (none : ∀ e ∈ items, e.1 = none) (values : List α) : settle n items values = .ok values := by
  induction items with
  | nil => rfl
  | cons e rest ih =>
    obtain ⟨head, tail⟩ := List.forall_mem_cons.1 none
    obtain ⟨basic, row⟩ := e
    obtain rfl : basic = _ := head
    exact ih tail

theorem assignment_of_narrow (narrow : t.width = 0) (ε : α) : t.assignment ε = .ok [] := by
  rw [assignment, basis_of_narrow narrow, ok_bind, rhsColumn, narrow, settle_of_none]
  · rfl
  · rintro ⟨basic, row⟩ he
    exact List.eq_of_mem_replicate (List.of_mem_zip he).1

end Narrow

variable {t : Tableau Rat} {m n : Nat} {listed : List (Option Nat)}

/-- Rows without numbers read as zero. -/
theorem get_of_narrow (rectangular : t.Rectangular) (narrow : t.width = 0) (i j : Nat) :
    t.get i j = 0 := by
  by_cases inside : i < t.rows.length
  · have empty : t.line i = [] :=
      List.length_eq_zero_iff.1 ((rectangular _ (line_mem inside)).trans narrow)
    rw [get, empty]
    rfl
  · rw [get, line_eq_nil (not_lt.1 inside)]
    rfl

/-- Only columns of the basis have a value. -/
theorem readPoint_eq_zero {j : Nat} (unlisted : some j ∉ listed) :
    t.readPoint m n listed j = 0 := by
  by_contra nonzero
  obtain ⟨i, _, found⟩ := exists_of_combination_ne_zero nonzero
  exact unlisted (List.mem_of_getElem? (Option.join_eq_some_iff.1 found))

namespace ReadsBasis

variable (reads : t.ReadsBasis m n listed)

include reads

theorem found_iff {i : Nat} (hi : i < m) (c : Nat) : listed[i]? = some (some c) ↔
    IsGreatest {c | c < n ∧ t.UnitColumn (i + 1) c} c := by
  have greatest {c : Nat} (found : listed[i]? = some (some c)) :
      IsGreatest {c | c < n ∧ t.UnitColumn (i + 1) c} c := by
    obtain ⟨hc, unit, last⟩ := reads.found i c found
    exact ⟨⟨hc, unit⟩, fun c' ⟨hc', unit'⟩ => last c' hc' unit'⟩
  refine ⟨greatest, fun isGreatest => ?_⟩
  cases here : listed[i]? with
  | none =>
    have := List.getElem?_eq_none_iff.1 here
    have := reads.length
    omega
  | some basic =>
    cases basic with
    | none => exact absurd isGreatest.1.2 (reads.missing i here c isGreatest.1.1)
    | some c' => rw [(greatest here).unique isGreatest]

theorem missing_iff {i : Nat} (hi : i < m) :
    listed[i]? = some none ↔ ∀ c < n, ¬ t.UnitColumn (i + 1) c := by
  refine ⟨reads.missing i, fun none => ?_⟩
  cases here : listed[i]? with
  | none =>
    have := List.getElem?_eq_none_iff.1 here
    have := reads.length
    omega
  | some basic =>
    cases basic with
    | none => rfl
    | some c =>
      obtain ⟨hc, unit, _⟩ := reads.found i c here
      exact absurd unit (none c hc)

theorem leftSide_readPoint (sized : t.Sized m n) {i : Nat} (pos : 0 < i) (le : i ≤ m) :
    t.leftSide i (t.readPoint m n listed) =
      if (recognised listed i).isSome then t.get i n else 0 := by
  have equation := reads.equation_readPoint sized pos le
  rw [sized.equation_atPoint_leftSide, sub_eq_iff_eq_add] at equation
  rw [equation]
  split
  · exact zero_add _
  · exact neg_add_cancel _

theorem price_leftSide (sized : t.Sized m n) : t.leftSide 0 (t.readPoint m n listed) = 0 := by
  have price := reads.price_readPoint sized
  rwa [sized.equation_atPoint_leftSide, sub_eq_neg_self] at price

end ReadsBasis

/-- The basic column of a constraint row is the last column of the whole table that has a one
in that row and zeros elsewhere, and only a row without such a column has none. The assignment
costs nothing, is zero outside the basic columns, and satisfies every row that has one; it
satisfies a row that has none only if the right-hand side is zero. -/
theorem basicSolution_exact (rectangular : t.Rectangular) :
    ∃ basis values, t.basis 0 = .ok basis ∧ t.assignment 0 = .ok values ∧
      basis.length = t.height - 1 ∧ values.length = t.rhsColumn ∧
      (∀ i < t.height - 1,
        (∀ c, basis[i]? = some (some c) ↔
          IsGreatest {c | c < t.rhsColumn ∧ t.UnitColumn (i + 1) c} c) ∧
        (basis[i]? = some none ↔ ∀ c < t.rhsColumn, ¬ t.UnitColumn (i + 1) c) ∧
        (t.leftSide (i + 1) (valuation values) = t.get (i + 1) t.rhsColumn ↔
          basis[i]? ≠ some none ∨ t.get (i + 1) t.rhsColumn = 0)) ∧
      t.leftSide 0 (valuation values) = 0 ∧
      ∀ j, some j ∉ basis → valuation values j = 0 := by
  rcases Nat.eq_zero_or_pos t.width with narrow | wide
  · have rhsColumn : t.rhsColumn = 0 := by rw [Tableau.rhsColumn, narrow]
    have noColumns (i : Nat) (x : Nat → Rat) : t.leftSide i x = 0 := by
      rw [leftSide, rhsColumn, Finset.range_zero, Finset.sum_empty]
    refine ⟨_, _, basis_of_narrow narrow 0, assignment_of_narrow narrow 0, List.length_replicate,
      rhsColumn.symm, fun i hi => ⟨fun c => ?_, ?_, ?_⟩, noColumns 0 _, fun j _ => rfl⟩
    · simp [rhsColumn, hi, IsGreatest]
    · simp [rhsColumn, hi]
    · simp [noColumns, get_of_narrow rectangular narrow]
  · have sized := rectangular.sized wide
    obtain ⟨basis, read, reads⟩ := sized.basis
    obtain ⟨values, assigned, length, value⟩ := sized.assignment read reads
    have point : valuation values = t.readPoint (t.height - 1) t.rhsColumn basis := funext value
    refine ⟨basis, values, read, assigned, reads.length, length, fun i hi =>
      ⟨reads.found_iff hi, reads.missing_iff hi, ?_⟩, ?_, fun j unlisted => ?_⟩
    · rw [point, reads.leftSide_readPoint sized (Nat.succ_pos i) hi,
        ne_eq, ← recognised_eq_none reads.length hi]
      cases recognised basis (i + 1) <;> simp [eq_comm]
    · rw [point, reads.price_leftSide sized]
    · rw [point, readPoint_eq_zero unlisted]

/-- Three unit columns of the first row, the third with a cost, and none of the second row. -/
def halfBasis : Tableau Rat := ⟨[[0, 0, 1, 0, 9], [1, 1, 1, 0, 3], [0, 0, 0, 2, 4]]⟩

/-- The second column is the basic one of the first row. Both rows ask for something, and the
second one does not get it. -/
theorem halfBasis_exact : halfBasis.Rectangular ∧ ∃ values,
    halfBasis.basis 0 = .ok [some 1, none] ∧ halfBasis.assignment 0 = .ok values ∧
      values = [0, 3, 0, 0] ∧ halfBasis.leftSide 1 (valuation values) = 3 ∧
      halfBasis.leftSide 2 (valuation values) ≠ 4 ∧
      halfBasis.leftSide 0 (valuation values) = 0 := by
  have rectangular : halfBasis.Rectangular := by decide
  obtain ⟨basis, values, read, assigned, _, _, rows, cost, _⟩ := basicSolution_exact rectangular
  obtain ⟨basis', read', listed⟩ := exists_ok_of_map (x := halfBasis.basis 0) (f := id)
    (c := [some 1, none]) (by decide +kernel)
  obtain ⟨values', assigned', columns⟩ := exists_ok_of_map (x := halfBasis.assignment 0) (f := id)
    (c := [0, 3, 0, 0]) (by decide +kernel)
  obtain rfl : basis = basis' := Except.ok.inj (read.symm.trans read')
  obtain rfl : values = values' := Except.ok.inj (assigned.symm.trans assigned')
  obtain rfl : basis = _ := listed
  have sides : halfBasis.get 1 halfBasis.rhsColumn = 3 ∧
      halfBasis.get 2 halfBasis.rhsColumn = 4 := by decide +kernel
  refine ⟨rectangular, values, read, assigned, columns, ?_, fun satisfied => ?_, cost⟩
  · rw [(rows 0 (by decide)).2.2.2 (.inl (by simp)), sides.1]
  · rcases (rows 1 (by decide)).2.2.1 (satisfied.trans sides.2.symm) with found | zero
    · exact found rfl
    · rw [sides.2] at zero
      norm_num at zero

end Tableau

end LinearProgram
