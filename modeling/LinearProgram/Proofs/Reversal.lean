import Mathlib
import LinearProgram.Proofs.Passage
import LinearProgram.Proofs.Progress

/-!
# Pivots can be undone

A pivot writes the same system in other words, whether the number it divides by is positive
or negative and whether or not the rules would select it.

* `sized_of_get_ne_zero`: a number of a rectangular table that is not zero is inside it;
* `Equivalent.admits_iff`: equivalent tables admit the same points at the same values;
* `Sized.pivot_back`: a pivot on the column that was a unit column of the row leads back;
* `pivot_reversible`: all of it for every rectangular table; `negativeEntry_reversible` for
  one, with a pivot that the rules would not select.
-/

namespace LinearProgram

namespace Tableau

variable {t u : Tableau Rat} {m n : Nat}

/-- Past the end of a table there are only zeros to be read. -/
theorem sized_of_get_ne_zero (rectangular : t.Rectangular) {i j : Nat} (nonzero : t.get i j ≠ 0) :
    t.Sized (t.height - 1) t.rhsColumn ∧ i ≤ t.height - 1 ∧ j ≤ t.rhsColumn := by
  have inside : i < t.rows.length := by
    by_contra outside
    rw [get, line_eq_nil (not_lt.1 outside)] at nonzero
    exact nonzero rfl
  have wide : j < t.width := by
    rw [← rectangular _ (line_mem inside)]
    by_contra outside
    rw [get, List.getElem?_eq_none (not_lt.1 outside)] at nonzero
    exact nonzero rfl
  refine ⟨rectangular.sized (by omega), ?_, ?_⟩
  · rw [height]
    omega
  · rw [rhsColumn]
    omega

theorem Equivalent.admits_iff (same : t.Equivalent u) (sized : t.Sized m n) (sized' : u.Sized m n)
    {z : Rat} {x : Nat → Rat} : t.Admits z x ↔ u.Admits z x :=
  ⟨fun admits => admits.entails sized sized' same.1,
    fun admits => admits.entails sized' sized same.2⟩

/-- The row is multiplied by the number that it was divided by, and every other row gets back
what was taken off. -/
theorem Sized.pivot_back (sized : t.Sized m n) {r c b : Nat} (hr : r ≤ m) (hc : c ≤ n) (hb : b ≤ n)
    (pivot : t.pivot r c = .ok u) (nonzero : t.get r c ≠ 0) (unit : t.UnitColumn r b) :
    u.pivot r b = .ok t := by
  obtain ⟨sized', entries⟩ := sized.get_pivot hr hc pivot
  obtain ⟨w, back, _⟩ := sized'.pivot hr hb
  obtain ⟨sized'', entries'⟩ := sized'.get_pivot hr hb back
  have divided : u.get r b = 1 / t.get r c := by
    rw [entries, if_pos rfl, unit r, if_pos rfl]
  rw [back]
  congr 1
  refine ext_get sized'' sized fun k j _ _ => ?_
  rw [entries', divided, entries r j, if_pos rfl]
  by_cases own : k = r
  · rw [if_pos own, own]
    field_simp
  · have cleared : u.get k b = -(t.get k c * (1 / t.get r c)) := by
      rw [entries, if_neg own, unit k, if_neg own, unit r, if_pos rfl, zero_sub]
    rw [if_neg own, cleared, entries k j, if_neg own]
    field_simp
    ring

/-- A pivot in a constraint row on a number that is not zero makes its column a unit column of
the whole table. A point with a value of the objective satisfies all rows afterwards exactly
if it did before. Where a unit column of the row was, a pivot restores the old table. -/
theorem pivot_reversible (rectangular : t.Rectangular) {r c : Nat} (pos : 0 < r)
    (nonzero : t.get r c ≠ 0) : ∃ u, t.pivot r c = .ok u ∧ u.Rectangular ∧
      u.height = t.height ∧ u.width = t.width ∧ u.UnitColumn r c ∧
      (∀ z x, u.Admits z x ↔ t.Admits z x) ∧
      ∀ b, t.UnitColumn r b → u.pivot r b = .ok t := by
  obtain ⟨sized, hr, hc⟩ := sized_of_get_ne_zero rectangular nonzero
  obtain ⟨u, pivot, sized', _⟩ := sized.pivot hr hc
  refine ⟨u, pivot, sized'.rectangular, sized'.height.trans sized.height.symm,
    sized'.width.trans sized.width.symm, sized.get_pivot_column hr hc pivot nonzero, fun z x => ?_,
    fun b unit => ?_⟩
  · have same := sized.equivalent_pivot pos hr hc pivot nonzero
    exact (same.admits_iff sized sized').symm
  · have one : t.get r b ≠ 0 := by
      rw [unit r, if_pos rfl]
      exact one_ne_zero
    exact sized.pivot_back hr hc (sized_of_get_ne_zero rectangular one).2.2 pivot nonzero unit

/-- Minus two is in the first column of the first constraint row. -/
def negativeEntry : Tableau Rat := ⟨[[-3, 1, 0, 0, 5], [-2, 4, 1, 0, 6], [5, 1, 0, 1, 7]]⟩

/-- The right-hand side of the row becomes minus three, and a pivot on its old unit column
leads back. -/
theorem negativeEntry_reversible : negativeEntry.get 1 0 = -2 ∧
    ∃ u, negativeEntry.pivot 1 0 = .ok u ∧ u.UnitColumn 1 0 ∧
      u.rows = [[0, -5, -3/2, 0, -4], [1, -2, -1/2, 0, -3], [0, 11, 5/2, 1, 22]] ∧
      u.pivot 1 2 = .ok negativeEntry := by
  have entry : negativeEntry.get 1 0 = -2 := by decide +kernel
  have slack : negativeEntry.UnitColumn 1 2 :=
    unitColumn_of_lt (by decide) (by decide +kernel)
  obtain ⟨u, pivot, _, _, _, unit, _, back⟩ := pivot_reversible (t := negativeEntry) (r := 1)
    (c := 0) (by decide +kernel) Nat.one_pos (by rw [entry]; norm_num)
  obtain ⟨u', pivot', rows⟩ := exists_ok_of_map (x := negativeEntry.pivot 1 0) (f := Tableau.rows)
    (c := [[0, -5, -3/2, 0, -4], [1, -2, -1/2, 0, -3], [0, 11, 5/2, 1, 22]]) (by decide +kernel)
  obtain rfl : u = u' := Except.ok.inj (pivot.symm.trans pivot')
  exact ⟨entry, u, pivot, unit, rows, back 2 slack⟩

end Tableau

end LinearProgram
