import Mathlib
import LinearProgram.Proofs.Limit
import LinearProgram.Proofs.Unboundedness

/-!
# The pivot loop solves the tableau it is given

A tableau is a linear program of its own: maximise what row 0 says over the points that
satisfy the constraint rows.

* `IsPoint`, `worth`: the points of a tableau and what they are worth, `isPoint_iff` and
  `worth_eq` say both through equations;
* `CanonicalFeasible`: every constraint row has a unit column and no right-hand side is
  negative; `CanonicalFeasible.reaches`: pivots keep this, the points and their worth;
* `FeasibleBasis.isPoint_assignment`, `FeasibleBasis.worth_le`,
  `FeasibleBasis.exists_worth_gt`: what can be read off the last tableau;
* `CanonicalFeasible.optimize_correct`: the verdict of a run is right about the tableau it
  started from.
-/

namespace LinearProgram

open LinearForm (valuation)

namespace Tableau

/-- A point without negative entries that satisfies the constraint rows. -/
structure IsPoint (t : Tableau Rat) (x : List Rat) : Prop where
  length : x.length = t.rhsColumn
  nonneg : ∀ value ∈ x, 0 ≤ value
  satisfied : ∀ i, 0 < i → i < t.height → t.leftSide i (valuation x) = t.get i t.rhsColumn

/-- The value of the objective at a point, from the value and the reduced costs in row 0. -/
def worth (t : Tableau Rat) (x : List Rat) : Rat :=
  t.get 0 t.rhsColumn - t.leftSide 0 (valuation x)

/-- Every constraint row has a unit column over the whole table, row 0 included, and no
right-hand side is negative. There is a row 0 with an objective value to start from. -/
structure CanonicalFeasible (t : Tableau Rat) : Prop where
  rectangular : t.Rectangular
  objective : t.objectiveValue = .ok (t.get 0 t.rhsColumn)
  columns : ∀ i, 0 < i → i < t.height → ∃ c < t.rhsColumn, t.UnitColumn i c
  nonneg : ∀ i, 0 < i → i < t.height → 0 ≤ t.get i t.rhsColumn

variable {t u : Tableau Rat} {m n : Nat} {basic : Nat → Nat}

namespace Sized

theorem isPoint_iff (sized : t.Sized m n) {x : List Rat} : t.IsPoint x ↔
    x.length = n ∧ (∀ value ∈ x, 0 ≤ value) ∧ t.Vanishes (atPoint n (valuation x)) := by
  rw [sized.vanishes_atPoint_iff]
  constructor
  · rintro ⟨length, nonneg, satisfied⟩
    exact ⟨length.trans sized.rhsColumn, nonneg, satisfied⟩
  · rintro ⟨length, nonneg, satisfied⟩
    exact ⟨length.trans sized.rhsColumn.symm, nonneg, satisfied⟩

theorem worth_eq (sized : t.Sized m n) (x : List Rat) :
    t.worth x = -t.equation 0 (atPoint n (valuation x)) := by
  simp [worth, sized.equation_atPoint_leftSide, sized.rhsColumn]

/-- A run from a sized table only fails for want of pivots: those it may make, or those the fuel
is enough for. -/
theorem verdict_error (sized : t.Sized m n) {ε : Rat} {limit : Option Nat} {fuel : Nat} {e : Failure}
    (failed : (t.run ε limit fuel).verdict = .error e) :
    (∃ k ∈ limit, e = .iterationLimit k) ∨ e = .unfinished ∧ ∀ k ∈ limit, fuel ≤ k := by
  unfold Run.verdict at failed
  split at failed
  case h_4 k stopped =>
    obtain rfl := Except.error.inj failed
    exact .inl ⟨k, limit_of_limitReached stopped, rfl⟩
  case h_5 unfinished =>
    obtain rfl := Except.error.inj failed
    refine .inr ⟨rfl, fun k same => ?_⟩
    obtain rfl := Option.mem_def.1 same
    by_contra enough
    exact run_finished (not_le.1 enough) unfinished
  case h_6 cause ending => exact absurd ending ((sized.run_total ε limit fuel).2 cause)
  all_goals exact nomatch failed

end Sized

/-- Equivalent tables of one size have the same points, and these are worth the same. -/
theorem Equivalent.isPoint_iff (same : t.Equivalent u) (sized : t.Sized m n)
    (sized' : u.Sized m n) (x : List Rat) : t.IsPoint x ↔ u.IsPoint x := by
  rw [sized.isPoint_iff, sized'.isPoint_iff, same.vanishes_iff]

theorem Equivalent.worth_eq (same : t.Equivalent u) (sized : t.Sized m n) (sized' : u.Sized m n)
    {x : List Rat} (point : t.IsPoint x) : u.worth x = t.worth x := by
  rw [sized.worth_eq, sized'.worth_eq, same.price (sized.isPoint_iff.1 point).2.2]

namespace FeasibleBasis

variable (basis : t.FeasibleBasis m n basic fun _ => False)

include basis

theorem canonicalFeasible : t.CanonicalFeasible := by
  have sized := basis.sized
  refine ⟨sized.rectangular, ?_, fun i pos lt => ?_, fun i pos lt => ?_⟩
  · rw [sized.objectiveValue, sized.rhsColumn]
  · rw [sized.height, Nat.lt_succ_iff] at lt
    rw [sized.rhsColumn]
    exact ⟨basic i, basis.inside i pos lt, basis.unitColumn id pos lt⟩
  · rw [sized.height, Nat.lt_succ_iff] at lt
    rw [sized.rhsColumn]
    exact basis.nonneg i pos lt

/-- The assignment of a table is one of its points, worth the value in its row 0, whichever
of several unit columns of a row is taken. -/
theorem isPoint_assignment : ∃ x, t.assignment 0 = .ok x ∧ t.IsPoint x ∧ t.worth x = t.get 0 n := by
  obtain ⟨basic', x, basis', _, assigned, length, values⟩ := basis.reads fun _ => id
  have point : valuation x = t.basicPoint m n basic' := funext values
  refine ⟨x, assigned, basis.sized.isPoint_iff.2 ⟨length, fun value mem => ?_, ?_⟩, ?_⟩
  · obtain ⟨j, found⟩ := List.getElem?_of_mem mem
    have nonneg := basis'.point_nonneg j
    simpa [← values, found] using nonneg
  · rw [point]
    exact basis'.point_vanishes
  · rw [basis.sized.worth_eq, point, basis'.point_price fun _ => id, neg_neg]

/-- Along a column without positive entries and with a negative cost there are points that
are worth more than any bound. -/
theorem exists_worth_gt {c : Nat} (hc : c < n) (cost : t.get 0 c < 0)
    (free : ∀ i < m, t.get (i + 1) c ≤ 0) (bound : Rat) : ∃ x, t.IsPoint x ∧ bound < t.worth x := by
  obtain ⟨z, nonneg, vanishes, more⟩ := basis.exists_beyond (basis.hasImprovingRay hc cost free) bound
  have same (i : Nat) : t.equation i (atPoint n (valuation (pointOf n z))) =
      t.equation i (atPoint n z) := by
    rw [basis.sized.equation_atPoint_leftSide, basis.sized.equation_atPoint_leftSide,
      basis.sized.leftSide_congr i fun j hj => valuation_pointOf hj z]
  refine ⟨pointOf n z, basis.sized.isPoint_iff.2 ⟨by simp, ?_, fun i pos => ?_⟩, ?_⟩
  · simpa [pointOf] using fun j _ => nonneg j
  · rw [same, vanishes i pos]
  · rwa [basis.sized.worth_eq, same]

end FeasibleBasis

/-- Without negative reduced costs, no point is worth more than the value in row 0. -/
theorem Sized.worth_le (sized : t.Sized m n) (costs : ∀ j < n, 0 ≤ t.get 0 j) {x : List Rat}
    (point : t.IsPoint x) : t.worth x ≤ t.get 0 n := by
  rw [worth, sized.rhsColumn, sub_le_self_iff, leftSide, sized.rhsColumn]
  apply Finset.sum_nonneg
  intro j hj
  exact mul_nonneg (costs j (Finset.mem_range.1 hj)) (LinearForm.valuation_nonneg point.nonneg j)

namespace CanonicalFeasible

variable (canonical : t.CanonicalFeasible)

include canonical

theorem sized : t.Sized (t.height - 1) t.rhsColumn := by
  obtain ⟨costs, first, last⟩ := bind_eq_ok.1 canonical.objective
  have inside : t.rhsColumn < costs.length := by
    by_contra outside
    simp [cell, orFault, List.getElem?_eq_none (not_lt.1 outside)] at last
  refine canonical.rectangular.sized ?_
  cases rows : t.rows with
  | nil => simp [Tableau.row, rows, orFault] at first
  | cons costs' constraints =>
    obtain rfl : costs' = costs := by simpa [Tableau.row, rows] using first
    rw [Tableau.width, rows]
    exact Nat.zero_lt_of_lt inside

theorem exists_basis :
    ∃ basic, t.FeasibleBasis (t.height - 1) t.rhsColumn basic fun _ => False := by
  refine FeasibleBasis.exists_of_columns canonical.sized (fun i hi => ?_)
    fun i hi => canonical.nonneg (i + 1) (Nat.succ_pos i) (by omega)
  obtain ⟨c, inside, unit⟩ := canonical.columns (i + 1) (Nat.succ_pos i) (by omega)
  exact ⟨c, inside, unit.unitIn, .inl (by simpa using unit 0)⟩

/-- All tables that selected pivots lead to are canonical and feasible, with the points of the
first one at the same worth. -/
theorem reaches (reaches : t.Reaches 0 u) : u.CanonicalFeasible ∧
    (∀ x, t.IsPoint x ↔ u.IsPoint x) ∧ ∀ x, t.IsPoint x → u.worth x = t.worth x := by
  obtain ⟨basic, basis⟩ := canonical.exists_basis
  obtain ⟨basic', basis'⟩ := basis.reaches reaches
  obtain ⟨sized', same⟩ := canonical.sized.reaches le_rfl reaches
  exact ⟨basis'.canonicalFeasible, same.isPoint_iff canonical.sized sized',
    fun x => same.worth_eq canonical.sized sized'⟩

/-- The verdict of the pivot loop is right about the tableau it was given. What it calls optimal
is a point of this tableau that no other point exceeds, and when it says unbounded there are
points that exceed any bound. It only fails for want of pivots, and then under a limit only when
the limit says so or there is not even fuel for it. -/
theorem optimize_correct (limit : Option Nat) (fuel : Nat) :
    (∀ last, (Solver.optimize ⟨0, limit⟩ fuel t).outcome = .ok (.optimal last) →
      ∃ x best, last.assignment 0 = .ok x ∧ last.objectiveValue = .ok best ∧
        t.IsPoint x ∧ t.worth x = best ∧ ∀ y, t.IsPoint y → t.worth y ≤ best) ∧
    (∀ last, (Solver.optimize ⟨0, limit⟩ fuel t).outcome = .ok (.unbounded last) →
      ∀ bound, ∃ x, t.IsPoint x ∧ bound < t.worth x) ∧
    ∀ e, (Solver.optimize ⟨0, limit⟩ fuel t).outcome = .error e →
      (∃ k ∈ limit, e = .iterationLimit k) ∨ e = .unfinished ∧ ∀ k ∈ limit, fuel ≤ k := by
  obtain ⟨reaches, justified⟩ : t.Reaches 0 (t.run 0 limit fuel).last ∧
      (t.run 0 limit fuel).ending.Justified 0 (t.run 0 limit fuel).last :=
    runFrom_spec 0 limit 0 fuel t
  obtain ⟨canonical', points, worths⟩ := canonical.reaches reaches
  obtain ⟨_, basis⟩ := canonical'.exists_basis
  have ends := basis.sized.ends justified
  simp only [Solver.outcome_optimize]
  refine ⟨fun last verdict => ?_, fun last verdict => ?_, fun e verdict => ?_⟩
  · cases Run.verdict_eq_ok verdict with
    | optimal ending =>
      obtain ⟨x, assigned, point, worth⟩ := basis.isPoint_assignment
      rw [← points] at point
      refine ⟨x, _, assigned, basis.sized.objectiveValue, point, by rw [← worths x point, worth], ?_⟩
      intro y other
      rw [← worths y other]
      exact basis.sized.worth_le (by simpa using ends.optimal ending) ((points y).1 other)
  · cases Run.verdict_eq_ok verdict with
    | blocked ending => exact absurd ending ends.notBlocked
    | unbounded ending =>
      obtain ⟨enters, free⟩ := ends.unbounded _ ending
      intro bound
      obtain ⟨x, point, more⟩ := basis.exists_worth_gt enters.lt (by simpa using enters.cost) free bound
      rw [← points] at point
      exact ⟨x, point, by rwa [← worths x point]⟩
  · exact canonical.sized.verdict_error verdict

end CanonicalFeasible

/-- Two columns in one row, with the second as its unit column. -/
def twoColumns (cost entry side : Rat) : Tableau Rat := ⟨[[cost, 0, 0], [entry, 1, side]]⟩

theorem twoColumns_canonicalFeasible (cost entry : Rat) {side : Rat} (nonneg : 0 ≤ side) :
    (twoColumns cost entry side).CanonicalFeasible := by
  refine ⟨by simp [twoColumns, Rectangular, width], rfl,
    fun i pos lt => ⟨1, Nat.one_lt_two, ?_⟩, fun i pos lt => ?_⟩
  all_goals obtain rfl : i = 1 := Nat.le_antisymm (Nat.lt_succ_iff.1 lt) pos
  · rintro (_ | _ | k) <;> simp [twoColumns, get, line]
  · exact nonneg

/-- Where the columns add up to one, the first can grow to one; where their difference is one, it
can grow without bound. -/
theorem twoColumns_optimize : (twoColumns (-1) 1 1).CanonicalFeasible ∧
    (∃ last, (Solver.optimize ⟨0, some 1⟩ 2 (twoColumns (-1) 1 1)).outcome =
        .ok (.optimal last) ∧
      ∃ x, last.assignment 0 = .ok x ∧ (twoColumns (-1) 1 1).IsPoint x ∧
        ∀ y, (twoColumns (-1) 1 1).IsPoint y →
          (twoColumns (-1) 1 1).worth y ≤ (twoColumns (-1) 1 1).worth x) ∧
    (twoColumns (-1) (-1) 1).CanonicalFeasible ∧
    (∃ last, (Solver.optimize ⟨0, some 1⟩ 2 (twoColumns (-1) (-1) 1)).outcome =
        .ok (.unbounded last) ∧
      ∀ bound, ∃ x, (twoColumns (-1) (-1) 1).IsPoint x ∧
        bound < (twoColumns (-1) (-1) 1).worth x) := by
  have canonical := twoColumns_canonicalFeasible (-1) 1 zero_le_one
  have canonical' := twoColumns_canonicalFeasible (-1) (-1) zero_le_one
  have ending : ((twoColumns (-1) 1 1).run 0 (some 1) 2).ending = .optimal := by decide +kernel
  have ending' : ((twoColumns (-1) (-1) 1).run 0 (some 1) 2).ending = .unbounded 0 := by
    decide +kernel
  have ended : (Solver.optimize ⟨0, some 1⟩ 2 (twoColumns (-1) 1 1)).outcome =
      .ok (.optimal ((twoColumns (-1) 1 1).run 0 (some 1) 2).last) := by
    rw [Solver.outcome_optimize, Run.verdict, ending]
  have ended' : (Solver.optimize ⟨0, some 1⟩ 2 (twoColumns (-1) (-1) 1)).outcome =
      .ok (.unbounded ((twoColumns (-1) (-1) 1).run 0 (some 1) 2).last) := by
    rw [Solver.outcome_optimize, Run.verdict, ending']
  refine ⟨canonical, ⟨_, ended, ?_⟩, canonical', _, ended', ?_⟩
  · obtain ⟨x, _, assigned, _, point, rfl, greatest⟩ :=
      (canonical.optimize_correct (some 1) 2).1 _ ended
    exact ⟨x, assigned, point, greatest⟩
  · exact (canonical'.optimize_correct (some 1) 2).2.1 _ ended'

end Tableau

end LinearProgram
