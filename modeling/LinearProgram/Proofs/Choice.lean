import Mathlib
import LinearProgram.Proofs.Progress

/-!
# Which pivot is chosen

* `Sized.entering_spec`, `Sized.leaving_spec`: the entering column is the first of the least
  reduced costs, and a column that is not unbounded has a leaving row, the first of the least
  ratios over the entries beyond the tolerance;
* `Performs.split`: an exchange of a run was selected from the table that the exchanges
  before it lead to;
* `selects_first_least`: on rectangular tables a pivot is found whenever the tests before it pass,
  and no run ever divides by an entry within the tolerance.
-/

namespace LinearProgram.Tableau

section Performs

variable {α : Type} [Scalar α] {ε : α} {t w : Tableau α} {e : Exchange α}
  {before after : List (Exchange α)}

theorem Performs.reaches {exchanges : List (Exchange α)} (performs : t.Performs ε exchanges w) :
    t.Reaches ε w := by
  induction performs with
  | nil t => exact .refl t
  | cons move _ ih => exact .step move ih

/-- Every exchange is a move of the table that the ones before it lead to. -/
theorem Performs.split (performs : t.Performs ε (before ++ e :: after) w) :
    ∃ u next, t.Performs ε before u ∧ u.move ε = .ok (.pivot e next) ∧
      next.Performs ε after w := by
  induction before generalizing t with
  | nil =>
    cases performs with
    | cons move later => exact ⟨t, _, .nil t, move, later⟩
  | cons first rest ih =>
    cases performs with
    | cons move later =>
      obtain ⟨u, next, reached, found⟩ := ih later
      exact ⟨u, next, .cons move reached, found⟩

end Performs

variable {t u : Tableau Rat} {m n : Nat} {ε : Rat}

/-- The first of the least reduced costs enters, and it is negative unless all tests of
optimality pass. -/
theorem Sized.entering_spec (sized : t.Sized m n) (wide : 0 < n) (ε : Rat) :
    ∃ c optimal, t.entering = .ok c ∧ t.isOptimal ε = .ok optimal ∧
      IsFirstLeast (t.get 0) n c ∧ (optimal = false ↔ t.get 0 c < -ε) := by
  have first := leastIndex_spec (t.get 0) wide
  refine ⟨_, _, sized.entering, sized.isOptimal, first, ?_⟩
  rw [decide_eq_false_iff_not, ← not_le, not_iff_not]
  exact ⟨fun nonneg => nonneg _ first.lt, fun le j hj => le.trans (first.least j hj)⟩

/-- The ratio test finds no row exactly when the column is unbounded, and otherwise the first
of the least ratios. -/
theorem Sized.leaving_spec (sized : t.Sized m n) {c : Nat} (inside : c ≤ n) (ε : Rat) :
    ∃ free choice, t.isUnbounded ε c = .ok free ∧ t.leaving ε c = .ok choice ∧
      (choice = none ↔ free = true) ∧
      ∀ r ∈ choice, IsFirstRatio (t.get · c) (t.get · n) ε (m + 1) r := by
  have start : RatioSoFar (t.get · c) (t.get · n) ε 1 none := fun i pos lt => by omega
  obtain ⟨best, sofar, tested⟩ := ratioTest_spec m Nat.one_pos start
  refine ⟨_, _, sized.isUnbounded inside, sized.leaving inside, ?_⟩
  rw [tested, decide_eq_true_iff]
  cases best with
  | none =>
    refine ⟨iff_of_true rfl fun i hi => sofar (i + 1) (Nat.succ_pos i) (by omega), by simp⟩
  | some found =>
    obtain ⟨_, first⟩ := sofar
    rw [Nat.add_comm 1 m] at first
    refine ⟨iff_of_false (by simp) fun free => ?_, by simpa using first⟩
    -- `free` counts the constraint rows from zero, the ratio test from one
    have small := free (found.2 - 1) (by have := first.lt; have := first.pos; omega)
    rw [Nat.sub_add_cancel first.pos] at small
    exact absurd first.entry (not_lt.2 small)

/-- A step that pivots divides by an entry beyond the tolerance. -/
theorem Sized.entry_of_move (sized : t.Sized m n) {e : Exchange Rat}
    (move : t.move ε = .ok (.pivot e u)) :
    t.pivot e.row e.column = .ok u ∧ ∃ x, t.entry e.row e.column = .ok x ∧ ε < x := by
  cases sized.moves_of_move move with
  | pivot enters leaves next =>
    exact ⟨next, _, sized.entry (Nat.lt_succ_iff.1 leaves.lt) enters.lt.le, leaves.entry⟩

/-- On a rectangular table with a variable, the first of the least reduced costs enters, and
it is negative exactly if the table is not optimal. In every column the ratio test finds no row
exactly if the column is unbounded, and otherwise the first row of the least ratio. So no run is
ever blocked, and all its pivots divide by entries beyond the tolerance. -/
theorem selects_first_least (rectangular : t.Rectangular) (wide : 0 < t.rhsColumn) (ε : Rat) :
    (∃ c optimal, t.entering = .ok c ∧ t.isOptimal ε = .ok optimal ∧
      IsFirstLeast (t.get 0) t.rhsColumn c ∧ (optimal = false ↔ t.get 0 c < -ε)) ∧
    (∀ c < t.width, ∃ free choice, t.isUnbounded ε c = .ok free ∧ t.leaving ε c = .ok choice ∧
      (choice = none ↔ free = true) ∧
      ∀ r ∈ choice, IsFirstRatio (t.get · c) (t.get · t.rhsColumn) ε t.height r) ∧
    ∀ limit fuel, (t.run ε limit fuel).ending ≠ .blocked ∧
      ∀ before e after, (t.run ε limit fuel).exchanges = before ++ e :: after →
        ∃ u next x, t.Performs ε before u ∧ u.pivot e.row e.column = .ok next ∧
          u.entry e.row e.column = .ok x ∧ ε < x := by
  have sized := rectangular.sized (wide.trans_le (Nat.sub_le t.width 1))
  refine ⟨sized.entering_spec wide ε, fun c inside => ?_, fun limit fuel => ⟨?_, ?_⟩⟩
  · rw [sized.width] at inside
    rw [sized.height]
    exact sized.leaving_spec (Nat.lt_succ_iff.1 inside) ε
  · obtain ⟨reaches, justified⟩ := runFrom_spec ε limit 0 fuel t
    exact ((sized.of_reaches reaches).ends justified).notBlocked
  · intro before e after exchanges
    have performs := performs_run (ε := ε) t limit fuel
    rw [exchanges] at performs
    obtain ⟨u, next, reached, move, _⟩ := performs.split
    obtain ⟨pivots, x, entry, large⟩ := (sized.of_reaches reached.reaches).entry_of_move move
    exact ⟨u, next, x, reached, pivots, entry, large⟩

/-- Two columns share the least cost and two rows the least ratio, and an entry of the last
row is as large as the tolerance. -/
def tied : Tableau Rat := ⟨[[1, -4, -4, 0], [0, 2, 1, 4], [1, 1, 0, 2], [0, 1 / 10 ^ 9, 1, 0]]⟩

/-- The first of the equal columns enters and the first of the equal rows leaves. -/
theorem tied_selection : tied.Rectangular ∧ 0 < tied.rhsColumn ∧
    tied.entering = .ok 1 ∧ IsFirstLeast (tied.get 0) 3 1 ∧ tied.get 0 1 < -(1 / 10 ^ 9) ∧
    tied.leaving (1 / 10 ^ 9) 1 = .ok (some 1) ∧
    IsFirstRatio (tied.get · 1) (tied.get · 3) (1 / 10 ^ 9) 4 1 ∧
    (tied.run (1 / 10 ^ 9) none 9).ending ≠ .blocked := by
  have rectangular : tied.Rectangular := by decide
  have wide : 0 < tied.rhsColumn := by decide
  have enters : tied.entering = .ok 1 := by decide +kernel
  have improvable : tied.isOptimal (1 / 10 ^ 9) = .ok false := by decide +kernel
  have leaves : tied.leaving (1 / 10 ^ 9) 1 = .ok (some 1) := by decide +kernel
  obtain ⟨⟨c, optimal, entering, tested, first, negative⟩, columns, runs⟩ :=
    selects_first_least rectangular wide (1 / 10 ^ 9)
  obtain rfl : 1 = c := Except.ok.inj (enters.symm.trans entering)
  obtain rfl : false = optimal := Except.ok.inj (improvable.symm.trans tested)
  obtain ⟨_, choice, _, leaving, _, ratio⟩ := columns 1 (by decide)
  obtain rfl : some 1 = choice := Except.ok.inj (leaves.symm.trans leaving)
  exact ⟨rectangular, wide, enters, first, negative.1 rfl, leaves, ratio 1 rfl, (runs none 9).1⟩

end LinearProgram.Tableau
