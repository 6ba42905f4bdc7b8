import Mathlib
import LinearProgram.Proofs.Reversal

/-!
# Reduced costs of a basis

Clearing the costs of a basis goes through its columns one after the other and reads every
cost from a row 0 that has already changed. Where the columns are unit columns of the
constraint rows, it still is the cost from the start, and nothing that is cleared comes back.

* `reduceCosts_of_outside`: columns outside the variables are skipped;
* `constraintRows_canonicalize`: the constraint rows stay, whatever is listed;
* `Sized.canonicalize_factors`: by what multiples of the constraint rows row 0 changes;
* `canonicalize_clears_listed`: all of it for every rectangular table; `crossedCosts_cleared`
  for one, with a cost that is within the tolerance and stays.
-/

namespace LinearProgram.Tableau

section Lists

variable {α : Type} [Scalar α] {t u : Tableau α} {ε : α} {basis : List (Option Nat)}

theorem reduceCosts_of_outside {constraints : List (List α)} {n : Nat}
    {items : List (Option Nat × Nat)} (outside : ∀ e ∈ items, ∀ c ∈ e.1, n ≤ c)
    (costs : List α) : reduceCosts ε constraints n items costs = .ok costs := by
  induction items with
  | nil => rfl
  | cons e rest ih =>
    obtain ⟨first, later⟩ := List.forall_mem_cons.1 outside
    obtain ⟨basic, i⟩ := e
    cases basic with
    | none => exact ih later
    | some c =>
      rw [reduceCosts, if_pos (first c rfl)]
      exact ih later

omit [Scalar α] in
theorem rhsColumn_le_of_narrow (narrow : t.width = 0) (c : Nat) : t.rhsColumn ≤ c := by
  rw [rhsColumn, narrow]
  exact Nat.zero_le c

theorem canonicalize_of_narrow (narrow : t.width = 0) (ε : α) (basis : List (Option Nat)) :
    t.canonicalize ε basis = .ok t := by
  have outside := rhsColumn_le_of_narrow narrow
  obtain ⟨rows⟩ := t
  cases rows with
  | nil => rfl
  | cons costs constraints =>
    simp only [canonicalize]
    rw [reduceCosts_of_outside fun _ _ c _ => outside c]
    rfl

theorem constraintRows_canonicalize (h : t.canonicalize ε basis = .ok u) :
    u.constraintRows = t.constraintRows := by
  obtain ⟨rows⟩ := t
  cases rows with
  | nil =>
    obtain rfl : _ = u := Except.ok.inj h
    rfl
  | cons costs constraints =>
    obtain ⟨reduced, _, made⟩ := bind_eq_ok.1 h
    obtain rfl : _ = u := Except.ok.inj made
    rfl

end Lists

variable {t u : Tableau Rat} {m n : Nat} {ε : Rat} {basis : List (Option Nat)}

/-- Each cost is read from a row that has already lost others, but the rows that were taken off
before have zeros in its column. So it is still the cost from the start. -/
theorem Sized.canonicalize_factors (sized : t.Sized m n) (short : basis.length ≤ m)
    (h : t.canonicalize ε basis = .ok u)
    (units : ∀ i c, basis[i]? = some (some c) → c < n →
      ∀ k < m, t.get (k + 1) c = if k = i then 1 else 0) :
    ∃ factor : Nat → Rat,
      (∀ i, factor i ≠ 0 → ∃ c < n, basis[i]? = some (some c) ∧ factor i = t.get 0 c ∧
        ε < |t.get 0 c|) ∧
      ∀ j, u.get 0 j = t.get 0 j - ∑ i ∈ Finset.range m, factor i * t.get (i + 1) j := by
  obtain ⟨_, _, factor, fromListed, sums⟩ := sized.get_canonicalize short h
  refine ⟨factor, ?_, sums⟩
  intro i nonzero
  obtain ⟨c, hc, listed⟩ := fromListed i nonzero
  have unit := units i c listed hc
  have inside : i < m := (List.getElem?_eq_some_iff.1 listed).1.trans_le short
  -- In its own unit column, no other row takes anything off.
  have lost : u.get 0 c = t.get 0 c - factor i := by
    rw [sums, sum_unit_column unit, if_pos inside]
  have left := sized.get_canonicalize_listed short h listed hc unit
  rw [lost] at left
  split at left
  · exact absurd (sub_eq_self.1 left) nonzero
  · rename_i large
    exact ⟨c, hc, listed, (sub_eq_zero.1 left).symm, not_le.1 large⟩

/-- For a basis of unit columns of the constraint rows, clearing the costs succeeds and touches
row 0 only. It leaves at most the tolerance in every listed column, and takes off multiples of
listed constraint rows, right-hand side included, so that a point with a value of the objective
satisfies all rows afterwards exactly if it did before. -/
theorem canonicalize_clears_listed (rectangular : t.Rectangular) (nonneg : 0 ≤ ε)
    (short : basis.length ≤ t.height - 1)
    (units : ∀ i c, basis[i]? = some (some c) → c < t.rhsColumn →
      ∀ k < t.height - 1, t.get (k + 1) c = if k = i then 1 else 0) :
    ∃ u, t.canonicalize ε basis = .ok u ∧ u.Rectangular ∧
      u.height = t.height ∧ u.width = t.width ∧ u.constraintRows = t.constraintRows ∧
      (∀ i c : Nat, basis[i]? = some (some c) → c < t.rhsColumn →
        |u.get 0 c| ≤ ε ∧ (ε = 0 → u.get 0 c = 0)) ∧
      (∃ factor : Nat → Rat,
        (∀ i, factor i ≠ 0 → ∃ c < t.rhsColumn, basis[i]? = some (some c) ∧
          factor i = t.get 0 c ∧ ε < |t.get 0 c|) ∧
        ∀ j, u.get 0 j =
          t.get 0 j - ∑ i ∈ Finset.range (t.height - 1), factor i * t.get (i + 1) j) ∧
      ∀ z x, u.Admits z x ↔ t.Admits z x := by
  rcases Nat.eq_zero_or_pos t.width with narrow | wide
  · -- There is no right-hand side either, so no sizes to be read off.
    refine ⟨t, canonicalize_of_narrow narrow ε basis, rectangular, rfl, rfl, rfl, ?_,
      ⟨fun _ => 0, ?_, ?_⟩, fun z x => Iff.rfl⟩
    · intro i c _ inside
      exact absurd inside (not_lt.2 (rhsColumn_le_of_narrow narrow c))
    · intro i nonzero
      exact absurd rfl nonzero
    · intro j
      simp
  · have sized := rectangular.sized wide
    obtain ⟨u, _, cleared, sized', _⟩ := sized.canonicalize ε short
    refine ⟨u, cleared, sized'.rectangular, sized'.height.trans sized.height.symm,
      sized'.width.trans sized.width.symm, constraintRows_canonicalize cleared, ?_,
      sized.canonicalize_factors short cleared units, ?_⟩
    · intro i c listed inside
      have small := sized.canonicalize_clears nonneg short cleared listed inside
        (units i c listed inside)
      refine ⟨small, ?_⟩
      intro exactly
      rwa [exactly, abs_nonpos_iff] at small
    · intro z x
      have same := sized.equivalent_canonicalize short cleared
      exact (same.admits_iff sized sized').symm

/-- The columns listed for the first and the third constraint row cost more than a tenth, the one
listed for the fourth costs less, and none is listed for the second. -/
def crossedCosts : Tableau Rat :=
  ⟨[[-3, -1, 1/20, 2, 0], [0, 1, 0, 5, 4], [0, 0, 0, 1, 9], [1, 0, 0, -2, 6], [0, 0, 1, 7, 8]]⟩

/-- The first row is added once and the third one three times. The cost of one twentieth stays. -/
theorem crossedCosts_cleared : crossedCosts.Rectangular ∧ ∃ u,
    crossedCosts.canonicalize (1/10) [some 1, none, some 0, some 2] = .ok u ∧
      u.rows = [0, 0, 1/20, 1, 22] :: crossedCosts.constraintRows ∧
      |u.get 0 2| ≤ 1/10 ∧ u.get 0 2 ≠ 0 ∧ ∀ z x, u.Admits z x ↔ crossedCosts.Admits z x := by
  have rectangular : crossedCosts.Rectangular := by decide
  have units : ∀ i < 4, ∀ c < 4, [some 1, none, some 0, some 2][i]? = some (some c) →
      ∀ k < 4, crossedCosts.get (k + 1) c = if k = i then 1 else 0 := by decide +kernel
  have short : [some 1, none, some 0, some 2].length ≤ crossedCosts.height - 1 := by decide
  obtain ⟨u, cleared, _, _, _, _, small, _, admits⟩ := canonicalize_clears_listed (ε := 1/10)
    rectangular (by norm_num) short fun i c listed inside =>
      units i (List.getElem?_eq_some_iff.1 listed).1 c inside listed
  obtain ⟨u', cleared', rows⟩ := exists_ok_of_map
    (x := crossedCosts.canonicalize (1/10) [some 1, none, some 0, some 2]) (f := Tableau.rows)
    (c := [0, 0, 1/20, 1, 22] :: crossedCosts.constraintRows) (by decide +kernel)
  obtain rfl : u = u' := Except.ok.inj (cleared.symm.trans cleared')
  have left : u.get 0 2 = 1/20 := by
    rw [get, line, rows]
    rfl
  refine ⟨rectangular, u, cleared, rows, (small 3 2 rfl (by decide)).1, ?_, admits⟩
  rw [left]
  norm_num

end LinearProgram.Tableau
