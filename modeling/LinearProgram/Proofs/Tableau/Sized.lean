import Mathlib
import LinearProgram.Proofs.Outcome
import LinearProgram.Tableau.Basic

/-!
# Tables with known sizes

`Sized m n` says that a table has an objective row, `m` constraint rows and `n`
columns of variables before the right-hand side. Then no reading faults, and
every reading is said through `get`, which is total:

* `Rectangular.sized`: a rectangular table with a right-hand side has sizes;
* `Sized.row`, `Sized.entry`, `Sized.mapM_cell` and the lemmas after them read
  the parts of a table;
* `ofRows_eq_ok`, `Sized.setObjectiveRow` build one;
* `ext_get`: a sized table is given by its numbers.
-/

namespace LinearProgram.Tableau

variable {α : Type}

/-- `m` constraint rows over `n` variables, below an objective row. -/
structure Sized (t : Tableau α) (m n : Nat) : Prop where
  rows : t.rows.length = m + 1
  columns : ∀ r ∈ t.rows, r.length = n + 1

/-- Row `i`, empty past the end. -/
def line (t : Tableau α) (i : Nat) : List α := t.rows[i]?.getD []

/-- The number in row `i` and column `j`, zero past the end. -/
def get [Zero α] (t : Tableau α) (i j : Nat) : α := (t.line i)[j]?.getD 0

theorem cell_eq_ok [Zero α] {r : List α} {j : Nat} (h : j < r.length) :
    cell r j = .ok (r[j]?.getD 0) := by
  simp [cell, orFault, h]

theorem line_mem {t : Tableau α} {i : Nat} (h : i < t.rows.length) : t.line i ∈ t.rows := by
  simp [line, h]

theorem line_eq_nil {t : Tableau α} {i : Nat} (h : t.rows.length ≤ i) : t.line i = [] := by
  simp [line, h]

/-- A list is the list of its items by position. -/
theorem eq_map_range {β : Type} (xs : List β) (d : β) :
    xs = (List.range xs.length).map fun i => xs[i]?.getD d := by
  apply List.ext_getElem
  · simp
  · intro i h _
    simp [h]

theorem map_range_eq_some {β : Type} {f : Nat → β} {k i : Nat} {b : β} :
    ((List.range k).map f)[i]? = some b ↔ i < k ∧ f i = b := by
  by_cases h : i < k <;> simp [h]

/-- A rectangular table with a right-hand side in row 0 has sizes. -/
theorem Rectangular.sized {t : Tableau α} (rectangular : t.Rectangular) (wide : 0 < t.width) :
    t.Sized (t.height - 1) t.rhsColumn := by
  constructor
  · cases rows : t.rows with
    | nil => simp [width, rows] at wide
    | cons first rest => simp [height, rows]
  · intro r hr
    rw [rectangular r hr, rhsColumn]
    omega

namespace Sized

variable {t : Tableau α} {m n : Nat}

theorem headD (sized : t.Sized m n) : t.rows.headD [] = t.line 0 := by
  have := sized.rows
  cases h : t.rows with
  | nil => simp [h] at this
  | cons r rs => simp [line, h]

theorem line_length (sized : t.Sized m n) {i : Nat} (h : i ≤ m) : (t.line i).length = n + 1 :=
  sized.columns _ (line_mem (by rw [sized.rows]; omega))

theorem height (sized : t.Sized m n) : t.height = m + 1 := sized.rows

theorem width (sized : t.Sized m n) : t.width = n + 1 := by
  rw [Tableau.width, sized.headD, sized.line_length (Nat.zero_le m)]

theorem rhsColumn (sized : t.Sized m n) : t.rhsColumn = n := by
  rw [Tableau.rhsColumn, sized.width, Nat.add_sub_cancel]

theorem rectangular (sized : t.Sized m n) : t.Rectangular := by
  intro r hr
  rw [sized.width, sized.columns r hr]

theorem row (sized : t.Sized m n) {i : Nat} (h : i ≤ m) : t.row i = .ok (t.line i) := by
  have := sized.rows
  simp [Tableau.row, line, orFault, show i < t.rows.length by omega]

theorem rows_eq (sized : t.Sized m n) : t.rows = (List.range (m + 1)).map t.line := by
  conv_lhs => rw [eq_map_range t.rows [], sized.rows]
  rfl

theorem constraintRows (sized : t.Sized m n) :
    t.constraintRows = (List.range m).map fun i => t.line (i + 1) := by
  rw [Tableau.constraintRows, sized.rows_eq, List.range_succ_eq_map]
  simp

variable [Zero α]

theorem get_eq_zero (sized : t.Sized m n) {i j : Nat} (h : m < i ∨ n < j) : t.get i j = 0 := by
  by_cases hi : i ≤ m
  · have := sized.line_length hi
    simp [get, show (t.line i).length ≤ j by omega]
  · have := sized.rows
    simp [get, line_eq_nil (show t.rows.length ≤ i by omega)]

theorem line_eq (sized : t.Sized m n) {i : Nat} (h : i ≤ m) :
    t.line i = (List.range (n + 1)).map (t.get i) := by
  conv_lhs => rw [eq_map_range (t.line i) 0, sized.line_length h]
  rfl

theorem cell_line (sized : t.Sized m n) {i j : Nat} (hi : i ≤ m) (hj : j ≤ n) :
    cell (t.line i) j = .ok (t.get i j) :=
  cell_eq_ok (by rw [sized.line_length hi]; omega)

theorem entry (sized : t.Sized m n) {i j : Nat} (hi : i ≤ m) (hj : j ≤ n) :
    t.entry i j = .ok (t.get i j) := by
  rw [Tableau.entry, sized.row hi, ok_bind, sized.cell_line hi hj]

theorem objectiveValue (sized : t.Sized m n) : t.objectiveValue = .ok (t.get 0 n) := by
  rw [Tableau.objectiveValue, sized.rhsColumn, sized.entry (Nat.zero_le m) (Nat.le_refl n)]

theorem line_take (sized : t.Sized m n) {i : Nat} (h : i ≤ m) :
    (t.line i).take n = (List.range n).map (t.get i) := by
  rw [sized.line_eq h, ← List.map_take, List.take_range, Nat.min_eq_left (Nat.le_succ n)]

theorem reducedCosts (sized : t.Sized m n) :
    t.reducedCosts = .ok ((List.range n).map (t.get 0)) := by
  rw [Tableau.reducedCosts, sized.row (Nat.zero_le m), ok_bind, sized.rhsColumn,
    sized.line_take (Nat.zero_le m)]

theorem mapM_cell (sized : t.Sized m n) {j : Nat} (hj : j ≤ n) :
    t.constraintRows.mapM (cell · j) = .ok ((List.range m).map fun i => t.get (i + 1) j) := by
  rw [mapM_eq_ok (g := fun r => r[j]?.getD 0), sized.constraintRows, List.map_map]
  · rfl
  · intro r hr
    apply cell_eq_ok
    rw [sized.columns r (List.mem_of_mem_tail hr)]
    omega

theorem rightSides (sized : t.Sized m n) :
    t.rightSides = .ok ((List.range m).map fun i => t.get (i + 1) n) := by
  rw [Tableau.rightSides, sized.row (Nat.zero_le m), ok_bind, sized.rhsColumn,
    sized.mapM_cell (Nat.le_refl n)]

theorem setObjectiveRow (sized : t.Sized m n) {r : List α} (h : r.length = n + 1) :
    ∃ u, t.setObjectiveRow r = .ok u ∧ u.Sized m n ∧ (∀ j, u.get 0 j = r[j]?.getD 0) ∧
      ∀ i j, u.get (i + 1) j = t.get (i + 1) j := by
  have hrows := sized.rows
  cases ht : t.rows with
  | nil => simp [ht] at hrows
  | cons old rest =>
    have hold := sized.columns old (by simp [ht])
    refine ⟨⟨r :: rest⟩, by simp [Tableau.setObjectiveRow, ht, h, hold], ⟨?_, ?_⟩, ?_, ?_⟩
    · simpa [ht] using hrows
    · intro s hs
      rcases List.mem_cons.1 hs with rfl | hs
      · exact h
      · exact sized.columns s (by simp [ht, hs])
    · intro j
      simp [get, line]
    · intro i j
      simp [get, line, ht]

end Sized

/-- Two tables of one size with the same numbers are equal. -/
theorem ext_get [Zero α] {t u : Tableau α} {m n : Nat} (ht : t.Sized m n) (hu : u.Sized m n)
    (h : ∀ i j, i ≤ m → j ≤ n → t.get i j = u.get i j) : t = u := by
  obtain ⟨rows⟩ := t
  obtain ⟨rows'⟩ := u
  congr 1
  change Tableau.rows ⟨rows⟩ = Tableau.rows ⟨rows'⟩
  rw [ht.rows_eq, hu.rows_eq]
  apply List.map_congr_left
  intro i hi
  have hi : i ≤ m := Nat.lt_succ_iff.1 (List.mem_range.1 hi)
  rw [ht.line_eq hi, hu.line_eq hi]
  apply List.map_congr_left
  intro j hj
  exact h i j hi (Nat.lt_succ_iff.1 (List.mem_range.1 hj))

theorem ofRows_eq_ok {rows : List (List α)} {m n : Nat} (hrows : rows.length = m + 1)
    (hcolumns : ∀ r ∈ rows, r.length = n + 1) :
    ofRows rows = .ok ⟨rows⟩ ∧ Sized ⟨rows⟩ m n := by
  have sized : Sized ⟨rows⟩ m n := ⟨hrows, hcolumns⟩
  exact ⟨by simp [ofRows, sized.rectangular], sized⟩

end LinearProgram.Tableau
