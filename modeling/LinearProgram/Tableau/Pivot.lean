import LinearProgram.Tableau.Basic

/-!
# Elimination

Rows are combined so that a column becomes a unit column:

* `pivot` makes one column a unit column of a given row;
* `canonicalize` clears the reduced costs of basic columns and touches no
  constraint row.
-/

namespace LinearProgram.Tableau

variable {α : Type} [Scalar α]

/-- `row` less `factor` times `source`. -/
def subtractMultiple (factor : α) (source row : List α) : List α :=
  List.zipWith (fun x p => x - factor * p) row source

/-- Clears a column of `row` with a row that has a one there. A row that has a
zero there is left alone. -/
def clear (column : Nat) (source row : List α) : Except Fault (List α) := do
  let factor ← cell row column
  .ok (if factor == 0 then row else subtractMultiple factor source row)

/-- Makes `column` a unit column with its one in row `i`. -/
def pivot (t : Tableau α) (i column : Nat) : Except Fault (Tableau α) := do
  let chosen ← t.row i
  let divisor ← cell chosen column
  let scaled := chosen.map (· / divisor)
  let rows ← t.rows.zipIdx.mapM fun (r, k) =>
    if k = i then .ok scaled else clear column scaled r
  .ok ⟨rows⟩

/-- Clears the listed columns of the objective row, one after the other. Each
comes with the position of the constraint row it is basic in. Columns outside
the variables are skipped, and so are numbers within the tolerance of zero. -/
def reduceCosts (tolerance : α) (constraints : List (List α)) (rhsColumn : Nat) :
    List (Option Nat × Nat) → List α → Except Fault (List α)
  | [], costs => .ok costs
  | (none, _) :: rest, costs => reduceCosts tolerance constraints rhsColumn rest costs
  | (some column, i) :: rest, costs =>
    if rhsColumn ≤ column then reduceCosts tolerance constraints rhsColumn rest costs
    else do
      let factor ← cell costs column
      if magnitude factor ≤ tolerance then
        reduceCosts tolerance constraints rhsColumn rest costs
      else
        let source ← orFault constraints[i]? (.noRow (i + 1))
        reduceCosts tolerance constraints rhsColumn rest (subtractMultiple factor source costs)

/-- Re-expresses the objective row against a basis, so that it holds the reduced
costs of that basis. -/
def canonicalize (tolerance : α) (t : Tableau α) (basis : List (Option Nat)) :
    Except Fault (Tableau α) :=
  match t.rows with
  | [] => .ok t
  | costs :: constraints => do
    .ok ⟨(← reduceCosts tolerance constraints t.rhsColumn basis.zipIdx costs) :: constraints⟩

end LinearProgram.Tableau
