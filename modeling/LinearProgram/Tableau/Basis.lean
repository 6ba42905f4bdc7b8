import LinearProgram.Tableau.Basic

/-!
# The basis of a tableau

The basis is read off the columns, not stored. A column is basic in a constraint
row when it is a unit column of the whole table, objective row included, with
its one in that row:

* `basis`: the basic column of every constraint row, the last one if several
  qualify;
* `assignment`: basic columns take the right-hand side of their row, all others
  zero.
-/

namespace LinearProgram.Tableau

variable {α : Type} [Scalar α]

def column (t : Tableau α) (j : Nat) : Except Fault (List α) := t.rows.mapM (cell · j)

/-- Least and greatest number and the sum, as far as they go on from given ones. -/
def spread (least greatest total : α) : List α → α × α × α
  | [] => (least, greatest, total)
  | x :: xs =>
    spread (if x < least then x else least) (if greatest < x then x else greatest) (total + x) xs

/-- A unit column has least number zero, greatest number one and sum one. -/
def isUnit (tolerance : α) : List α → Bool
  | [] => false
  | x :: xs =>
    let (least, greatest, total) := spread x x (0 + x) xs
    near tolerance least 0 && near tolerance greatest 1 && near tolerance total 1

/-- The row of the one in a unit column. -/
def unitRow (tolerance : α) (column : List α) : Option Nat :=
  if isUnit tolerance column then column.findIdx? fun x => near tolerance x 1 else none

/-- The row of the one in every column that is a unit column. -/
def unitRows (tolerance : α) (t : Tableau α) : Except Fault (List (Option Nat)) := do
  .ok ((← (List.range t.rhsColumn).mapM t.column).map (unitRow tolerance))

/-- The last column whose one is in the given row. -/
def basicColumn (units : List (Option Nat)) (row : Nat) : Option Nat :=
  ((units.zipIdx.filter fun unit => unit.1 == some row).getLast?).map Prod.snd

/-- Basic column of every constraint row, if it has one. -/
def basis (tolerance : α) (t : Tableau α) : Except Fault (List (Option Nat)) := do
  let units ← t.unitRows tolerance
  .ok ((List.range (t.height - 1)).map fun i => basicColumn units (i + 1))

/-- Gives every basic column the right-hand side of its row. -/
def settle (rhsColumn : Nat) : List (Option Nat × List α) → List α → Except Fault (List α)
  | [], values => .ok values
  | (none, _) :: rest, values => settle rhsColumn rest values
  | (some column, row) :: rest, values => do
    settle rhsColumn rest (values.set column (← cell row rhsColumn))

/-- Values of all columns in the basic solution. -/
def assignment (tolerance : α) (t : Tableau α) : Except Fault (List α) := do
  let basic ← t.basis tolerance
  settle t.rhsColumn (basic.zip t.constraintRows) (List.replicate t.rhsColumn 0)

end LinearProgram.Tableau
