import LinearProgram.Fault
import LinearProgram.Scalar

/-!
# Tableaus

The table of a maximisation problem. Row 0 is the objective row: the reduced
costs, then the value of the objective. The rows after it are the constraints:
coefficients, then the right-hand side.

* `ofRows` accepts exactly the rectangular tables;
* readings (`entry`, `reducedCosts`, `objectiveValue`, `rightSides`) fault past
  the end;
* `withoutColumns`, `removeRow`, `setObjectiveRow` change its shape or row 0.
-/

namespace LinearProgram

structure Tableau (α : Type) where
  rows : List (List α)
  deriving BEq

namespace Tableau

variable {α : Type}

def height (t : Tableau α) : Nat := t.rows.length

/-- Length of row 0, which is the length of every row of a rectangular table. -/
def width (t : Tableau α) : Nat := (t.rows.headD []).length

/-- Position of the right-hand side in every row, and the number of variables. -/
def rhsColumn (t : Tableau α) : Nat := t.width - 1

def constraintRows (t : Tableau α) : List (List α) := t.rows.tail

/-- All rows have the same length. -/
def Rectangular (t : Tableau α) : Prop := ∀ r ∈ t.rows, r.length = t.width

instance (t : Tableau α) : Decidable t.Rectangular :=
  inferInstanceAs (Decidable (∀ r ∈ t.rows, _))

def ofRows (rows : List (List α)) : Except Fault (Tableau α) :=
  if Rectangular ⟨rows⟩ then .ok ⟨rows⟩ else .error .raggedRows

/-- One number of a row. -/
def cell (row : List α) (column : Nat) : Except Fault α := orFault row[column]? (.noColumn column)

def row (t : Tableau α) (i : Nat) : Except Fault (List α) := orFault t.rows[i]? (.noRow i)

def entry (t : Tableau α) (i column : Nat) : Except Fault α := do
  cell (← t.row i) column

/-- The objective row without its last number. -/
def reducedCosts (t : Tableau α) : Except Fault (List α) := do
  .ok ((← t.row 0).take t.rhsColumn)

/-- Current value of the maximised objective. -/
def objectiveValue (t : Tableau α) : Except Fault α := t.entry 0 t.rhsColumn

/-- Right-hand sides of the constraint rows. -/
def rightSides (t : Tableau α) : Except Fault (List α) := do
  let _ ← t.row 0
  t.constraintRows.mapM (cell · t.rhsColumn)

/-- The items of a list whose positions are not listed. -/
def dropPositions (positions : List Nat) (xs : List α) : List α :=
  (xs.zipIdx.filter fun x => !positions.contains x.2).map Prod.fst

def withoutColumns (t : Tableau α) (columns : List Nat) : Except Fault (Tableau α) :=
  ofRows (t.rows.map (dropPositions columns))

/-- Drops a constraint row; row 0 stays. -/
def removeRow (t : Tableau α) (i : Nat) : Tableau α :=
  if i = 0 then t else ⟨t.rows.eraseIdx i⟩

def setObjectiveRow (t : Tableau α) (objective : List α) : Except Fault (Tableau α) :=
  match t.rows with
  | [] => .error (.noRow 0)
  | old :: rest =>
    if objective.length = old.length then .ok ⟨objective :: rest⟩
    else .error (.widthMismatch objective.length old.length)

end Tableau

end LinearProgram
