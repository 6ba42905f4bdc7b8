import LinearProgram.Tableau.Basic

/-!
# Selection of the pivot

Which column enters the basis and which row leaves it:

* `entering`: the most negative reduced cost, lowest column on ties;
* `leaving`: the least ratio of right-hand side to a positive entry, lowest row
  on ties, and `none` when no entry is positive.

Positive and negative are meant beyond the tolerance.
-/

namespace LinearProgram.Tableau

variable {α : Type} [Scalar α]

/-- No reduced cost is negative. -/
def isOptimal (tolerance : α) (t : Tableau α) : Except Fault Bool := do
  .ok ((← t.reducedCosts).all fun cost => -tolerance ≤ cost)

/-- Position of the least number from `next` on that is below `least`, or `found`. -/
def leastIndexFrom (least : α) (found next : Nat) : List α → Nat
  | [] => found
  | x :: xs =>
    if x < least then leastIndexFrom x next (next + 1) xs
    else leastIndexFrom least found (next + 1) xs

/-- Position of the least number, the first of equal ones. -/
def leastIndex : List α → Nat
  | [] => 0
  | x :: xs => leastIndexFrom x 0 1 xs

def entering (t : Tableau α) : Except Fault Nat := do
  .ok (leastIndex (← t.reducedCosts))

/-- No constraint row limits the growth of the column. -/
def isUnbounded (tolerance : α) (t : Tableau α) (column : Nat) : Except Fault Bool := do
  let _ ← t.row 0
  .ok ((← t.constraintRows.mapM (cell · column)).all fun x => x ≤ tolerance)

/-- The row of the least ratio from `next` on that is below the best so far.
Each item is the entry and the right-hand side of a row. -/
def ratioTest (tolerance : α) (best : Option (α × Nat)) (next : Nat) : List (α × α) → Option Nat
  | [] => best.map Prod.snd
  | (x, rhs) :: rest =>
    if x ≤ tolerance then ratioTest tolerance best (next + 1) rest
    else
      match best with
      | none => ratioTest tolerance (some (rhs / x, next)) (next + 1) rest
      | some (least, row) =>
        if least ≤ rhs / x then ratioTest tolerance (some (least, row)) (next + 1) rest
        else ratioTest tolerance (some (rhs / x, next)) (next + 1) rest

def leaving (tolerance : α) (t : Tableau α) (column : Nat) : Except Fault (Option Nat) := do
  let candidates ← t.constraintRows.mapM fun r => do
    .ok (← cell r column, ← cell r t.rhsColumn)
  .ok (ratioTest tolerance none 1 candidates)

end LinearProgram.Tableau
