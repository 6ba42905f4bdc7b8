/-!
# Faults

Looking past the end of a table, a row or a constraint list is a fault, and so
is a table that would not be rectangular or a row too long to be stored. A fault
is a value: nothing is read in place of what is missing.
-/

namespace LinearProgram

inductive Fault where
  | noRow (row : Nat)
  | noColumn (column : Nat)
  | noConstraint (index : Nat)
  | raggedRows
  | widthMismatch (width expected : Nat)
  | tooWide (width : Nat)
  deriving DecidableEq

def Fault.message : Fault → String
  | noRow row => "tableau has no row " ++ toString row
  | noColumn column => "row has no column " ++ toString column
  | noConstraint index => "model has no constraint " ++ toString index
  | raggedRows => "tableau rows must have the same length"
  | widthMismatch width expected =>
    "row of length " ++ toString width ++ " in a tableau of width " ++ toString expected
  | tooWide width => "no row can hold " ++ toString width ++ " numbers"

/-- What was looked up, or the fault when there is none. -/
def orFault {β : Type} (found : Option β) (fault : Fault) : Except Fault β :=
  match found with
  | some x => .ok x
  | none => .error fault

/-- Overwrites one position of a list. -/
def setAt {β : Type} (xs : List β) (i : Nat) (x : β) (fault : Fault) : Except Fault (List β) :=
  if i < xs.length then .ok (xs.set i x) else .error fault

end LinearProgram
