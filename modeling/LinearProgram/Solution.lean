import LinearProgram.Model
import LinearProgram.Tableau.Basic

/-!
# Solutions

The answer to a model. Values are there exactly when the model is feasible and
bounded; the tableaus show where phase two began and where solving ended.
-/

namespace LinearProgram

inductive Status where
  | optimal
  | infeasible
  | unbounded
  deriving DecidableEq

def Status.name : Status → String
  | optimal => "Optimal"
  | infeasible => "Infeasible"
  | unbounded => "Unbounded"

/-- `columns` holds the value of every column, the model's variables first. When
the model is infeasible, both tableaus are the last one of phase one. -/
structure Solution (α : Type) where
  model : Model α
  columns : Option (List α)
  isFeasible : Bool
  isBounded : Bool
  initialTableau : Tableau α
  finalTableau : Tableau α

namespace Solution

variable {α : Type}

def optimal (m : Model α) (columns : List α) (first last : Tableau α) : Solution α :=
  ⟨m, some columns, true, true, first, last⟩

def infeasible (m : Model α) (first last : Tableau α) : Solution α :=
  ⟨m, none, false, true, first, last⟩

def unbounded (m : Model α) (first last : Tableau α) : Solution α :=
  ⟨m, none, true, false, first, last⟩

def status (s : Solution α) : Status :=
  if !s.isFeasible then .infeasible else if !s.isBounded then .unbounded else .optimal

def hasAssignment (s : Solution α) : Bool := s.columns.isSome

/-- Values of the model's own variables. -/
def assignment (s : Solution α) : Option (List α) :=
  s.columns.map (List.take s.model.vars.length)

/-- Value of the variable with the given index. -/
def value (s : Solution α) (index : Nat) : Option α := do
  (← s.assignment)[index]?

/-- Value of the model's objective in its own sense. -/
def objectiveValue [Scalar α] (s : Solution α) : Option α := do
  let values ← s.assignment
  s.model.objective.map fun o => o.eval values

end Solution

end LinearProgram
