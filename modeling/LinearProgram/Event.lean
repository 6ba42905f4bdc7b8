import LinearProgram.Tableau.Run

/-!
# Events

What a solver reports on its way. An event is a value; its text is fixed here
except for how a number is written. The events of a run of the pivot loop are
read off the run.
-/

namespace LinearProgram

inductive Level where
  | debug
  | trace
  deriving DecidableEq

def Level.name : Level → String
  | debug => "DEBUG"
  | trace => "TRACE"

inductive Event (α : Type) where
  | augmented (model : String) (vars constraints slacks surpluses : Nat)
  | phaseOne (artificials : Nat)
  | pivot (count : Nat) (exchange : Exchange α)
  | unboundedColumn (column pivots : Nat)
  | optimal (pivots : Nat)
  | replacedArtificial (row column : Nat)
  | droppedRow (row : Nat)
  | infeasible (model : String)
  | unbounded (model : String)
  | solved (model : String) (value : α)

namespace Event

variable {α : Type}

def level : Event α → Level
  | pivot .. | replacedArtificial .. => .trace
  | _ => .debug

/-- A model's name in quotes. -/
def quoted (name : String) : String := "'" ++ name ++ "'"

def text (number : α → String) : Event α → String
  | augmented model vars constraints slacks surpluses =>
    "Augmented " ++ quoted model ++ ": " ++ toString vars ++ " variables, " ++
      toString constraints ++ " constraints (" ++ toString slacks ++ " slack, " ++
      toString surpluses ++ " surplus)"
  | phaseOne artificials => "Phase 1 with " ++ toString artificials ++ " artificial variables"
  | pivot count ⟨column, cost, row⟩ =>
    "Pivot " ++ toString count ++ ": column " ++ toString column ++ " (reduced cost " ++
      number cost ++ ") enters at row " ++ toString row
  | unboundedColumn column pivots =>
    "Column " ++ toString column ++ " is unbounded after " ++ toString pivots ++ " pivots"
  | optimal pivots => "Optimal after " ++ toString pivots ++ " pivots"
  | replacedArtificial row column =>
    "Degenerate artificial in row " ++ toString row ++ " replaced by column " ++ toString column
  | droppedRow row => "Dropping redundant constraint row " ++ toString row
  | infeasible model => quoted model ++ " is infeasible"
  | unbounded model => quoted model ++ " is unbounded"
  | solved model value => quoted model ++ " optimal with value " ++ number value

/-- The level, then the text. -/
def line (number : α → String) (e : Event α) : String := e.level.name ++ " " ++ e.text number

end Event

/-- The events of a run: its pivots, numbered from zero, and its verdict. -/
def Run.events {α : Type} (r : Run α) : List (Event α) :=
  r.exchanges.zipIdx.map (fun (e, count) => .pivot count e) ++
    match r.ending with
    | .optimal => [.optimal r.length]
    | .unbounded column => [.unboundedColumn column r.length]
    | _ => []

end LinearProgram
