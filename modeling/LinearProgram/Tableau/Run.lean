import LinearProgram.Tableau.Pivot
import LinearProgram.Tableau.Selection

/-!
# The pivot loop

A run repeats the selected pivot until no reduced cost is negative or a column
can grow without bound. Nothing guards against cycling except the limit, so a
run also takes fuel:

* `move`: what the selection rules say about one tableau;
* `run`: the moves made, the last tableau, and why the run ended there.
-/

namespace LinearProgram

/-- One pivot: the column that enters, its reduced cost, the row that leaves. -/
structure Exchange (α : Type) where
  column : Nat
  cost : α
  row : Nat

/-- What can be done with a tableau. -/
inductive Move (α : Type) where
  | optimal
  | unbounded (column : Nat)
  | blocked
  | pivot (exchange : Exchange α) (next : Tableau α)

/-- Why a run ended. -/
inductive Ending where
  | optimal
  | unbounded (column : Nat)
  | blocked
  | limitReached (limit : Nat)
  | unfinished
  | fault (cause : Fault)
  deriving DecidableEq

structure Run (α : Type) where
  exchanges : List (Exchange α)
  last : Tableau α
  ending : Ending

namespace Run

variable {α : Type}

/-- The run that has only arrived at a tableau. -/
def here (t : Tableau α) (ending : Ending) : Run α := ⟨[], t, ending⟩

/-- The run with one more pivot in front. -/
def cons (e : Exchange α) (r : Run α) : Run α := { r with exchanges := e :: r.exchanges }

/-- Number of pivots performed. -/
def length (r : Run α) : Nat := r.exchanges.length

end Run

namespace Tableau

variable {α : Type} [Scalar α]

def move (tolerance : α) (t : Tableau α) : Except Fault (Move α) := do
  if ← t.isOptimal tolerance then
    .ok .optimal
  else
    let column ← t.entering
    if ← t.isUnbounded tolerance column then
      .ok (.unbounded column)
    else
      match ← t.leaving tolerance column with
      | none => .ok .blocked
      | some row => .ok (.pivot ⟨column, ← t.entry 0 column, row⟩ (← t.pivot row column))

/-- Whether a limit forbids one more pivot after `count` of them. -/
def reached (limit : Option Nat) (count : Nat) : Option Nat := limit.filter (· ≤ count)

/-- The run that continues after `count` pivots. -/
def runFrom (tolerance : α) (limit : Option Nat) (count : Nat) : (fuel : Nat) → Tableau α → Run α
  | 0, t => .here t .unfinished
  | fuel + 1, t =>
    match t.move tolerance with
    | .error cause => .here t (.fault cause)
    | .ok .optimal => .here t .optimal
    | .ok (.unbounded column) => .here t (.unbounded column)
    | .ok .blocked => .here t .blocked
    | .ok (.pivot exchange next) =>
      match reached limit count with
      | some n => .here t (.limitReached n)
      | none => (runFrom tolerance limit (count + 1) fuel next).cons exchange

/-- Pivots until the tableau is optimal or unbounded, at most `limit` times when
there is a limit, and at most as often as there is fuel. -/
def run (tolerance : α) (limit : Option Nat) (fuel : Nat) (t : Tableau α) : Run α :=
  runFrom tolerance limit 0 fuel t

end Tableau

end LinearProgram
