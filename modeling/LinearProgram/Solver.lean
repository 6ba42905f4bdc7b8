import LinearProgram.PhaseOne
import LinearProgram.Solution

/-!
# The two-phase solver

`Solver.solve` brings a model into standard form, finds a feasible tableau and
optimises it:

* `start`: the first feasible tableau, from the slacks or through phase one, or
  the tableau that proves there is none;
* `optimize`: one run of the pivot loop, its limit being the solver's;
* `Encoding`: problems that have a model, solved by `solveEncoded`.
-/

namespace LinearProgram

/-- Why solving gave no solution. -/
inductive Failure where
  | model (cause : ModelError)
  | iterationLimit (limit : Nat)
  | fault (cause : Fault)
  | unfinished
  deriving DecidableEq

def Failure.message : Failure → String
  | model cause => cause.message
  | iterationLimit limit =>
    "Simplex did not terminate within " ++ toString limit ++ " pivots"
  | fault cause => cause.message
  | unfinished => "Simplex ran out of fuel"

/-- `limit` is the greatest number of pivots in one phase. -/
structure Solver (α : Type) where
  tolerance : α
  limit : Option Nat := none

/-- The floating-point solver, with or without a limit. -/
def Solver.standard (limit : Option Nat) : Solver Float := ⟨standardTolerance, limit⟩

/-- How an optimisation that came to an end did so. -/
inductive Verdict (α : Type) where
  | optimal (last : Tableau α)
  | unbounded (last : Tableau α)

/-- Where phase two starts, or why it does not. -/
inductive Start (α : Type) where
  | feasible (first : Tableau α)
  | infeasible (last : Tableau α)

/-- A problem that can be stated as a linear program. -/
class Encoding (π : Type) (α : outParam Type) where
  toModel : π → Except ModelError (Model α)

instance {α : Type} : Encoding (Blueprint α) α := ⟨Blueprint.toModel⟩

variable {α : Type}

/-- A traced computation of a solver. -/
abbrev Solving (α β : Type) := Traced (Event α) Failure β

def Solving.ofModel {β : Type} (r : Except ModelError β) : Solving α β :=
  .ofExcept (r.mapError .model)

def Solving.ofTable {β : Type} (r : Except Fault β) : Solving α β :=
  .ofExcept (r.mapError .fault)

/-- What the end of a run means to a solver. -/
def Run.verdict (r : Run α) : Except Failure (Verdict α) :=
  match r.ending with
  | .optimal => .ok (.optimal r.last)
  | .unbounded _ | .blocked => .ok (.unbounded r.last)
  | .limitReached limit => .error (.iterationLimit limit)
  | .unfinished => .error .unfinished
  | .fault cause => .error (.fault cause)

namespace Solver

variable [Scalar α]

def optimize (solver : Solver α) (fuel : Nat) (t : Tableau α) : Solving α (Verdict α) := do
  let run := t.run solver.tolerance solver.limit fuel
  .notes run.events
  .ofExcept run.verdict

/-- The sum of the artificial variables is never negative, so an unbounded
verdict on it can only come from rounding and counts as infeasible. -/
def start (solver : Solver α) (fuel : Nat) (s : StandardForm α) : Solving α (Start α) :=
  if s.needsPhaseOne then do
    let p := s.phaseOne
    .note (.phaseOne p.artificials.size)
    let first ← Solving.ofTable (p.initialTableau solver.tolerance)
    match ← solver.optimize fuel first with
    | .unbounded last => pure (.infeasible last)
    | .optimal last =>
      if ← Solving.ofTable (p.artificialsPositive solver.tolerance last) then
        pure (.infeasible last)
      else
        let restored ← (p.restore solver.tolerance s last).mapError .fault
        pure (.feasible restored)
  else do
    pure (.feasible (← Solving.ofTable s.tableau))

/-- Solves a model in two phases, each with the given fuel. -/
def solve (solver : Solver α) (fuel : Nat) (m : Model α) : Solving α (Solution α) := do
  Solving.ofModel m.validate
  let s ← Solving.ofTable m.standardForm
  .note (.augmented m.name s.model.vars.length s.model.constraints.length s.slacks.size
    s.surpluses.size)
  match ← solver.start fuel s with
  | .infeasible last =>
    .note (.infeasible m.name)
    pure (.infeasible m last last)
  | .feasible first =>
    match ← solver.optimize fuel first with
    | .unbounded last =>
      .note (.unbounded m.name)
      pure (.unbounded m first last)
    | .optimal last =>
      let columns ← Solving.ofTable (last.assignment solver.tolerance)
      .note (.solved m.name (← Solving.ofTable last.objectiveValue))
      pure (.optimal m columns first last)

def solveEncoded {π : Type} [Encoding π α] (solver : Solver α) (fuel : Nat) (problem : π) :
    Solving α (Solution α) := do
  solver.solve fuel (← Solving.ofModel (Encoding.toModel problem))

end Solver

/-- Solves a model with the floating-point solver and no limit. -/
def Model.solve (m : Model Float) (fuel : Nat) : Solving Float (Solution Float) :=
  (Solver.standard none).solve fuel m

end LinearProgram
