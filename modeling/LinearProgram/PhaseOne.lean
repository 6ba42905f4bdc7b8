import LinearProgram.Event
import LinearProgram.StandardForm
import LinearProgram.Tableau.Basis
import LinearProgram.Tableau.Pivot
import LinearProgram.Traced

/-!
# Phase one

The auxiliary problem that finds a feasible basis. Every constraint without a
slack gets an artificial variable, and the sum of these is minimised:

* `initialTableau`: slacks and artificials form the basis;
* `artificialsPositive`: an artificial left positive proves infeasibility;
* `restore`: takes the artificials out of the basis and out of the table and
  puts the objective back, for phase two to start from.
-/

namespace LinearProgram

variable {α : Type} [Scalar α]

/-- The model with artificial variables and the constraint of each. -/
structure PhaseOne (α : Type) where
  model : Model α
  artificials : IndexMap

/-- Adds an artificial variable to every constraint without a slack. -/
def StandardForm.phaseOne (s : StandardForm α) : PhaseOne α :=
  let uncovered := (List.range s.model.constraints.length).filter fun i => !s.hasSlack i
  uncovered.foldl (fun p i =>
    let (model, v) := p.model.attach "R" i 1
    ⟨model, p.artificials.insert v i⟩) ⟨s.model, .empty⟩

namespace PhaseOne

/-- Cost one on every artificial variable. -/
def costs (p : PhaseOne α) : Except Fault (List α) :=
  p.artificials.keys.foldlM (fun costs v => setAt costs v 1 (.noColumn v))
    (List.replicate (p.model.vars.length + 1) 0)

/-- Every artificial variable in the row of its constraint. -/
def startBasis (p : PhaseOne α) : Except Fault (List (Option Nat)) :=
  p.artificials.entries.foldlM (fun basis (v, i) => setAt basis i (some v) (.noConstraint i))
    (List.replicate p.model.constraints.length none)

/-- The tableau that minimises the sum of the artificial variables, with all of
them basic. -/
def initialTableau (tolerance : α) (p : PhaseOne α) : Except Fault (Tableau α) := do
  let t ← Tableau.ofModel (← p.costs) p.model
  t.canonicalize tolerance (← p.startBasis)

/-- Some artificial variable is positive in the basic solution. -/
def artificialsPositive (tolerance : α) (p : PhaseOne α) (t : Tableau α) : Except Fault Bool := do
  let values ← t.assignment tolerance
  .ok (p.artificials.keys.any fun v =>
    match values[v]? with
    | some value => tolerance < value
    | none => false)

/-- Position of the number of greatest magnitude from `next` on, the first of
equal ones; excluded positions and numbers within the tolerance do not count. -/
def widest (tolerance : α) (excluded : Nat → Bool) (best : Option (Nat × α)) (next : Nat) :
    List α → Option Nat
  | [] => best.map Prod.fst
  | x :: xs =>
    let size := magnitude x
    if !excluded next && tolerance < size && best.all (fun b => b.2 < size) then
      widest tolerance excluded (some (next, size)) (next + 1) xs
    else
      widest tolerance excluded best (next + 1) xs

/-- Pivots every artificial variable out of the basis that has another column
in its row. The items are rows with their basic columns. The result lists the
rows that have no other column. -/
def driveOut (tolerance : α) (p : PhaseOne α) :
    List (Option Nat × Nat) → Tableau α → Traced (Event α) Fault (Tableau α × List Nat)
  | [], t => pure (t, [])
  | (basic, row) :: rest, t =>
    if basic.any p.artificials.contains then do
      let entries := (← .ofExcept (t.row row)).take t.rhsColumn
      match widest tolerance p.artificials.contains none 0 entries with
      | some column =>
        .note (.replacedArtificial row column)
        driveOut tolerance p rest (← .ofExcept (t.pivot row column))
      | none =>
        let (cleared, redundant) ← driveOut tolerance p rest t
        pure (cleared, row :: redundant)
    else driveOut tolerance p rest t

/-- Removes rows one after the other, in the given order. -/
def dropRows : List Nat → Tableau α → Traced (Event α) Fault (Tableau α)
  | [], t => pure t
  | row :: rest, t => do
    .note (.droppedRow row)
    dropRows rest (t.removeRow row)

/-- Where a column ends up when the removed ones are gone. -/
def renumber (removed : List Nat) (column : Nat) : Nat :=
  column - removed.countP (· < column)

/-- Turns an optimal tableau of phase one into a feasible one for the model in
standard form. Artificial variables that are basic at zero leave the basis,
redundant rows and artificial columns are dropped, and the real objective is
expressed against the basis that remains. -/
def restore (tolerance : α) (p : PhaseOne α) (s : StandardForm α) (t : Tableau α) :
    Traced (Event α) Fault (Tableau α) := do
  let rows := (← .ofExcept (t.basis tolerance)).zipIdx 1
  let (cleared, redundant) ← p.driveOut tolerance rows t
  let kept ← dropRows redundant.reverse cleared
  let removed := p.artificials.keys
  let basis := (← .ofExcept (kept.basis tolerance)).map fun basic =>
    (basic.filter fun column => !removed.contains column).map (renumber removed)
  let stripped ← .ofExcept (kept.withoutColumns removed)
  let priced ← .ofExcept (stripped.setObjectiveRow s.objectiveRow)
  .ofExcept (priced.canonicalize tolerance basis)

end PhaseOne

end LinearProgram
