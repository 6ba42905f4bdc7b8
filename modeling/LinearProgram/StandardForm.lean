import LinearProgram.IndexMap
import LinearProgram.Model
import LinearProgram.Tableau.Basic

/-!
# Standard form

A model in standard form maximises, has bounds that are not negative, and has
equations only. `Model.standardForm` brings a model there:

* a minimised objective and every constraint with a negative bound are negated;
* every upper bound gets a slack variable and every lower bound a surplus
  variable, all slacks before all surpluses, each in constraint order.

`Tableau.ofModel` writes the equations of a model below an objective row.
-/

namespace LinearProgram

variable {α : Type} [Scalar α]

/-- A model of equations, with the constraint every slack and every surplus
variable was added to. -/
structure StandardForm (α : Type) where
  model : Model α
  slacks : IndexMap
  surpluses : IndexMap

/-- Adds a new variable of the solver, times a coefficient, to one constraint. -/
def Model.attach (m : Model α) (label : String) (constraint : Nat) (coefficient : α) :
    Model α × Nat :=
  let (extended, v) := m.addAuxiliary label constraint
  ({ extended with
      constraints := extended.constraints.modify constraint fun c =>
        { c with form := c.form.addTerm v.index coefficient } }, v.index)

/-- The model simplified, with the objective maximised and no bound negative. -/
def Model.normalized (m : Model α) : Model α :=
  let m := m.simplify
  { m with
    objective := m.objective.map fun o => if o.sense = .minimize then o.negate else o
    constraints := m.constraints.map fun c => if c.bound < 0 then c.negate else c }

/-- The indices that the constraints of one relation carry. -/
def Model.indicesOf (m : Model α) (relation : Relation) : List Nat :=
  (m.constraints.filter fun c => c.relation == relation).map Constraint.index

/-- Turns one inequality into an equation with a new variable, and records which
constraint the variable belongs to. -/
def Model.equalize (coefficient : α) (m : Model α) (added : IndexMap) (constraint : Nat) :
    Except Fault (Model α × IndexMap) :=
  if constraint < m.constraints.length then
    let (extended, v) := m.attach "s" constraint coefficient
    .ok ({ extended with
            constraints := extended.constraints.modify constraint fun c =>
              { c with relation := .equal } }, added.insert v constraint)
  else .error (.noConstraint constraint)

/-- Turns all constraints of one relation into equations. -/
def Model.equalizeAll (m : Model α) (relation : Relation) (coefficient : α) :
    Except Fault (Model α × IndexMap) :=
  (m.indicesOf relation).foldlM (fun (m, added) i => m.equalize coefficient added i) (m, .empty)

def Model.standardForm (m : Model α) : Except Fault (StandardForm α) := do
  let (slackened, slacks) ← m.normalized.equalizeAll .atMost 1
  let (model, surpluses) ← slackened.equalizeAll .atLeast (-1)
  .ok ⟨model, slacks, surpluses⟩

namespace StandardForm

/-- The slack variables alone do not make a starting basis. -/
def needsPhaseOne (s : StandardForm α) : Bool := s.slacks.size < s.model.constraints.length

def hasSlack (s : StandardForm α) (constraint : Nat) : Bool := s.slacks.values.contains constraint

/-- Row 0 for the model's objective: negated coefficients and value zero. -/
def objectiveRow (s : StandardForm α) : List α :=
  let width := s.model.vars.length
  (match s.model.objective with
    | some o => (-o.form).coefficients width
    | none => List.replicate width 0) ++ [0]

end StandardForm

/-- A given objective row above the coefficients and bounds of all constraints. -/
def Tableau.ofModel (objective : List α) (m : Model α) : Except Fault (Tableau α) :=
  Tableau.ofRows (objective ::
    m.constraints.map fun c => c.form.coefficients m.vars.length ++ [c.bound])

/-- The tableau on the slack basis. -/
def StandardForm.tableau (s : StandardForm α) : Except Fault (Tableau α) :=
  Tableau.ofModel s.objectiveRow s.model

end LinearProgram
