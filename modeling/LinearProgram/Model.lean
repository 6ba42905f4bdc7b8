import LinearProgram.Constraint
import LinearProgram.Objective

/-!
# Models

A linear program as its author writes it: named non-negative variables,
constraints and an objective. Variables and constraints are only ever appended,
so that their indices are their positions:

* `Edit`: a call on a model, which is answered or refused and leaves a model
  either way;
* `addVariable`, `addConstraint`, `setObjective` refuse what would break the
  indices;
* `addAuxiliary` appends a variable of the solver under a name nobody has;
* `Blueprint.toModel` builds a whole model from its parts.
-/

namespace LinearProgram

structure Variable where
  name : String
  index : Nat
  deriving DecidableEq

/-- Why a model cannot be extended or solved. -/
inductive ModelError where
  | duplicateName (name : String)
  | unknownVariable (index count : Nat)
  | noVariables
  | noObjective
  deriving DecidableEq

def ModelError.message : ModelError → String
  | duplicateName name =>
    "Cannot create variable named " ++ name ++
      ". There is already a variable with the same name."
  | unknownVariable index count =>
    "Expression refers to variable #" ++ toString index ++ ", but the model only has " ++
      toString count ++ " variables"
  | noVariables => "Cannot solve model without any variables."
  | noObjective => "Cannot solve model missing an objective."

structure Model (α : Type) where
  name : String
  vars : List Variable
  constraints : List (Constraint α)
  objective : Option (Objective α)
  deriving BEq

/-- A call on a model: an answer or a refusal, and in both cases the model it leaves. -/
abbrev Edit (α : Type) := EStateM ModelError (Model α)

namespace Model

variable {α : Type}

/-- The model with a name and nothing else. -/
def empty (name : String) : Model α := ⟨name, [], [], none⟩

def variableNamed? (m : Model α) (name : String) : Option Variable :=
  m.vars.find? fun v => v.name == name

/-- The variable that would be appended next under a name. -/
def nextVariable (m : Model α) (name : String) : Variable := ⟨name, m.vars.length⟩

def pushVariable (m : Model α) (v : Variable) : Model α :=
  { m with vars := m.vars ++ [v] }

/-- Appends a variable, unless its name is taken. -/
def addVariable (name : String) : Edit α Variable := do
  let m ← get
  if (m.variableNamed? name).isSome then
    throw (.duplicateName name)
  set (m.pushVariable (m.nextVariable name))
  return m.nextVariable name

/-- The name itself, or the name with the fewest primes that makes it new,
looking at no more than `primes` of them. -/
def freshName (taken : List String) (name : String) : (primes : Nat) → String
  | 0 => name
  | primes + 1 => if taken.contains name then freshName taken (name ++ "'") primes else name

/-- Appends a variable of the solver, named after a constraint. Among one more
names than there are variables, one is free. -/
def addAuxiliary (m : Model α) (label : String) (constraint : Nat) : Model α × Variable :=
  let name :=
    freshName (m.vars.map Variable.name) (label ++ toString constraint) m.vars.length
  (m.pushVariable (m.nextVariable name), m.nextVariable name)

/-- Refuses a form that names a variable the model does not have. -/
def checkForm (m : Model α) (f : LinearForm α) : Except ModelError Unit :=
  match f.maxIndex? with
  | some index =>
    if m.vars.length ≤ index then .error (.unknownVariable index m.vars.length)
    else .ok ()
  | none => .ok ()

/-- Appends a constraint, which takes its position as its index. -/
def addConstraint (c : Constraint α) : Edit α Nat := do
  let m ← get
  ofExcept (m.checkForm c.form)
  let index := m.constraints.length
  set { m with constraints := m.constraints ++ [{ c with index := index }] }
  return index

/-- Replaces the objective. -/
def setObjective (o : Objective α) : Edit α Unit := do
  let m ← get
  ofExcept (m.checkForm o.form)
  set { m with objective := some o }

def maximize (f : LinearForm α) : Edit α Unit := setObjective ⟨f, .maximize⟩

def minimize (f : LinearForm α) : Edit α Unit := setObjective ⟨f, .minimize⟩

/-- What a model must have before it can be solved. -/
def validate (m : Model α) : Except ModelError Unit :=
  if m.vars.isEmpty then .error .noVariables
  else if m.objective.isNone then .error .noObjective
  else .ok ()

/-- Simplifies every constraint and the objective. -/
def simplify [Scalar α] (m : Model α) : Model α :=
  { m with
    constraints := m.constraints.map fun c => { c with form := c.form.simplify }
    objective := m.objective.map fun o => { o with form := o.form.simplify } }

end Model

/-- The parts a model is built from. -/
structure Blueprint (α : Type) where
  name : String
  names : List String
  constraints : List (Constraint α)
  objective : Option (Objective α)

namespace Blueprint

variable {α : Type}

/-- Adds the variables, then the constraints, then the objective. -/
def build (b : Blueprint α) : Edit α Unit := do
  b.names.forM fun name => discard (Model.addVariable name)
  b.constraints.forM fun c => discard (Model.addConstraint c)
  b.objective.forM Model.setObjective

/-- The model made of the parts, or the first refusal. -/
def toModel (b : Blueprint α) : Except ModelError (Model α) :=
  match b.build.run (.empty b.name) with
  | .ok () m => .ok m
  | .error e _ => .error e

end Blueprint

end LinearProgram
