import LinearProgram.Solution
import LinearProgram.Stored.Datum

/-!
# Stored models and solutions

The stored form of every part of a model and of a solution. Loading checks the
shape alone: a table may be ragged, and a model need not be one that could have
been built.
-/

namespace LinearProgram

open Datum

instance : Stored Variable where
  store v := .record [("name", store v.name), ("index", store v.index)]
  load? d := do
    match ← d.fields? ["name", "index"] with
    | [name, index] => some ⟨← required name, ← required index⟩
    | _ => none

instance : Stored (Term Float) where
  store t := .record [("variable", store t.index), ("coefficient", store t.coefficient)]
  load? d := do
    match ← d.fields? ["variable", "coefficient"] with
    | [index, coefficient] => some ⟨← required index, ← required coefficient⟩
    | _ => none

instance : Stored (LinearForm Float) where
  store f := .record [("terms", store f.terms)]
  load? d := do
    match ← d.fields? ["terms"] with
    | [terms] => some ⟨← required terms⟩
    | _ => none

/-- Stored name of a relation. -/
def Relation.name : Relation → String
  | atMost => "Le"
  | atLeast => "Ge"
  | equal => "Eq"

instance : Stored Relation where
  store r := .text r.name
  load? d := do
    let name ← d.choice?
    [.atMost, .atLeast, .equal].find? fun r : Relation => r.name == name

/-- Stored name of a sense. -/
def Sense.name : Sense → String
  | minimize => "Min"
  | maximize => "Max"

instance : Stored Sense where
  store s := .text s.name
  load? d := do
    let name ← d.choice?
    [.minimize, .maximize].find? fun s : Sense => s.name == name

instance : Stored Status where
  store s := .text s.name
  load? d := do
    let name ← d.choice?
    [.optimal, .infeasible, .unbounded].find? fun s : Status => s.name == name

instance : Stored (Constraint Float) where
  store c := .record [("expression", store c.form), ("op", store c.relation),
    ("bound", store c.bound), ("index", store c.index)]
  load? d := do
    match ← d.fields? ["expression", "op", "bound", "index"] with
    | [form, relation, bound, index] =>
      some ⟨← required form, ← required relation, ← required bound, ← required index⟩
    | _ => none

instance : Stored (Objective Float) where
  store o := .record [("expression", store o.form), ("direction", store o.sense)]
  load? d := do
    match ← d.fields? ["expression", "direction"] with
    | [form, sense] => some ⟨← required form, ← required sense⟩
    | _ => none

instance : Stored (Model Float) where
  store m := .record [("name", store m.name), ("variables", store m.vars),
    ("constraints", store m.constraints), ("objective", store m.objective)]
  load? d := do
    match ← d.fields? ["name", "variables", "constraints", "objective"] with
    | [name, vars, constraints, objective] =>
      some ⟨← required name, ← required vars, ← required constraints, ← orNull objective⟩
    | _ => none

instance : Stored (Tableau Float) where
  store t := .record [("table", store t.rows)]
  load? d := do
    match ← d.fields? ["table"] with
    | [rows] => some ⟨← required rows⟩
    | _ => none

instance : Stored (Solution Float) where
  store s := .record [("model", store s.model), ("assignment", store s.columns),
    ("is_feasible", store s.isFeasible), ("is_bounded", store s.isBounded),
    ("initial_tableau", store s.initialTableau), ("tableau", store s.finalTableau)]
  load? d := do
    match ← d.fields? ["model", "assignment", "is_feasible", "is_bounded", "initial_tableau",
      "tableau"] with
    | [model, columns, isFeasible, isBounded, initialTableau, finalTableau] =>
      some ⟨← required model, ← orNull columns, ← required isFeasible, ← required isBounded,
        ← required initialTableau, ← required finalTableau⟩
    | _ => none

end LinearProgram
