import LinearProgram.Fault
import LinearProgram.Scalar

/-!
# Linear forms

A linear combination of variables, kept as the list of its terms. A variable
may occur in several terms; every reading adds them up, so an unsimplified form
means the same as its simplified one:

* `coefficient`, `denseRow`, `eval`: the three readings of a form, one variable, a
  row of them, or all of them at once;
* `simplify`: one term per variable, ascending, without zero coefficients;
* `isEquivalent`: equality of all total coefficients within a tolerance.

An index is a word of 64 bits, and a row of numbers of eight bytes each must fit
in an address space of 2^63 bytes. `denseRow` and `isEquivalent`, which take a
width from outside, refuse one that does not. `coefficients` is the list that a
row consists of. It is read without asking where a list of variables or of values
as long as the row is at hand, since that list takes no less space.
-/

namespace LinearProgram

/-- One coefficient on the variable with the given index. -/
structure Term (α : Type) where
  index : Nat
  coefficient : α
  deriving BEq

/-- A linear combination of variables with no constant part. -/
structure LinearForm (α : Type) where
  terms : List (Term α)
  deriving BEq

namespace LinearForm

def empty {α : Type} : LinearForm α := ⟨[]⟩

variable {α : Type}

/-- The form with a single term. -/
def single (index : Nat) (coefficient : α) : LinearForm α := ⟨[⟨index, coefficient⟩]⟩

/-- Pairs indices with coefficients; what the longer list has left over is ignored. -/
def ofLists (indices : List Nat) (coefficients : List α) : LinearForm α :=
  ⟨List.zipWith Term.mk indices coefficients⟩

def isEmpty (f : LinearForm α) : Bool := f.terms.isEmpty

/-- Appends one more term. -/
def addTerm (f : LinearForm α) (index : Nat) (coefficient : α) : LinearForm α :=
  ⟨f.terms ++ [⟨index, coefficient⟩]⟩

/-- Largest index that occurs, if any. -/
def maxIndex? (f : LinearForm α) : Option Nat := (f.terms.map Term.index).max?

/-- The sum of two forms has the terms of both, one list after the other. -/
instance : Add (LinearForm α) := ⟨fun f g => ⟨f.terms ++ g.terms⟩⟩

variable [Scalar α]

/-- The variable with the given index, taken once. -/
def ofIndex (index : Nat) : LinearForm α := single index 1

def scale (f : LinearForm α) (factor : α) : LinearForm α :=
  ⟨f.terms.map fun t => ⟨t.index, t.coefficient * factor⟩⟩

instance : Neg (LinearForm α) := ⟨fun f => f.scale (-1)⟩

instance : Sub (LinearForm α) := ⟨fun f g => f + -g⟩

/-- Adds a term to a list that is ascending in the index, joining it with the
term of the same index if there is one. -/
def collect (t : Term α) : List (Term α) → List (Term α)
  | [] => [t]
  | u :: us =>
    if t.index < u.index then t :: u :: us
    else if t.index = u.index then ⟨u.index, u.coefficient + t.coefficient⟩ :: us
    else u :: collect t us

/-- One term per variable, ascending in the index, zero coefficients dropped.
Repeated terms are added in the order in which they occur. -/
def simplify (f : LinearForm α) : LinearForm α :=
  ⟨(f.terms.foldl (fun merged t => collect t merged) []).filter fun t => t.coefficient != 0⟩

/-- Total coefficient of one variable. -/
def coefficient (f : LinearForm α) (index : Nat) : α :=
  sum ((f.terms.filter fun t => t.index == index).map Term.coefficient)

/-- What a row of the given width consists of: the total coefficients of the first
variables. Terms on later ones are left out. -/
def coefficients (f : LinearForm α) (width : Nat) : List α :=
  f.terms.foldl (fun dense t => dense.modify t.index (· + t.coefficient)) (List.replicate width 0)

/-- The least number of coefficients that no row can hold. -/
def widthLimit : Nat := Nat.pow 2 60

/-- The form as a row of the given width, if a row can be that wide. -/
def denseRow (f : LinearForm α) (width : Nat) : Except Fault (List α) :=
  if width < widthLimit then .ok (f.coefficients width) else .error (.tooWide width)

/-- Value under an assignment. Variables past its end count as zero. -/
def eval (f : LinearForm α) (assignment : List α) : α :=
  sum (f.terms.map fun t => t.coefficient * assignment.getD t.index 0)

/-- Whether both forms have the same total coefficients up to the tolerance, as
rows wide enough for both. Only indices that occur can differ. -/
def isEquivalent (tolerance : α) (f g : LinearForm α) : Except Fault Bool :=
  match (f + g).maxIndex? with
  | none => .ok true
  | some last =>
    if last + 1 < widthLimit then
      .ok ((f + g).terms.all fun t =>
        near tolerance (f.coefficient t.index) (g.coefficient t.index))
    else .error (.tooWide (last + 1))

end LinearForm

end LinearProgram
