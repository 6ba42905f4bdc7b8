/-!
# Stored data

The data that models and solutions are stored as, and the two directions
between data and values. Reading is strict about the kind of a datum and lenient
about the fields of a record that it does not know:

* an index is a whole number that fits in 64 bits;
* a number may be stored as a whole one; one that is not finite is stored as
  `null` and cannot be read back;
* a record may also be stored as the list of all its fields in order, and a
  choice as a record from its name to `null`.
-/

namespace LinearProgram

inductive Datum where
  | null
  | flag (value : Bool)
  | whole (value : Int)
  | real (value : Float)
  | text (value : String)
  | list (items : List Datum)
  | record (fields : List (String × Datum))
  deriving Inhabited

/-- Values with a stored form. -/
class Stored (β : Type) where
  store : β → Datum
  load? : Datum → Option β

export Stored (store load?)

namespace Datum

/-- The fields of a record in the order of their names. A record may lack
fields; a list must be complete. -/
def fields? (names : List String) : Datum → Option (List (Option Datum))
  | record fields => some (names.map fun name => fields.lookup name)
  | list items => if items.length = names.length then some (items.map some) else none
  | _ => none

/-- A field that must be there. -/
def required {β : Type} [Stored β] (field : Option Datum) : Option β := field.bind load?

/-- A field whose absence means `null`. -/
def orNull {β : Type} [Stored β] (field : Option Datum) : Option β := load? (field.getD .null)

/-- The name of a choice without arguments. -/
def choice? : Datum → Option String
  | text name => some name
  | record [(name, null)] => some name
  | _ => none

end Datum

instance : Stored Nat where
  store n := .whole n
  load?
    | .whole (.ofNat n) => if n < UInt64.size then some n else none
    | _ => none

instance : Stored Float where
  store x := if x.isFinite then .real x else .null
  load?
    | .real x => some x
    | .whole (.ofNat n) => some (.ofNat n)
    | .whole (.negSucc n) => some (-.ofNat (n + 1))
    | _ => none

instance : Stored Bool where
  store := .flag
  load?
    | .flag b => some b
    | _ => none

instance : Stored String where
  store := .text
  load?
    | .text s => some s
    | _ => none

instance {β : Type} [Stored β] : Stored (Option β) where
  store
    | none => .null
    | some x => store x
  load?
    | .null => some none
    | d => (load? d).map some

instance {β : Type} [Stored β] : Stored (List β) where
  store xs := .list (xs.map store)
  load?
    | .list items => items.mapM load?
    | _ => none

end LinearProgram
