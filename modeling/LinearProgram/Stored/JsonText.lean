import LinearProgram.Numeral
import LinearProgram.Stored.Datum

/-!
# The text of stored data

Data are written down as JSON. `Datum.ofJson?` reads a text that is one value
with blanks around it and accepts nothing else:

* a number without point and exponent is a whole one; any other is the nearest
  double, and so is `-0`, which keeps its sign;
* a number beyond all doubles is refused;
* an escape names a character by one 16-bit unit or by a surrogate pair;
* of two fields with one name the later counts.

Each reader takes a list of characters and returns what it read with the rest.
-/

namespace LinearProgram

namespace JsonText

abbrev Reader (β : Type) := List Char → Option (β × List Char)

def isBlank (c : Char) : Bool := c == ' ' || c == '\t' || c == '\n' || c == '\r'

def skipBlanks (cs : List Char) : List Char := cs.dropWhile isBlank

/-! ## Numbers -/

/-- The digits in front. -/
def digits (cs : List Char) : List Char × List Char :=
  (cs.takeWhile Char.isDigit, cs.dropWhile Char.isDigit)

/-- At least one digit. -/
def someDigits : Reader (List Char) := fun cs =>
  match digits cs with
  | ([], _) => none
  | read => some read

/-- The digits in front of the point: a zero alone, or digits that do not start with one. -/
def wholePart : Reader (List Char)
  | '0' :: rest => some (['0'], rest)
  | cs => someDigits cs

/-- The point and the digits after it, when there is a point. -/
def fractionPart : Reader (Option (List Char))
  | '.' :: rest => (someDigits rest).map fun (ds, rest) => (some ds, rest)
  | cs => some (none, cs)

def natOfDigits (ds : List Char) : Nat := ds.foldl (fun n d => 10 * n + (d.toNat - 48)) 0

/-- The digits of an exponent after its sign. -/
def signedDigits : Reader Int
  | '-' :: rest => (someDigits rest).map fun (ds, rest) => (-(natOfDigits ds : Int), rest)
  | '+' :: rest => (someDigits rest).map fun (ds, rest) => ((natOfDigits ds : Int), rest)
  | cs => (someDigits cs).map fun (ds, rest) => ((natOfDigits ds : Int), rest)

/-- The exponent with its letter, when there is one. -/
def exponentPart : Reader (Option Int)
  | 'e' :: rest | 'E' :: rest => (signedDigits rest).map fun (e, rest) => (some e, rest)
  | cs => some (none, cs)

/-- The double nearest to the number with the given digits, the last of them
counting `10^exponent`. Numbers far outside the range of doubles are not worked
out: they are zero, or refused. -/
def nearest? (ds : List Char) (exponent : Int) : Option Float :=
  let significant := ds.dropWhile (· == '0')
  let size := exponent + significant.length
  if significant.isEmpty || size < -400 then some 0
  else if 400 < size then none
  else
    let x := Float.ofScientific (natOfDigits significant) (exponent < 0) exponent.natAbs
    if x.isFinite then some x else none

/-- The datum of a number in its parts. -/
def ofParts (isNegative : Bool) (whole : List Char) (fraction : Option (List Char))
    (exponent : Option Int) : Option Datum := do
  let decimals := fraction.getD []
  let size ← nearest? (whole ++ decimals) (exponent.getD 0 - decimals.length)
  let n := natOfDigits whole
  if fraction.isNone && exponent.isNone && !(isNegative && n == 0) then
    some (.whole (if isNegative then -n else n))
  else
    some (.real (if isNegative then -size else size))

def unsigned (isNegative : Bool) : Reader Datum := fun cs => do
  let (whole, cs) ← wholePart cs
  let (fraction, cs) ← fractionPart cs
  let (exponent, cs) ← exponentPart cs
  some (← ofParts isNegative whole fraction exponent, cs)

def number : Reader Datum
  | '-' :: rest => unsigned true rest
  | cs => unsigned false cs

/-! ## Strings -/

/-- A 16-bit unit written as four hexadecimal digits of either case. -/
def unit : Reader Nat
  | a :: b :: c :: d :: rest => do
    some (← Numeral.readHex? ([a, b, c, d].map Char.toLower), rest)
  | _ => none

def isHighSurrogate (n : Nat) : Bool := 0xD800 ≤ n && n < 0xDC00

def isLowSurrogate (n : Nat) : Bool := 0xDC00 ≤ n && n < 0xE000

/-- The character that an escape stands for, read from after the backslash. -/
def escaped : Reader Char
  | '"' :: rest => some ('"', rest)
  | '\\' :: rest => some ('\\', rest)
  | '/' :: rest => some ('/', rest)
  | 'b' :: rest => some (Char.ofNat 8, rest)
  | 'f' :: rest => some (Char.ofNat 12, rest)
  | 'n' :: rest => some ('\n', rest)
  | 'r' :: rest => some ('\r', rest)
  | 't' :: rest => some ('\t', rest)
  | 'u' :: rest => do
    let (high, rest) ← unit rest
    if isHighSurrogate high then
      match rest with
      | '\\' :: 'u' :: rest =>
        let (low, rest) ← unit rest
        if isLowSurrogate low then
          some (Char.ofNat (0x10000 + (high - 0xD800) * 0x400 + (low - 0xDC00)), rest)
        else none
      | _ => none
    else if isLowSurrogate high then none
    else some (Char.ofNat high, rest)
  | _ => none

/-- The characters up to the closing quote, which is read too. -/
def quoted : (fuel : Nat) → Reader (List Char)
  | 0, _ => none
  | fuel + 1, cs =>
    match cs with
    | [] => none
    | '"' :: rest => some ([], rest)
    | '\\' :: rest => do
      let (c, rest) ← escaped rest
      let (read, rest) ← quoted fuel rest
      some (c :: read, rest)
    | c :: rest =>
      if c.toNat < 32 then none
      else do
        let (read, rest) ← quoted fuel rest
        some (c :: read, rest)

/-- A string with both its quotes. Every character that is read costs at least
one of the text. -/
def string : Reader String
  | '"' :: rest => do
    let (read, rest) ← quoted (rest.length + 1) rest
    some (String.ofList read, rest)
  | _ => none

/-! ## Values -/

/-- Goes on after one expected character, with blanks before it skipped. -/
def expect (c : Char) (cs : List Char) : Option (List Char) :=
  match skipBlanks cs with
  | d :: rest => if c = d then some rest else none
  | [] => none

/-- A name that stands for a value. -/
def word : Reader Datum
  | 'n' :: 'u' :: 'l' :: 'l' :: rest => some (.null, rest)
  | 't' :: 'r' :: 'u' :: 'e' :: rest => some (.flag true, rest)
  | 'f' :: 'a' :: 'l' :: 's' :: 'e' :: rest => some (.flag false, rest)
  | _ => none

/-- A value that holds no other. -/
def simple (cs : List Char) : Option (Datum × List Char) :=
  (word cs).or ((string cs).map fun (s, rest) => (.text s, rest)) |>.or (number cs)

/-- Puts a field behind the others, in place of one of the same name. -/
def putField (name : String) (d : Datum) (fields : List (String × Datum)) :
    List (String × Datum) :=
  fields.filter (·.1 != name) ++ [(name, d)]

mutual

/-- One value. Every two steps of the fuel read at least one character. -/
def value : (fuel : Nat) → Reader Datum
  | 0, _ => none
  | fuel + 1, cs =>
    match skipBlanks cs with
    | '[' :: rest =>
      match expect ']' rest with
      | some rest => some (.list [], rest)
      | none => items fuel [] rest
    | '{' :: rest =>
      match expect '}' rest with
      | some rest => some (.record [], rest)
      | none => fields fuel [] rest
    | cs => simple cs

/-- The items of a list after those already read, and its end. -/
def items : (fuel : Nat) → List Datum → Reader Datum
  | 0, _, _ => none
  | fuel + 1, read, cs => do
    let (item, cs) ← value fuel cs
    let read := read ++ [item]
    match expect ',' cs with
    | some rest => items fuel read rest
    | none => some (.list read, ← expect ']' cs)

/-- The fields of a record after those already read, and its end. -/
def fields : (fuel : Nat) → List (String × Datum) → Reader Datum
  | 0, _, _ => none
  | fuel + 1, read, cs => do
    let (name, cs) ← string (skipBlanks cs)
    let (d, cs) ← value fuel (← expect ':' cs)
    let read := putField name d read
    match expect ',' cs with
    | some rest => fields fuel read rest
    | none => some (.record read, ← expect '}' cs)

end

end JsonText

/-- The datum a whole text stands for. -/
def Datum.ofJson? (text : String) : Option Datum := do
  let cs := text.toList
  let (d, rest) ← JsonText.value (2 * cs.length + 2) cs
  if (JsonText.skipBlanks rest).isEmpty then some d else none

end LinearProgram
