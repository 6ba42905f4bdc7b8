/-!
# Numerals

The exact written form of a double. A number that is a whole one below 2^53 is
written as an integer; every other number is a word:

* `nan`, `inf`, `-inf` and `-0`;
* `0x` and the sixteen hexadecimal digits of its bits, for the rest.

`Numeral.ofFloat` writes and `Numeral.readWord?` reads a word back.
-/

namespace LinearProgram

inductive Numeral where
  | whole (n : Int)
  | word (text : String)
  deriving DecidableEq

namespace Numeral

def hexDigit (n : Nat) : Char := Char.ofNat (if n < 10 then 48 + n else 87 + n)

/-- The last `count` hexadecimal digits of a number. -/
def hexDigits : (count : Nat) → Nat → List Char
  | 0, _ => []
  | count + 1, n => hexDigits count (n / 16) ++ [hexDigit (n % 16)]

/-- Value of a lower-case hexadecimal digit. -/
def hexValue? (c : Char) : Option Nat :=
  if '0'.toNat ≤ c.toNat ∧ c.toNat ≤ '9'.toNat then some (c.toNat - 48)
  else if 'a'.toNat ≤ c.toNat ∧ c.toNat ≤ 'f'.toNat then some (c.toNat - 87)
  else none

def readHex? (cs : List Char) : Option Nat :=
  cs.foldlM (fun n c => (hexValue? c).map (16 * n + ·)) 0

theorem hexValue_hexDigit {n : Nat} (h : n < 16) : hexValue? (hexDigit n) = some n := by
  have all : ∀ k : Fin 16, hexValue? (hexDigit k.val) = some k.val := by decide
  exact all ⟨n, h⟩

/-- Reading gives back as much of a number as was written. -/
theorem readHex_hexDigits (count n : Nat) :
    readHex? (hexDigits count n) = some (n % Nat.pow 16 count) := by
  induction count generalizing n with
  | zero => simp [hexDigits, readHex?, Nat.mod_one]
  | succ count ih =>
    have digit := hexValue_hexDigit (Nat.mod_lt n (by decide : 16 > 0))
    have split : n % Nat.pow 16 (count + 1) = n % 16 + 16 * (n / 16 % Nat.pow 16 count) := by
      have := Nat.mod_mul (x := n) (a := 16) (b := Nat.pow 16 count)
      rw [← this, Nat.mul_comm]
      rfl
    have front := ih (n / 16)
    unfold readHex? at front
    simp only [hexDigits, readHex?, List.foldlM_append, front, digit, split, List.foldlM_cons,
      List.foldlM_nil, Option.bind_eq_bind, Option.bind_some, Option.map_some, Option.pure_def]
    rw [Nat.add_comm]

def hexWord (bits : Nat) : Numeral := .word ("0x" ++ String.ofList (hexDigits 16 bits))

/-- The whole number `m * 2^q`, if it is one below 2^53 in size. Here `m` is
below 2^53 and, for `q` positive, at least 2^52. -/
def whole? (m : Nat) (q : Int) : Option Nat :=
  match q with
  | .ofNat 0 => some m
  | .ofNat _ => none
  | .negSucc k =>
    let divisor := Nat.pow 2 (k + 1)
    if k < 53 ∧ m % divisor = 0 then some (m / divisor) else none

/-- The numeral of the double with the given bits. -/
def ofBits (bits : Nat) : Numeral :=
  let implicitBit : Nat := Nat.pow 2 52
  let isNegative : Bool := bits / Nat.pow 2 63 = 1
  let exponent : Nat := bits / implicitBit % 2048
  let fraction : Nat := bits % implicitBit
  if exponent = 2047 then
    if fraction = 0 then .word (if isNegative then "-inf" else "inf") else .word "nan"
  else if exponent = 0 then
    if fraction = 0 then (if isNegative then .word "-0" else .whole 0) else hexWord bits
  else
    match whole? (implicitBit + fraction) (exponent - 1075) with
    | some n => .whole (if isNegative then -n else n)
    | none => hexWord bits

def ofFloat (x : Float) : Numeral := ofBits x.toBits.toNat

def text : Numeral → String
  | whole n => toString n
  | word s => s

/-- The number a word stands for. -/
def readWord? (s : String) : Option Float :=
  match s with
  | "-0" => some (-0)
  | "inf" => some (1 / 0)
  | "-inf" => some (-1 / 0)
  | "nan" => some (0 / 0)
  | _ =>
    match s.toList with
    | '0' :: 'x' :: digits =>
      if digits.length = 16 then (readHex? digits).map fun n => Float.ofBits n.toUInt64 else none
    | _ => none

end Numeral

end LinearProgram
