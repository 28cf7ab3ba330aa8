/-
Decimal integers as text, in the range of a signed 64-bit word.

A number is an optional sign and one or more ASCII digits. Reading goes from
left to right and stops at the first character that is no digit or that takes
the number out of range, so of two faults the one further left is reported.
-/

namespace LineScript.Text

/-- Why a text is no 64-bit decimal. -/
inductive DecimalFault
  | malformed
  | outOfRange
  deriving DecidableEq

/-- The value of an ASCII digit. -/
def digit? (c : Char) : Option Nat :=
  if c.isDigit then some (c.toNat - '0'.toNat) else none

/-- The integer lies in the range of a signed 64-bit word. -/
def fits (n : Int) : Bool := Int64.minValue.toInt ≤ n && n ≤ Int64.maxValue.toInt

/-- The 64-bit word with exactly this value, if there is one. -/
def word? (n : Int) : Option Int64 := if fits n then some (Int64.ofInt n) else none

/-- Reads digits onto the end of a number, away from zero. -/
def readDigits (negative : Bool) : Int → List Char → Except DecimalFault Int
  | n, [] => .ok n
  | n, c :: cs =>
    match digit? c with
    | none => .error .malformed
    | some d =>
      let n' := if negative then n * 10 - d else n * 10 + d
      if fits n' then readDigits negative n' cs else .error .outOfRange

/-- Reads the digits that follow a sign; there must be one at least. -/
def readMagnitude (negative : Bool) : List Char → Except DecimalFault Int64
  | [] => .error .malformed
  | c :: cs => (readDigits negative 0 (c :: cs)).map Int64.ofInt

/-- Reads a signed decimal. -/
def readDecimal : List Char → Except DecimalFault Int64
  | '-' :: cs => readMagnitude true cs
  | '+' :: cs => readMagnitude false cs
  | cs => readMagnitude false cs

/-- The decimal text of a word, with a sign only when it is negative. -/
def decimal (n : Int64) : String :=
  match n.toInt with
  | .ofNat m => String.ofList (Nat.toDigits 10 m)
  | .negSucc m => String.ofList ('-' :: Nat.toDigits 10 (m + 1))

end LineScript.Text
