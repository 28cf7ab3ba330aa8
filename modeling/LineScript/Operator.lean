/-
The binary operators, and the kinds of operands each is defined for.

Both operands of an operator have one kind. Comparisons give a boolean,
arithmetic and concatenation give a value of the operands' kind.
-/
import LineScript.Kind

namespace LineScript

/-- A binary operator. -/
inductive BinaryOp
  | add
  | sub
  | mul
  | div
  | rem
  | eq
  | ne
  | lt
  | le
  | gt
  | ge
  | and
  | or
  deriving DecidableEq

namespace BinaryOp

/-- How the operator is written. -/
def text : BinaryOp → String
  | add => "+"
  | sub => "-"
  | mul => "*"
  | div => "/"
  | rem => "%"
  | eq => "=="
  | ne => "!="
  | lt => "<"
  | le => "<="
  | gt => ">"
  | ge => ">="
  | and => "&"
  | or => "|"

/-- The operator a token stands for. -/
def ofToken? : String → Option BinaryOp
  | "+" => some add
  | "-" => some sub
  | "*" => some mul
  | "/" => some div
  | "%" => some rem
  | "==" => some eq
  | "!=" => some ne
  | "<" => some lt
  | "<=" => some le
  | ">" => some gt
  | ">=" => some ge
  | "&" => some and
  | "|" => some or
  | _ => none

@[simp]
theorem ofToken?_text (op : BinaryOp) : ofToken? op.text = some op := by
  cases op <;> rfl

/-- The operator is defined for operands of the kind: arithmetic and comparison
for integers, concatenation and comparison for strings, logic and equality for
booleans, nothing for the rest. -/
def supports : BinaryOp → Kind → Bool
  | and, .int | or, .int => false
  | _, .int => true
  | sub, .str | mul, .str | div, .str | rem, .str | and, .str | or, .str => false
  | _, .str => true
  | and, .bool | or, .bool | eq, .bool | ne, .bool => true
  | _, _ => false

/-- The operator computes a value of its operands' kind; any other compares them
or combines truth values. -/
def isArithmetic : BinaryOp → Bool
  | add | sub | mul | div | rem => true
  | _ => false

end BinaryOp

/-- The token of logical negation, the one unary operator. -/
def negationToken : String := "!"

end LineScript
