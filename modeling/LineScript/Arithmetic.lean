/-
What the operators compute.

Integers are signed 64-bit words, and an operation on them is exact or fails: a sum,
a difference or a product is computed over the integers and must fit. Division rounds
down, and the remainder goes with it, so it has the sign of the divisor; both are
corrected from the division of words, which rounds towards zero. Strings are compared
by code points.
-/
import LineScript.Error
import LineScript.Value

namespace LineScript
namespace Arithmetic

/-- The word of exactly this value, or an overflow. -/
def fit (op : BinaryOp) (n : Int) : Except Cause Int64 :=
  match Text.word? n with
  | some w => .ok w
  | none => .error (.overflow op)

/-- The quotient rounded towards zero. There is none by zero, and none of the least word
by minus one, which is no word. -/
def quotient? (a b : Int64) : Option Int64 :=
  if b = 0 ∨ (a = Int64.minValue ∧ b = -1) then none else some (a / b)

/-- The remainder of the division that rounds towards zero, where there is a quotient. -/
def remainder? (a b : Int64) : Option Int64 :=
  if b = 0 ∨ (a = Int64.minValue ∧ b = -1) then none else some (a % b)

/-- The quotient rounded down. It is one less than the one rounded towards zero if the
division is not exact and the signs differ. -/
def floorDiv (a b : Int64) : Except Cause Int64 :=
  if b = 0 then .error .divisionByZero
  else match quotient? a b with
    | none => .error (.overflow .div)
    | some q => .ok (if a % b ≠ 0 ∧ ¬(a < 0 ↔ b < 0) then q - 1 else q)

/-- The remainder of the division that rounds down. The least word is divided by minus
one without a remainder, though the quotient is no word. -/
def floorRem (a b : Int64) : Except Cause Int64 :=
  if b = 0 then .error .divisionByZero
  else
    let r := (remainder? a b).getD 0
    .ok (if r ≠ 0 ∧ ¬(r < 0 ↔ b < 0) then r + b else r)

/-- The comparison holds of operands in this order. -/
def compares : BinaryOp → Ordering → Bool
  | .eq, o => o.isEq
  | .ne, o => o.isNe
  | .lt, o => o.isLT
  | .le, o => o.isLE
  | .gt, o => o.isGT
  | .ge, o => o.isGE
  | _, _ => false

/-- An operator on integers. -/
def onInts (op : BinaryOp) (a b : Int64) : Except Cause Value :=
  match op with
  | .add => (fit op (a.toInt + b.toInt)).map .int
  | .sub => (fit op (a.toInt - b.toInt)).map .int
  | .mul => (fit op (a.toInt * b.toInt)).map .int
  | .div => (floorDiv a b).map .int
  | .rem => (floorRem a b).map .int
  | _ => .ok (.bool (compares op (compare a.toInt b.toInt)))

/-- An operator on strings. -/
def onStrings (op : BinaryOp) (a b : String) : Value :=
  match op with
  | .add => .str (a ++ b)
  | _ => .bool (compares op (compare a b))

/-- An operator on booleans. -/
def onBools (op : BinaryOp) (a b : Bool) : Bool :=
  match op with
  | .and => a && b
  | .or => a || b
  | .eq => a == b
  | _ => a != b

/-- Applies a binary operator. The operands must have one kind, and the operator
must be defined for it. -/
def binary (op : BinaryOp) (left right : Value) : Except Cause Value :=
  if left.kind ≠ right.kind then .error (.operandKinds left.kind right.kind op)
  else if !op.supports left.kind then .error (.unsupported op left.kind)
  else match left, right with
    | .int a, .int b => onInts op a b
    | .str a, .str b => .ok (onStrings op a b)
    | .bool a, .bool b => .ok (.bool (onBools op a b))
    | _, _ => .error (.unsupported op left.kind)

/-- Logical negation. -/
def negate : Value → Except Cause Value
  | .bool b => .ok (.bool (!b))
  | v => .error (.mismatch .negation .bool v.kind)

end Arithmetic
end LineScript
