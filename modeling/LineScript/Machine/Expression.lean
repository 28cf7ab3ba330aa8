/-
Expressions in prefix form.

An operator stands before its operands: `+ 2 * 3 4`. The tokens are taken from
right to left onto a stack, so an operator finds its operands evaluated on top,
the left one first. An expression has a value if exactly one is left.
-/
import LineScript.Machine.Operand

namespace LineScript
namespace Expression

/-- Takes one more token onto the stack. -/
def push (img : Image) (s : State) (token : String) (stack : List Value) :
    Except Cause (List Value) :=
  match BinaryOp.ofToken? token with
  | some op =>
    match stack with
    | left :: right :: rest => (Arithmetic.binary op left right).map (· :: rest)
    | _ => .error (.missingOperands op)
  | none =>
    if token = negationToken then
      match stack with
      | operand :: rest => (Arithmetic.negate operand).map (· :: rest)
      | [] => .error .missingOperand
    else (Operand.resolve img s token).map (· :: stack)

/-- The stack after all tokens, the last of them taken first. -/
def stack (img : Image) (s : State) : List String → Except Cause (List Value)
  | [] => .ok []
  | token :: rest => (stack img s rest).bind (push img s token)

/-- The value of an expression. -/
def eval (img : Image) (s : State) (tokens : List String) : Except Cause Value :=
  match stack img s tokens with
  | .error cause => .error cause
  | .ok [v] => .ok v
  | .ok _ => .error (.expressionForm tokens)

end Expression
end LineScript
