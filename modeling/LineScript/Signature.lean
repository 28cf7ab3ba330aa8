/-
Signatures of functions and lambdas, and how a header spells them.

A header ends with the type of the result; what stands before it are formal
parameters, each a name and a type joined by a colon. A lambda has no name in the
source and goes by the line it is defined at. Any name of that form is that of a
lambda.
-/
import LineScript.Error
import LineScript.Text.Decimal

namespace LineScript

/-- A formal parameter. -/
structure Param where
  name : String
  type : DeclaredType
  deriving DecidableEq

/-- What a header declares. -/
structure Signature where
  name : String
  params : List Param
  /-- The line of the header. -/
  definition : Nat
  result : DeclaredType
  deriving DecidableEq

/-- How the names of lambdas begin. -/
def lambdaMark : String := "lambda@"

/-- The name of the lambda defined at a line. -/
def lambdaName (line : Nat) : String := s!"{lambdaMark}{line}"

/-- The name is one of a lambda. -/
def isLambdaName (name : String) : Bool := lambdaMark.toList.isPrefixOf name.toList

namespace Param

/-- The parameter as written in a header. -/
def display (p : Param) : String := s!"{p.name}:{p.type.text}"

/-- The two parts of a text around its first colon. -/
def splitColon : List Char → Option (List Char × List Char)
  | [] => none
  | c :: cs =>
    if c = ':' then some ([], cs)
    else (splitColon cs).map fun parts => (c :: parts.1, parts.2)

/-- Reads a formal parameter. -/
def ofFormal (formal : String) : Except Cause Param :=
  match splitColon formal.toList with
  | some (n :: name, t :: type) =>
    let name := String.ofList (n :: name)
    let type := String.ofList (t :: type)
    if isReserved name then .error (.reservedParameter name)
    else match DeclaredType.parameter? type with
      | some type => .ok ⟨name, type⟩
      | none => .error (.parameterType type)
  | _ => .error (.malformedParameter formal)

/-- Reads formal parameters from left to right. -/
def ofFormals : List String → Except Cause (List Param)
  | [] => .ok []
  | formal :: rest => do
    let param ← ofFormal formal
    let params ← ofFormals rest
    return param :: params

end Param

namespace Signature

/-- The first line of the body. -/
def start (s : Signature) : Nat := s.definition + 1

/-- The signature belongs to a lambda. -/
def isLambda (s : Signature) : Bool := isLambdaName s.name

/-- The signature on one line of text. -/
def display (s : Signature) : String :=
  let params := ", ".intercalate (s.params.map Param.display)
  s!"{s.name}({params}) -> {s.result.text}"

/-- Reads the formal parameters and the type of the result that follow a name. -/
def ofParts (name : String) (line : Nat) (formals : List String) (result : String) :
    Except Cause Signature :=
  match DeclaredType.storable? result with
  | none => .error (.returnType result)
  | some type => do
    let params ← Param.ofFormals formals
    return ⟨name, params, line, type⟩

/-- Reads the tokens that follow `func`. -/
def ofFunction (line : Nat) : List String → Except Cause Signature
  | name :: t :: rest =>
    ofParts name line (t :: rest).dropLast ((t :: rest).getLast (List.cons_ne_nil t rest))
  | _ => .error .functionHeader

/-- Reads the tokens that follow `lambda`. -/
def ofLambda (line : Nat) : List String → Except Cause Signature
  | t :: rest =>
    ofParts (lambdaName line) line (t :: rest).dropLast
      ((t :: rest).getLast (List.cons_ne_nil t rest))
  | [] => .error .lambdaHeader

/-- The signature that a line declares, if it is a header. -/
def ofLine? (line : Nat) (keyword : Option Keyword) (args : List String) :
    Except Cause (Option Signature) :=
  match keyword with
  | some .func => (ofFunction line args).map some
  | some .lambda => (ofLambda line args).map some
  | _ => .ok none

end Signature
end LineScript
