/-
The functions of a program: its signatures, and what each line may return.

Loading reads the headers from first to last. It keeps the result types of the
functions and of the lambdas that are open, separately, innermost first. A line
belongs to what is open after its own header and before its own end marker, so
headers and end markers belong to the body they delimit. End markers with nothing
open are ignored.
-/
import LineScript.Program
import LineScript.Signature
import LineScript.Value

namespace LineScript

/-- The signatures of a program in the order of definition, and for each line the
result type of the innermost function and of the innermost lambda around it. -/
structure FunctionTable where
  signatures : Array Signature := #[]
  functionResults : Array (Option DeclaredType) := #[]
  lambdaResults : Array (Option DeclaredType) := #[]
  deriving DecidableEq

namespace FunctionTable

/-- The signature with an identity. -/
def signature? (t : FunctionTable) (id : FuncId) : Option Signature := t.signatures[id.index]?

/-- The function or lambda of a name. -/
def lookup? (t : FunctionTable) (name : String) : Option FuncId :=
  (t.signatures.findIdx? fun s => s.name = name).map FuncId.mk

/-- The function of a name; lambdas cannot be named. -/
def named? (t : FunctionTable) (name : String) : Option FuncId :=
  if isLambdaName name then none else t.lookup? name

/-- The names of the functions, without lambdas, in the order of definition. -/
def names (t : FunctionTable) : List String :=
  (t.signatures.toList.filter fun s => !s.isLambda).map Signature.name

/-- The number of lambdas. -/
def lambdaCount (t : FunctionTable) : Nat := (t.signatures.toList.filter Signature.isLambda).length

/-- The result type of the innermost function around a line. -/
def functionResult? (t : FunctionTable) (line : Nat) : Option DeclaredType :=
  t.functionResults.getD line none

/-- The result type of the innermost lambda around a line. -/
def lambdaResult? (t : FunctionTable) (line : Nat) : Option DeclaredType :=
  t.lambdaResults.getD line none

/-! ### Loading -/

/-- The state of loading between two lines: what was read, and the result types of
the bodies that are open, innermost first. -/
structure Survey where
  table : FunctionTable := {}
  openFunctions : List DeclaredType := []
  openLambdas : List DeclaredType := []
  deriving DecidableEq

namespace Survey

/-- Adds a signature under a name that is new. -/
def register (s : Survey) (sig : Signature) : Except Cause Survey :=
  if (s.table.lookup? sig.name).isSome then .error (.duplicateFunction sig.name)
  else .ok { s with table.signatures := s.table.signatures.push sig }

/-- Opens the body that a header begins. -/
def openBody (s : Survey) (keyword : Option Keyword) (result : DeclaredType) : Survey :=
  match keyword with
  | some .func => { s with openFunctions := result :: s.openFunctions }
  | some .lambda => { s with openLambdas := result :: s.openLambdas }
  | _ => s

/-- Records what is open at a line. -/
def record (s : Survey) : Survey :=
  { s with
    table.functionResults := s.table.functionResults.push s.openFunctions.head?
    table.lambdaResults := s.table.lambdaResults.push s.openLambdas.head? }

/-- Closes the body that an end marker ends, if one is open. -/
def closeBody (s : Survey) (keyword : Option Keyword) : Survey :=
  match keyword with
  | some .endFunc => { s with openFunctions := s.openFunctions.tail }
  | some .endLambda => { s with openLambdas := s.openLambdas.tail }
  | _ => s

/-- Reads a line. -/
def visit (s : Survey) (line : Nat) (l : SourceLine) : Except Cause Survey := do
  match ← Signature.ofLine? line l.keyword? l.tokens.tail with
  | some sig =>
    let s ← s.register sig
    return ((s.openBody l.keyword? sig.result).record).closeBody l.keyword?
  | none => return s.record.closeBody l.keyword?

/-- Reads lines in order, the first of them having the given number. -/
def visitAll (s : Survey) (line : Nat) : List SourceLine → Except Failure Survey
  | [] => .ok s
  | l :: rest =>
    match s.visit line l with
    | .ok s => visitAll s (line + 1) rest
    | .error cause => .error ⟨cause, some line⟩

end Survey

/-- The functions of a program, if all its headers are in order. -/
def ofProgram (p : Program) : Except Failure FunctionTable :=
  (Survey.visitAll {} 0 p.lines.toList).map Survey.table

end FunctionTable
end LineScript
