/-
Errors: what can go wrong with a program, and how it is told.

A `Cause` says what went wrong, with the names and kinds involved. A `Failure`
adds the line at which it happened. A `Diagnostic` is the printable form, and
`Problem` extends it by what goes wrong outside a program.

Two causes do not have all of their wording in themselves. Which name is suggested
for an unknown variable may depend on the order in which names are listed, so
`diagnostic` is given a `NameOrder`. And the error of a console is a diagnostic
already, of any class and wording; it may even come with a line, and then it keeps
it.
-/
import LineScript.Keyword
import LineScript.Operator
import LineScript.Suggestion

namespace LineScript

/-- The four classes of errors. -/
inductive ErrorKind
  | grammar
  | naming
  | typing
  | fault
  deriving DecidableEq

/-- The name of the class, as shown. -/
def ErrorKind.text : ErrorKind → String
  | .grammar => "SyntaxError"
  | .naming => "NameError"
  | .typing => "TypeError"
  | .fault => "FaultError"

/-! ### Diagnostics -/

/-- An error ready to be shown. Lines are counted from zero. -/
structure Diagnostic where
  kind : ErrorKind
  message : String
  line : Option Nat := none
  deriving DecidableEq

namespace Diagnostic

/-- Places the error at a line, unless it has one already. -/
def atLine (d : Diagnostic) (line : Nat) : Diagnostic :=
  { d with line := some (d.line.getD line) }

/-- The error on one line of text; the line number is counted from one. -/
def display (d : Diagnostic) : String :=
  let place := match d.line with
    | some line => s!" (line {line + 1})"
    | none => ""
  s!"{d.kind.text}: {d.message}{place}"

/-- A name that is no variable. -/
def unknownVariable (name hint : String) : Diagnostic :=
  { kind := .naming, message := s!"unknown variable `{name}`{hint}" }

/-- A name that is no function. -/
def unknownFunction (name hint : String) : Diagnostic :=
  { kind := .naming, message := s!"unknown function `{name}`{hint}" }

/-- A value of another kind than its place asks for. -/
def mismatch (place expected got : String) : Diagnostic :=
  { kind := .typing, message := s!"{place}: expected {expected}, got {got}" }

/-- A division or remainder by zero. -/
def divisionByZero : Diagnostic :=
  { kind := .fault, message := "division by zero" }

/-- A result out of the integers' range. -/
def overflow (op : String) : Diagnostic :=
  { kind := .fault, message := s!"integer overflow in `{op}`" }

/-- A console that refused to read or write. -/
def console (reason : String) : Diagnostic :=
  { kind := .fault, message := s!"I/O error: {reason}" }

/-- A reason alone is that of a console which refused. -/
instance : Coe String Diagnostic := ⟨console⟩

end Diagnostic

/-! ### Causes -/

/-- A place that asks for a value of a certain kind. -/
inductive Site
  | assignment (target : String)
  | condition (statement : Keyword)
  | negation
  | fieldAccess (owner : String)
  | call (name : String)
  | argument (parameter callee : String)
  | conversion
  | result
  deriving DecidableEq

/-- The place, as messages name it. -/
def Site.text : Site → String
  | .assignment target => s!"assignment to `{target}`"
  | .condition statement => s!"{statement.text} condition"
  | .negation => "operand of `!`"
  | .fieldAccess owner => s!"field access on `{owner}`"
  | .call name => s!"call of `{name}`"
  | .argument parameter callee => s!"argument `{parameter}` of `{callee}`"
  | .conversion => "argument of strtoint"
  | .result => "return value"

/-- Why a program cannot be loaded or a line cannot be executed. -/
inductive Cause
  /- Headers of functions and lambdas -/
  | functionHeader
  | lambdaHeader
  | malformedParameter (formal : String)
  | reservedParameter (name : String)
  | returnType (name : String)
  | parameterType (name : String)
  | duplicateFunction (name : String)
  | missingEntry (name : String)
  /- Statements -/
  | pastEnd
  | nestedFunction
  | unknownStatement (word : String)
  | declarationForm
  | variableType (name : String)
  | reservedVariable (name : String)
  | redefinition (name : String)
  | assignmentForm
  | missingCondition (statement : Keyword)
  | missingMarker (marker : Keyword)
  | noOpenBlock (marker : Keyword)
  | lambdaForm
  /- Operands and expressions -/
  | literalForm (token : String)
  | literalRange (token : String)
  | missingOperands (op : BinaryOp)
  | missingOperand
  | expressionForm (tokens : List String)
  | operandKinds (left right : Kind) (op : BinaryOp)
  | unsupported (op : BinaryOp) (kind : Kind)
  | mismatch (site : Site) (expected : DeclaredType) (got : Kind)
  | divisionByZero
  | overflow (op : BinaryOp)
  | unknownVariable (name : String) (known : Vocabulary)
  | noField (owner field : String)
  /- Calls and returns -/
  | calleeMissing
  | printArity
  | conversionArity
  | conversion (text : String)
  | unknownFunction (name : String) (suggestion : Option String)
  | noMethod (owner method : String)
  | unassignedFunction (name : String)
  | arity (name : String) (expected got : Nat)
  | callDepth (limit : Nat)
  | returnOutside
  | valueFromVoid
  | functionResultForm
  | notAFunction (token : String)
  | console (error : Diagnostic)
  deriving DecidableEq

namespace Cause

open ErrorKind in
/-- The cause with its class and its wording, where names are listed in the given order. -/
def diagnostic (c : Cause) (order : NameOrder := .made) : Diagnostic :=
  match c with
  | functionHeader => ⟨grammar, "function definition needs a name and a return type", none⟩
  | lambdaHeader => ⟨grammar, "lambda definition needs a return type", none⟩
  | malformedParameter formal =>
    ⟨grammar, s!"malformed parameter `{formal}`, expected name:type", none⟩
  | reservedParameter name =>
    ⟨grammar, s!"`{name}` is a reserved word and cannot name a parameter", none⟩
  | returnType name => ⟨typing, s!"invalid return type `{name}`", none⟩
  | parameterType name => ⟨typing, s!"invalid parameter type `{name}`", none⟩
  | duplicateFunction name => ⟨naming, s!"function `{name}` is defined more than once", none⟩
  | missingEntry name => ⟨naming, s!"unable to locate `{name}` function", none⟩
  | pastEnd => ⟨grammar, "reached the end of the program without `endfunc`", none⟩
  | nestedFunction => ⟨grammar, "function definitions cannot appear inside a function body", none⟩
  | unknownStatement word => ⟨grammar, s!"unknown statement `{word}`", none⟩
  | declarationForm => ⟨grammar, "invalid var definition syntax", none⟩
  | variableType name => ⟨typing, s!"invalid type `{name}`", none⟩
  | reservedVariable name =>
    ⟨grammar, s!"`{name}` is a reserved word and cannot name a variable", none⟩
  | redefinition name => ⟨naming, s!"redefinition of variable `{name}`", none⟩
  | assignmentForm => ⟨grammar, "invalid assignment statement", none⟩
  | missingCondition statement => ⟨grammar, s!"missing {statement.text} condition", none⟩
  | missingMarker marker => ⟨grammar, s!"missing {marker.text}", none⟩
  | noOpenBlock marker => ⟨grammar, s!"`{marker.text}` without an open block", none⟩
  | lambdaForm => ⟨grammar, "malformed lambda header", none⟩
  | literalForm token => ⟨grammar, s!"invalid integer literal `{token}`", none⟩
  | literalRange token => ⟨fault, s!"integer literal `{token}` is out of range", none⟩
  | missingOperands op => ⟨grammar, s!"invalid expression: `{op.text}` needs two operands", none⟩
  | missingOperand => ⟨grammar, "invalid expression: `!` needs an operand", none⟩
  | expressionForm tokens =>
    let written := " ".intercalate tokens
    ⟨grammar, s!"invalid expression `{written}`", none⟩
  | operandKinds left right op =>
    ⟨typing, s!"mismatched operand kinds {left.text} and {right.text} for `{op.text}`", none⟩
  | unsupported op kind =>
    ⟨typing, s!"operator `{op.text}` is not compatible with {kind.text}", none⟩
  | mismatch site expected got => Diagnostic.mismatch site.text expected.text got.text
  | divisionByZero => Diagnostic.divisionByZero
  | overflow op => Diagnostic.overflow op.text
  | unknownVariable name known =>
    Diagnostic.unknownVariable name (Text.suggestionHint (known.suggestion? order name))
  | noField owner field => ⟨naming, s!"`{owner}` has no field `{field}`", none⟩
  | calleeMissing => ⟨grammar, "missing function name in funccall", none⟩
  | printArity => ⟨grammar, "print needs at least one argument", none⟩
  | conversionArity => ⟨grammar, "strtoint takes exactly one argument", none⟩
  | conversion text => ⟨fault, s!"cannot convert \"{text}\" to an integer", none⟩
  | unknownFunction name suggestion =>
    Diagnostic.unknownFunction name (Text.suggestionHint suggestion)
  | noMethod owner method => ⟨naming, s!"`{owner}` has no method `{method}`", none⟩
  | unassignedFunction name => ⟨naming, s!"function variable `{name}` has not been assigned", none⟩
  | arity name expected got =>
    ⟨naming, s!"`{name}` expects {expected} argument(s), got {got}", none⟩
  | callDepth limit => ⟨fault, s!"maximum call depth of {limit} exceeded", none⟩
  | returnOutside => ⟨grammar, "return outside of a function", none⟩
  | valueFromVoid => ⟨typing, "cannot return a value from a void function", none⟩
  | functionResultForm => ⟨typing, "a func return must name a single function", none⟩
  | notAFunction token => ⟨typing, s!"`{token}` does not name a function", none⟩
  | console error => error

/-- The class of the error. -/
def kind (c : Cause) : ErrorKind := c.diagnostic.kind

/-- The line that the cause comes with. Only a console can give one. -/
def line? : Cause → Option Nat
  | console error => error.line
  | _ => none

/-- The class does not depend on how names are listed. -/
@[simp]
theorem kind_diagnostic (c : Cause) (order : NameOrder) : (c.diagnostic order).kind = c.kind := by
  cases c <;> rfl

@[simp]
theorem line_diagnostic (c : Cause) (order : NameOrder) : (c.diagnostic order).line = c.line? := by
  cases c <;> rfl

end Cause

/-- A cause and the line it arose at. Only the lack of an entry function has no
line. -/
structure Failure where
  cause : Cause
  line : Option Nat
  deriving DecidableEq

/-- The failure, ready to be shown, where names are listed in the given order. -/
def Failure.diagnostic (f : Failure) (order : NameOrder := .made) : Diagnostic :=
  match f.line with
  | some line => (f.cause.diagnostic order).atLine line
  | none => f.cause.diagnostic order

/-- The line that is shown is that of the cause, if it came with one. -/
@[simp]
theorem Failure.line_diagnostic (f : Failure) (order : NameOrder) :
    (f.diagnostic order).line = f.cause.line?.or f.line := by
  obtain ⟨cause, line⟩ := f
  cases line with
  | none => simp [diagnostic]
  | some line => cases h : cause.line? <;> simp [diagnostic, Diagnostic.atLine, h]

/-! ### Problems of the command line -/

/-- What the command line reports: an error of the program or of the system. -/
inductive Problem
  | system (message : String)
  | program (error : Diagnostic)
  deriving DecidableEq

namespace Problem

/-- The heading of a report. -/
def title : Problem → String
  | system _ => "IO error"
  | program error => error.kind.text

/-- What went wrong. -/
def message : Problem → String
  | system message => message
  | program error => error.message

/-- The line that is to blame, counted from zero. -/
def line? : Problem → Option Nat
  | system _ => none
  | program error => error.line

/-- The problem on one line of text. -/
def display : Problem → String
  | system message => s!"IO error: {message}"
  | program error => error.display

end Problem
end LineScript
