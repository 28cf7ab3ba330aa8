/-
What a line asks for.

`plan` reads the line at the instruction pointer and works out what it does. It
only looks at the state, so a line that is refused has changed nothing. A plan is
an effect on the state, or a line of output, or a line of input after an optional
prompt.
-/
import LineScript.Machine.Effect
import LineScript.Machine.Expression

namespace LineScript

/-- What a line asks for. -/
inductive Plan
  | effect (e : Effect)
  | print (text : String)
  | input (prompt : Option String)

namespace Plan

variable (img : Image) (cfg : Config) (s : State)

/-! ### Variables -/

/-- The statement `var type name ...` makes variables. -/
def declaration : List String → Except Cause Plan
  | type :: name :: names =>
    match DeclaredType.storable? type with
    | none => .error (.variableType type)
    | some type =>
      match (name :: names).find? isReserved with
      | some word => .error (.reservedVariable word)
      | none => .ok (.effect (.declare type (name :: names)))
  | _ => .error .declarationForm

/-- The statement `assign target expression` writes a field or a variable. The owner
of a field is looked up before the expression, a variable after it. -/
def assignment : List String → Except Cause Plan
  | target :: token :: tokens =>
    match Operand.path? target with
    | some (owner, field) => do
      let o ← Operand.resolveObject img s owner
      let v ← Expression.eval img s (token :: tokens)
      return .effect (.storeField o field v)
    | none => do
      let v ← Expression.eval img s (token :: tokens)
      match s.scopes.cell? target with
      | none => .error (Operand.unknownVariable img s target)
      | some cell =>
        let kind := (s.scopes.read cell).kind
        if kind ≠ v.kind then .error (.mismatch (.assignment target) kind.type v.kind)
        else return .effect (.store cell v)
  | _ => .error .assignmentForm

/-! ### Branches and loops -/

/-- The truth value of a condition. -/
def condition (statement : Keyword) : List String → Except Cause Bool
  | [] => .error (.missingCondition statement)
  | token :: tokens => do
    match ← Expression.eval img s (token :: tokens) with
    | .bool b => return b
    | v => .error (.mismatch (.condition statement) .bool v.kind)

/-- The statement `if condition` goes on with its body, or after the line that ends
the body. -/
def branch (args : List String) : Except Cause Plan := do
  if ← condition img s .branch args then
    return .effect (.openBlock (s.ip + 1))
  else
    match img.program.branchEnd? s.ip with
    | none => .error (.missingMarker .endBranch)
    | some line =>
      if img.program.keyword? line = some .otherwise then return .effect (.openBlock (line + 1))
      else return .effect (.goto (line + 1))

/-- The statement `while condition` goes on with its body, or after its end. -/
def loop (args : List String) : Except Cause Plan := do
  if ← condition img s .loop args then
    return .effect (.openBlock (s.ip + 1))
  else
    match img.program.loopEnd? s.ip with
    | none => .error (.missingMarker .endLoop)
    | some line => return .effect (.goto (line + 1))

/-- The line after one that was looked for. -/
def after (marker : Keyword) : Option Nat → Except Cause Nat
  | some line => .ok (line + 1)
  | none => .error (.missingMarker marker)

/-- Where the line that ends a block leads: `else` to the end of the whole
statement, `endif` to the next line, `endwhile` back to the head of the loop. -/
def blockExit (marker : Keyword) : Except Cause Nat :=
  match marker with
  | .otherwise => after .endBranch (img.program.blockEnd? .endBranch s.ip)
  | .endLoop =>
    match img.program.loopStart? s.ip with
    | some line => .ok line
    | none => .error (.missingMarker .loop)
  | _ => .ok (s.ip + 1)

/-- A line that ends a block. -/
def closing (marker : Keyword) : Except Cause Plan :=
  if s.scopes.current.inner.isEmpty then .error (.noOpenBlock marker)
  else .ok (.effect (.closeBlock (blockExit img s marker)))

/-! ### Calls -/

/-- The binding of a parameter to its argument. A parameter by reference shares the
variable that the argument names, if it names one. -/
def argument (callee : String) (param : Param) (actual : String) : Except Cause Binding := do
  let v ← Operand.resolve img s actual
  if v.kind ≠ param.type.kind then
    .error (.mismatch (.argument param.name callee) param.type v.kind)
  else if param.type.isReference then
    match s.scopes.cell? actual with
    | some cell => return .shared cell
    | none => return .fresh v
  else return .fresh v

/-- The bindings of all parameters, from left to right. -/
def arguments (callee : String) :
    List Param → List String → Except Cause (List (String × Binding))
  | param :: params, actual :: actuals => do
    let binding ← argument img s callee param actual
    let bindings ← arguments callee params actuals
    return (param.name, binding) :: bindings
  | _, _ => .ok []

/-- A call of a function, lambda or method. -/
def call (name : String) (actuals : List String) : Except Cause Plan := do
  let callee ← Operand.callee img s name
  match img.functions.signature? callee.id with
  | none => .error (.unassignedFunction name)
  | some sig =>
    if sig.params.length ≠ actuals.length then
      .error (.arity name sig.params.length actuals.length)
    else do
      let bindings ← arguments img s name sig.params actuals
      if cfg.maxCallDepth ≤ s.depth then .error (.callDepth cfg.maxCallDepth)
      else
        let this := callee.receiver.toList.map fun b => (receiverName, b)
        return .effect (.enter sig (this ++ bindings))

/-- The integer that a text spells, blanks at its ends aside. -/
def conversion (text : String) : Except Cause Int64 :=
  match Text.readDecimal (Text.trimChars text.toList) with
  | .ok n => .ok n
  | .error _ => .error (.conversion text)

/-- A call of a built-in function. -/
def builtin : Builtin → List String → Except Cause Plan
  | .print, [] => .error .printArity
  | .print, actual :: actuals => return .print (← Operand.render img s (actual :: actuals))
  | .input, [] => .ok (.input none)
  | .input, actual :: actuals =>
    return .input (some (← Operand.render img s (actual :: actuals)))
  | .strtoint, [actual] => do
    match ← Operand.resolve img s actual with
    | .str text => return .effect (.publish (.int (← conversion text)))
    | v => .error (.mismatch .conversion .str v.kind)
  | .strtoint, _ => .error .conversionArity

/-- The statement `funccall name argument ...` calls what the name stands for. -/
def invocation : List String → Except Cause Plan
  | [] => .error .calleeMissing
  | name :: actuals =>
    match Builtin.ofText? name with
    | some b => builtin img s b actuals
    | none => call img cfg s name actuals

/-- The result type of the body a line is in: that of a lambda before that of a
function. -/
def resultType? : Option DeclaredType :=
  (img.functions.lambdaResult? s.ip).or (img.functions.functionResult? s.ip)

/-- The value that `return` gives back from a body with the result type. -/
def returnValue (type : DeclaredType) (args : List String) : Except Cause Value := do
  let v ← match type, args with
    | .func, [token] => Operand.functionValue img s token
    | .func, _ => .error .functionResultForm
    | _, _ => Expression.eval img s args
  if v.kind ≠ type.kind then .error (.mismatch .result type v.kind)
  else return v

/-- The statement `return` leaves a function or lambda, with a value or without. -/
def giveBack (args : List String) : Except Cause Plan :=
  match resultType? img s with
  | none => .error .returnOutside
  | some type =>
    match args with
    | [] => .ok (.effect (.leave none (some type)))
    | token :: tokens =>
      if type = .void then .error .valueFromVoid
      else do
        let v ← returnValue img s type (token :: tokens)
        return .effect (.leave (some v) (some type))

/-- A line `lambda ...` captures the variables and skips the body. -/
def lambda : Except Cause Plan :=
  match img.functions.lookup? (lambdaName s.ip) with
  | none => .error .lambdaForm
  | some id =>
    let next := after .endLambda (img.program.blockEnd? .endLambda s.ip)
    .ok (.effect (.capture id next))

/-! ### Lines -/

/-- What a statement asks for. -/
def statement (keyword : Keyword) (args : List String) : Except Cause Plan :=
  match keyword with
  | .var => declaration args
  | .assign => assignment img s args
  | .call => invocation img cfg s args
  | .branch => branch img s args
  | .loop => loop img s args
  | .otherwise | .endBranch | .endLoop => closing img s keyword
  | .ret => giveBack img s args
  | .endFunc => .ok (.effect (.leave none (img.functions.functionResult? s.ip)))
  | .lambda => lambda img s
  | .endLambda => .ok (.effect (.leave none (img.functions.lambdaResult? s.ip)))
  | .func => .error .nestedFunction

/-- What the line at the instruction pointer asks for. -/
def next : Except Cause Plan :=
  if img.program.size ≤ s.ip then .error .pastEnd
  else match (img.program.line s.ip).tokens with
    | [] => .ok (.effect (.goto (s.ip + 1)))
    | word :: args =>
      match Keyword.ofText? word with
      | some keyword => statement img cfg s keyword args
      | none => .error (.unknownStatement word)

end Plan
end LineScript
