/-
Operands: what a single token denotes in a state.

A token is tried as a string, as an integer, as a truth value, as a path
`owner.field`, and at last as a name. A path is divided at its last dot and its
owner is an operand in turn, so a path with several dots is followed from the
left. A name is that of a variable, else of a function, else of a field to which a
function was assigned.
-/
import LineScript.Arithmetic
import LineScript.Machine.State

namespace LineScript
namespace Operand

/-! ### Literals -/

/-- The characters between the quotes of a string token, whose closing quote may
be missing. -/
def unquote (body : List Char) : List Char :=
  if body.getLast? = some '"' then body.dropLast else body

/-- The token is written like an integer: digits only, or a minus sign and
something more. -/
def isIntegerLike : List Char → Bool
  | '-' :: cs => !cs.isEmpty
  | cs => !cs.isEmpty && cs.all Char.isDigit

/-- The integer that a token denotes. -/
def integer (token : String) : Except Cause Int64 :=
  match Text.readDecimal token.toList with
  | .ok n => .ok n
  | .error .malformed => .error (.literalForm token)
  | .error .outOfRange => .error (.literalRange token)

/-- What a token denotes by its spelling alone, if it is a literal. -/
def literal? (token : String) : Option (Except Cause Value) :=
  match token.toList with
  | '"' :: body => some (.ok (.str (String.ofList (unquote body))))
  | cs =>
    if isIntegerLike cs then some ((integer token).map .int)
    else if token = "true" then some (.ok (.bool true))
    else if token = "false" then some (.ok (.bool false))
    else none

/-! ### Paths -/

/-- The parts of a text before and after its last dot. -/
def splitLastDot : List Char → Option (List Char × List Char)
  | [] => none
  | c :: cs =>
    match splitLastDot cs with
    | some (before, after) => some (c :: before, after)
    | none => if c = '.' then some ([], cs) else none

/-- The owner and the field of a path. -/
def path? (token : String) : Option (String × String) :=
  (splitLastDot token.toList).map fun parts => (String.ofList parts.1, String.ofList parts.2)

/-- The number of dots in a token. -/
def dots (token : String) : Nat := token.toList.count '.'

/-! ### Names -/

/-- The names of the variables in sight and of the functions. -/
def vocabulary (img : Image) (s : State) : Vocabulary :=
  ⟨s.scopes.current.nameBlocks, img.functions.names⟩

/-- The error for a name that is no variable. The name of any variable or function may
have been meant. -/
def unknownVariable (img : Image) (s : State) (name : String) : Cause :=
  .unknownVariable name (vocabulary img s)

/-- The error for a name that is no function. -/
def unknownFunction (img : Image) (name : String) : Cause :=
  .unknownFunction name (Text.nearest? name img.functions.names Text.suggestionThreshold)

/-- The function that a name stands for when it is no variable. -/
def function? (img : Image) (s : State) (name : String) : Option FuncId :=
  (img.functions.named? name).or (s.aliases.find? name)

/-- The value of a name. -/
def ofName (img : Image) (s : State) (name : String) : Except Cause Value :=
  match s.scopes.get? name with
  | some v => .ok v
  | none =>
    match function? img s name with
    | some id => .ok (.func (some id))
    | none => .error (unknownVariable img s name)

/-! ### Resolution -/

/-- The object a value is, or an error that names the token it came from. -/
def asObject (token : String) : Value → Except Cause ObjId
  | .object o => .ok o
  | v => .error (.mismatch (.fieldAccess token) .object v.kind)

/-- The value of a token with at most `dots` dots. -/
def resolveWithin (img : Image) (s : State) : (dots : Nat) → String → Except Cause Value
  | 0, token =>
    match literal? token with
    | some value => value
    | none => ofName img s token
  | dots + 1, token =>
    match literal? token with
    | some value => value
    | none =>
      match path? token with
      | none => ofName img s token
      | some (owner, field) =>
        match (resolveWithin img s dots owner).bind (asObject owner) with
        | .error cause => .error cause
        | .ok o =>
          match s.heap.field? o field with
          | some v => .ok v
          | none => .error (.noField owner field)

/-- The value of a token. -/
def resolve (img : Image) (s : State) (token : String) : Except Cause Value :=
  resolveWithin img s (dots token) token

/-- The object that a token denotes. -/
def resolveObject (img : Image) (s : State) (token : String) : Except Cause ObjId :=
  (resolve img s token).bind (asObject token)

/-- The text of several tokens, one after the other. -/
def render (img : Image) (s : State) : List String → Except Cause String
  | [] => .ok ""
  | token :: rest => do
    let v ← resolve img s token
    let text ← render img s rest
    return v.display ++ text

/-! ### Callees -/

/-- What a call is to: a function, and for a method the object it is called on. -/
structure Callee where
  id : FuncId
  receiver : Option Binding := none

/-- The function a value is, or an error that names the call's target. -/
def asFunction (name : String) : Value → Except Cause FuncId
  | .func (some id) => .ok id
  | .func none => .error (.unassignedFunction name)
  | v => .error (.mismatch (.call name) .func v.kind)

/-- How a method sees its object: as an alias of the variable that is named, or as
a value if no variable has the name. -/
def receiver (s : State) (owner : String) (o : ObjId) : Binding :=
  match s.scopes.cell? owner with
  | some cell => .shared cell
  | none => .fresh (.object o)

/-- The target of a call. -/
def callee (img : Image) (s : State) (name : String) : Except Cause Callee :=
  match path? name with
  | some (owner, method) => do
    let o ← resolveObject img s owner
    match s.heap.field? o method with
    | none => .error (.noMethod owner method)
    | some v =>
      let id ← asFunction name v
      return ⟨id, some (receiver s owner o)⟩
  | none =>
    match s.scopes.get? name with
    | some v => do
      let id ← asFunction name v
      return ⟨id, none⟩
    | none =>
      match function? img s name with
      | some id => .ok ⟨id, none⟩
      | none => .error (unknownFunction img name)

/-- The function value that a token denotes, for a result of type `func`. -/
def functionValue (img : Image) (s : State) (token : String) : Except Cause Value :=
  match resolve img s token with
  | .ok (.func id) => .ok (.func id)
  | _ => .error (.notAFunction token)

end Operand
end LineScript
