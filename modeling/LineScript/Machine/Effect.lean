/-
What executing a line does to the state.

An `Effect` is decided on before anything changes (`Machine.Plan`), so applying it
asks no more questions: only a declaration may stop half way, and the two effects
that look for the end of a body may find that there is none. `Effect.apply` gives
the state that is left and the error, if there is one.
-/
import LineScript.Machine.State

namespace LineScript

/-- The change a line makes. -/
inductive Effect
  /-- Goes on at a line. -/
  | goto (next : Nat)
  /-- Makes variables of a type, one after the other, and goes on at the next line. -/
  | declare (type : DeclaredType) (names : List String)
  /-- Writes a cell and goes on at the next line. -/
  | store (cell : CellId) (v : Value)
  /-- Writes a field and goes on at the next line. -/
  | storeField (o : ObjId) (field : String) (v : Value)
  /-- Publishes a result and goes on at the next line. -/
  | publish (v : Value)
  /-- Opens a block and goes on at a line. -/
  | openBlock (next : Nat)
  /-- Closes the innermost block and goes on where that leads. -/
  | closeBlock (next : Except Cause Nat)
  /-- Captures the variables for a lambda and goes on after its body. -/
  | capture (id : FuncId) (next : Except Cause Nat)
  /-- Calls a function in a new frame with these bindings. -/
  | enter (sig : Signature) (bindings : List (String × Binding))
  /-- Leaves a function whose result has the declared type. -/
  | leave (v : Option Value) (declared : Option DeclaredType)

/-- The state a line leaves, and what went wrong. -/
structure Outcome where
  state : State
  error : Option Cause := none

namespace State

/-- Goes on at the next line. -/
def advance (s : State) : State := { s with ip := s.ip + 1 }

/-- Goes on at a line, or stays with an error. -/
def goOn (s : State) : Except Cause Nat → Outcome
  | .ok next => { state := { s with ip := next } }
  | .error cause => { state := s, error := some cause }

/-- Makes variables of a type in the innermost block until a name is taken. -/
def declare (s : State) (type : DeclaredType) : List String → Outcome
  | [] => { state := s }
  | name :: rest =>
    if s.scopes.current.innermost.contains name then
      { state := s, error := some (.redefinition name) }
    else
      let (v, heap) := s.heap.default type
      declare { s with heap, scopes := s.scopes.define name v } type rest

/-- Writes a field. A function becomes known under the name of the field. -/
def storeField (s : State) (o : ObjId) (field : String) (v : Value) : State :=
  let aliases := match v with
    | .func (some id) => s.aliases.insert field id
    | _ => s.aliases
  { s with heap := s.heap.setField o field v, aliases }

/-- Keeps copies of all variables and publishes the lambda. -/
def captureFor (s : State) (id : FuncId) : State :=
  let (captured, heap) := s.scopes.snapshot s.heap
  { s with heap, capture := some captured }.publish (.func (some id))

/-- Opens a frame for a call. In the body of a lambda the captured values come
first, so bindings of the call win over them. -/
def enter (s : State) (functions : FunctionTable) (sig : Signature)
    (bindings : List (String × Binding)) : State :=
  let s := { s with
    returns := s.returns.push (s.ip + 1)
    scopes := s.scopes.pushFrame
    ip := sig.start }
  let s := if (functions.lambdaResult? sig.start).isSome then s.restoreCapture else s
  { s with scopes := s.scopes.bindAll bindings }

/-- Publishes the result of a call: the value that is returned, else the default of
the declared type. -/
def publishResult (s : State) : Option Value → Option DeclaredType → State
  | some v, _ => s.publish v
  | none, some type =>
    if type = .void then s
    else
      let (v, heap) := s.heap.default type
      { s with heap }.publish v
  | none, none => s

/-- Goes back to the caller, or ends the run if there is none. -/
def leave (s : State) (v : Option Value) (declared : Option DeclaredType) : State :=
  match s.returns.back? with
  | none => { s with terminated := true }
  | some resume =>
    let s := { s with
      returns := s.returns.pop
      scopes := s.scopes.popFrame?.getD s.scopes }
    { s.publishResult v declared with ip := resume }

end State

/-- Applies an effect. -/
def Effect.apply (functions : FunctionTable) (s : State) : Effect → Outcome
  | .goto next => { state := { s with ip := next } }
  | .declare type names =>
    let o := s.declare type names
    if o.error.isSome then o else { state := o.state.advance }
  | .store cell v => { state := { s with scopes := s.scopes.write cell v }.advance }
  | .storeField o field v => { state := (s.storeField o field v).advance }
  | .publish v => { state := (s.publish v).advance }
  | .openBlock next => { state := { s with scopes := s.scopes.nestBlock, ip := next } }
  | .closeBlock next =>
    { s with scopes := s.scopes.unnestBlock?.getD s.scopes }.goOn next
  | .capture id next => (s.captureFor id).goOn next
  | .enter sig bindings => { state := s.enter functions sig bindings }
  | .leave v declared => { state := s.leave v declared }

end LineScript
