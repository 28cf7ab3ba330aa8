/-
The state of a running program.

An `Image` is a program with its functions; it does not change during a run. A
`State` is all that does: the line to execute next, the lines to resume at after
the calls that are active, the variables and objects, what the last lambda
captured, and the names under which functions were stored in fields.
-/
import LineScript.FunctionTable
import LineScript.Scope

namespace LineScript

/-- How a program is to be run. -/
structure Config where
  /-- The function to start in. -/
  entry : String := defaultEntry
  /-- How many calls may be active at once. -/
  maxCallDepth : Nat := 100000
  deriving DecidableEq

/-- A loaded program. -/
structure Image where
  program : Program
  functions : FunctionTable
  deriving DecidableEq

/-- Loads a program: all its headers must be in order. -/
def Image.load (p : Program) : Except Failure Image :=
  (FunctionTable.ofProgram p).map fun functions => ⟨p, functions⟩

/-- The state of a run. -/
structure State where
  /-- The line to execute next. -/
  ip : Nat := 0
  /-- The lines to resume at, one for each active call, the innermost last. -/
  returns : Array Nat := #[]
  scopes : ScopeStack := {}
  heap : Heap := {}
  /-- What the lambda definition executed last has captured. -/
  capture : Option (Table Value) := none
  /-- The names of fields to which functions were assigned. -/
  aliases : Table FuncId := {}
  terminated : Bool := false
  deriving DecidableEq

namespace State

/-- The state before the first line at which a run starts. -/
def start (line : Nat) : State := { ip := line }

/-- The value of a variable of the current frame. -/
def get? (s : State) (name : String) : Option Value := s.scopes.get? name

/-- The number of active calls. -/
def depth (s : State) : Nat := s.returns.size

/-- Publishes a result under the name for its kind, in the root block of the
current frame. An object is published as a shallow copy; void is not published. -/
def publish (s : State) (v : Value) : State :=
  match v.kind.resultName? with
  | none => s
  | some name =>
    match v with
    | .object o =>
      let (copy, heap) := s.heap.shallowCopy o
      { s with heap, scopes := s.scopes.publish name (.object copy) }
    | v => { s with scopes := s.scopes.publish name v }

/-- Binds copies of the captured values in the current frame. -/
def restoreCapture (s : State) : State :=
  match s.capture with
  | none => s
  | some captured =>
    let (copies, heap) := s.heap.deepCopyAll captured.entries
    { s with heap, scopes := s.scopes.bindAll (copies.map fun e => (e.1, .fresh e.2)) }

end State
end LineScript
