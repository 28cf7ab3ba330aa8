/-
Running a program.

`step` executes one line. `Machine.cycle` does so within a run: it sees when the run
has ended, and gives a failure the number of the line that was executed.
`Machine.drive` goes on until the run ends or a line fails. A run may go on for
ever, so `drive` is given a number of lines it may execute; when they do not
suffice it says so.

A machine keeps its last state, but a run begins with a new one, so nothing of an
earlier run is left. Only a missing entry function leaves the last state as it is.
-/
import LineScript.Console
import LineScript.Machine.Plan

namespace LineScript

/-- Publishes a line that was read, or fails with the console's error. -/
def State.receive (s : State) : Except Diagnostic String → Outcome
  | .ok line => { state := (s.publish (.str line)).advance }
  | .error error => { state := s, error := some (.console error) }

/-- Carries out a plan. -/
def Plan.dialogue (functions : FunctionTable) (s : State) : Plan → Dialogue Outcome
  | .effect e => .done (e.apply functions s)
  | .print text =>
    .write text fun answer =>
      match answer with
      | .ok _ => .done { state := s.advance }
      | .error error => .done { state := s, error := some (.console error) }
  | .input none => .read fun answer => .done (s.receive answer)
  | .input (some prompt) =>
    .write prompt fun answer =>
      match answer with
      | .ok _ => .read fun answer => .done (s.receive answer)
      | .error error => .done { state := s, error := some (.console error) }

/-- Executes the line at the instruction pointer. -/
def step (img : Image) (cfg : Config) (s : State) : Dialogue Outcome :=
  match Plan.next img cfg s with
  | .error cause => .done { state := s, error := some cause }
  | .ok plan => plan.dialogue img.functions s

/-- How a run ends. -/
inductive Ending
  | finished
  | failed (failure : Failure)
  | unfinished
  deriving DecidableEq

/-- The error of a run. -/
def Ending.failure? : Ending → Option Failure
  | .failed failure => some failure
  | _ => none

/-- The error that a run returns, where names are listed in the given order. -/
def Ending.error? (e : Ending) (order : NameOrder) : Option Diagnostic :=
  e.failure?.map fun failure => failure.diagnostic order

@[simp]
theorem Ending.error?_failed (failure : Failure) (order : NameOrder) :
    (Ending.failed failure).error? order = some (failure.diagnostic order) := rfl

/-- What comes of one more line: the run goes on, or it has ended. -/
inductive Progress
  | going (s : State)
  | ended (ending : Ending) (s : State)

/-- The end of a run: how it came, and the states of the machine and the console. -/
structure Result (σ : Type) where
  ending : Ending
  state : State
  console : σ

/-- A loaded program, how to run it, and the state its last run has left. -/
structure Machine where
  image : Image
  config : Config := {}
  state : State := {}

namespace Machine

/-- A machine for a program. -/
def load (p : Program) (config : Config) : Except Failure Machine :=
  (Image.load p).map fun image => { image, config }

/-- Executes one more line, unless the run has ended. -/
def cycle (img : Image) (cfg : Config) (s : State) : Dialogue Progress :=
  if s.terminated then .done (.ended .finished s)
  else (step img cfg s).map fun o =>
    match o.error with
    | none => .going o.state
    | some cause => .ended (.failed ⟨cause, some s.ip⟩) o.state

/-- Executes lines, at most `fuel` of them, until the run ends or a line fails. -/
def drive {σ : Type} (img : Image) (cfg : Config) (con : Console σ) :
    (fuel : Nat) → State → σ → Result σ
  | 0, s, w => ⟨if s.terminated then .finished else .unfinished, s, w⟩
  | fuel + 1, s, w =>
    match (cycle img cfg s).run con w with
    | (.going s, w) => drive img cfg con fuel s w
    | (.ended ending s, w) => ⟨ending, s, w⟩

/-- The state in which a run begins: at the first line of the entry function. -/
def entry (m : Machine) : Except Failure State :=
  match (m.image.functions.named? m.config.entry).bind m.image.functions.signature? with
  | some sig => .ok (State.start sig.start)
  | none => .error ⟨.missingEntry m.config.entry, none⟩

/-- Runs the program from its entry function. -/
def run {σ : Type} (m : Machine) (con : Console σ) (fuel : Nat) (w : σ) : Result σ :=
  match m.entry with
  | .ok s => drive m.image m.config con fuel s w
  | .error failure => ⟨.failed failure, m.state, w⟩

/-- The machine in the state that a run has left. -/
def after {σ : Type} (m : Machine) (r : Result σ) : Machine := { m with state := r.state }

end Machine

/-- Loads and runs a source text. The error is that of loading or of the run. -/
def runSource {σ : Type} (source : String) (config : Config) (con : Console σ) (fuel : Nat)
    (w : σ) : Ending × σ :=
  match Machine.load (Program.ofSource source) config with
  | .error failure => (.failed failure, w)
  | .ok m =>
    let r := m.run con fuel w
    (r.ending, r.console)

end LineScript
