/-
The trace of a run: what can be told about it, event by event.

The events of a line are known as soon as its plan is, before it is carried out,
so the trace of a run is read off the states that the run passes through.
-/
import LineScript.Machine.Run
import LineScript.Text.Blank

namespace LineScript

/-- Something worth telling about a run. -/
inductive Event
  | loaded (functions lambdas : Nat)
  | started (entry : String) (line : Nat)
  | executed (ip : Nat) (text : String)
  | captured (lambda : String) (count : Nat)
  | called (function : String) (depth : Nat)
  | returned (resume depth : Nat)
  | finished
  deriving DecidableEq

namespace Event

/-- The event on one line of text. -/
def text : Event → String
  | loaded functions lambdas =>
    s!"resolved function metadata functions={functions} lambdas={lambdas}"
  | started entry line => s!"running program entry={entry} start={line}"
  | executed ip text => s!"step ip={ip} line={text}"
  | captured lambda count => s!"capture lambda={lambda} captured={count}"
  | called function depth => s!"call function={function} depth={depth}"
  | returned resume depth => s!"return resume={resume} depth={depth}"
  | finished => "program finished"

/-- What loading tells. -/
def ofImage (img : Image) : Event :=
  let lambdas := img.functions.lambdaCount
  .loaded (img.functions.signatures.size - lambdas) lambdas

/-- What an effect tells, seen from the state it is applied to. -/
def ofEffect (s : State) : Effect → List Event
  | .capture _ _ => [.captured (lambdaName s.ip) s.scopes.current.visible.size]
  | .enter sig _ => [.called sig.name (s.depth + 1)]
  | .leave _ _ =>
    match s.returns.back? with
    | some resume => [.returned resume (s.depth - 1)]
    | none => []
  | _ => []

/-- What the line at the instruction pointer tells. -/
def ofLine (img : Image) (cfg : Config) (s : State) : List Event :=
  if img.program.size ≤ s.ip then []
  else
    let here := Event.executed s.ip (Text.trimEnd (img.program.line s.ip).text)
    match Plan.next img cfg s with
    | .ok (.effect e) => here :: ofEffect s e
    | _ => [here]

/-- What a cycle of the machine tells. -/
def ofCycle (img : Image) (cfg : Config) (s : State) : List Event :=
  if s.terminated then [.finished] else ofLine img cfg s

end Event

namespace Machine

/-- The events of the lines that `drive` executes, added to those so far. -/
def traceFrom {σ : Type} (img : Image) (cfg : Config) (con : Console σ) :
    (fuel : Nat) → State → σ → Array Event → Array Event
  | 0, s, _, told => if s.terminated then told.push .finished else told
  | fuel + 1, s, w, told =>
    let told := told ++ (Event.ofCycle img cfg s).toArray
    match (cycle img cfg s).run con w with
    | (.going s, w) => traceFrom img cfg con fuel s w told
    | (.ended _ _, _) => told

/-- The events of a run. -/
def trace {σ : Type} (m : Machine) (con : Console σ) (fuel : Nat) (w : σ) : Array Event :=
  match m.entry with
  | .ok s =>
    let started := Event.started m.config.entry s.ip
    traceFrom m.image m.config con fuel s w (Array.singleton started)
  | .error _ => Array.empty

end Machine
end LineScript
