/-
What the command line works with.

`Surroundings` are the few things that the command line asks for, in any monad: a line of input, a
text to be written, a report to be shown, the text of a file, and the run of a program. What is
decided with the answers is written once, over any surroundings.

A `Desk` has a terminal, the files that can be read, and a pile of reports, the last one on top.
The surroundings at a desk change nothing but the desk.
-/
import LineScript.Files
import LineScript.Machine.Run
import LineScript.Report

namespace LineScript

/-- What the command line asks of its surroundings. -/
structure Surroundings (m : Type → Type) where
  /-- The next line of input with its line feed, or why there is none; nothing at the end. -/
  takeLine : m (Option (Except String String))
  /-- Writes a text to the output. -/
  put : String → m Unit
  /-- Shows a report. -/
  report : Report → m Unit
  /-- The text of a file, or why it cannot be read. -/
  readFile : String → m (Except String String)
  /-- Runs a source text, with a trace or without, and gives the error of the run. -/
  run : (source : String) → Config → (trace : Bool) → m (Option Diagnostic)

namespace Surroundings

variable {m : Type → Type} [Monad m]

/-- Runs a source text and reports its error. The result says whether it went well. -/
def runAndReport (env : Surroundings m) (file source : String) (config : Config)
    (trace : Bool) : m Bool := do
  match ← env.run source config trace with
  | none => return true
  | some error =>
    env.report (Report.ofError file source error)
    return false

end Surroundings

/-- A terminal, the files that can be read, and the reports so far. -/
structure Desk where
  terminal : Terminal := {}
  files : FileTree := {}
  reports : Array Report := #[]
  /-- How names are listed in the run that leads to the report with the number. -/
  orders : Nat → NameOrder := fun _ => .made

namespace Desk

/-- Writes to the terminal. -/
def put (d : Desk) (text : String) : Desk := { d with terminal := d.terminal.put text }

/-- Adds a report. -/
def report (d : Desk) (r : Report) : Desk := { d with reports := d.reports.push r }

/-- Takes a line off the input, unless there is none. -/
def takeLine? (d : Desk) : Option (Except String String) × Desk :=
  if d.terminal.stdin.isEmpty then (none, d)
  else
    let (line, terminal) := d.terminal.takeLine
    (some line, { d with terminal })

/-- The text of a file, or why it cannot be read. -/
def readFile (d : Desk) (path : String) : Except String String :=
  match d.files.read path with
  | .ok text => .ok text
  | .error reason => .error reason.text

/-- Runs a source text on the terminal, where it may execute `fuel` lines. -/
def run (d : Desk) (source : String) (config : Config) (fuel : Nat) : Option Diagnostic × Desk :=
  let (ending, terminal) := runSource source config Terminal.console fuel d.terminal
  (ending.error? (d.orders d.reports.size), { d with terminal })

/-- The surroundings at a desk. A trace is not kept. -/
def surroundings (fuel : Nat) : Surroundings (StateM Desk) where
  takeLine := modifyGet takeLine?
  put text := modify fun d => d.put text
  report r := modify fun d => d.report r
  readFile file := do return (← get).readFile file
  run source config _ := modifyGet fun d => d.run source config fuel

end Desk
end LineScript
