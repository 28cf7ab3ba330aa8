/-
The program itself: the command line on the streams and files of the system.

All decisions are made elsewhere. This module reads and writes: it answers the
requests of a running program from standard input and output, reads files, and
prints reports to standard error. Its two loops, over the cycles of the machine and
over the turns of a session, only hand on what a cycle or a turn gives. The result
of `main` is the exit status.
-/
import LineScript.Command
import LineScript.Machine.Trace

namespace LineScript.Main

/-- The bytes up to and including the next line feed, after those read so far. -/
partial def readRawLine (stdin : IO.FS.Stream) (sofar : Array UInt8) : IO (Array UInt8) := do
  let bytes ← stdin.read 1
  match bytes.data[0]? with
  | none => return sofar
  | some b => if b = 10 then return sofar.push b else readRawLine stdin (sofar.push b)

/-- The wording of a failure of the system, with its number. -/
def reason (code : UInt32) (details : String) : String := s!"{details} (os error {code})"

/-- The reason of a failure of the system. -/
def reasonOf : IO.Error → String
  | .noFileOrDirectory _ code details => reason code details
  | .inappropriateType _ code details => reason code details
  | .invalidArgument _ code details => reason code details
  | .permissionDenied _ code details => reason code details
  | .resourceExhausted _ code details => reason code details
  | .noSuchThing _ code details => reason code details
  | .hardwareFault code details => reason code details
  | .resourceVanished code details => reason code details
  | .otherError code details => reason code details
  | e => toString e

/-- The next line of standard input with its line feed; nothing at the end. -/
def readLine? : IO (Option (Except String String)) := do
  try
    let bytes ← readRawLine (← IO.getStdin) Array.empty
    if bytes.isEmpty then return none
    match Text.decode bytes.toList with
    | some text => return some (.ok text)
    | none => return some (.error Terminal.notUtf8)
  catch e => return some (.error (reasonOf e))

/-- The text of a file, or why it cannot be read. -/
def readFile (file : String) : IO (Except String String) := do
  if '\x00' ∈ file.toList then return .error FileError.nullCharacter.text
  try
    let handle ← IO.FS.Handle.mk file .read
    let bytes ← handle.readBinToEnd
    match Text.decode bytes.toList with
    | some text => return .ok text
    | none => return .error Terminal.notUtf8
  catch e => return .error (reasonOf e)

/-- Writes to standard output. -/
def put (text : String) : IO Unit := do
  let stdout ← IO.getStdout
  stdout.putStr text
  stdout.flush

/-- Writes a line of output for a running program. -/
def writeLine (text : String) : IO (Except Diagnostic Unit) := do
  try
    put (text ++ "\n")
    return .ok ()
  catch e => return .error (.console (reasonOf e))

/-- Reads a line of input for a running program. At the end of the input it is empty. -/
def readInput : IO (Except Diagnostic String) := do
  return Terminal.received ((← readLine?).getD (.ok ""))

/-- Prints a report. -/
def complain (r : Report) : IO Unit := do
  for line in r.lines do
    IO.eprintln line

/-- Answers the requests of a dialogue. -/
def answer {α : Type} : Dialogue α → IO α
  | .done a => return a
  | .write text next => do
    let reply ← writeLine text
    answer (next reply)
  | .read next => do
    let reply ← readInput
    answer (next reply)

/-- Prints events if a trace was asked for. -/
def tell (trace : Bool) (events : List Event) : IO Unit := do
  if trace then
    for event in events do
      IO.eprintln event.text

/-- Goes on with a run until it ends. -/
partial def drive (img : Image) (cfg : Config) (trace : Bool) (s : State) : IO Ending := do
  if trace then tell trace (Event.ofCycle img cfg s)
  match ← answer (Machine.cycle img cfg s) with
  | .going s => drive img cfg trace s
  | .ended ending _ => return ending

/-- Loads and runs a source text. -/
def runSource (source : String) (cfg : Config) (trace : Bool) : IO Ending := do
  match Machine.load (Program.ofSource source) cfg with
  | .error failure => return .failed failure
  | .ok m =>
    tell trace [Event.ofImage m.image]
    match m.entry with
    | .error failure => return .failed failure
    | .ok s =>
      tell trace [.started cfg.entry s.ip]
      drive m.image cfg trace s

/-- The surroundings that the system gives. Names are listed in the order they were made. -/
def surroundings : Surroundings IO where
  takeLine := readLine?
  put := put
  report := complain
  readFile := readFile
  run source cfg trace := do return (← runSource source cfg trace).error? .made

/-- Takes turns until the session is over. -/
partial def play (s : Session) : IO Unit := do
  if let some s ← s.turn surroundings then play s

end LineScript.Main

/-- Carries out what the arguments ask for. -/
def main (args : List String) : IO UInt32 := do
  let status ← LineScript.Command.serve LineScript.Main.surroundings LineScript.Main.play args
  return status.toUInt32
