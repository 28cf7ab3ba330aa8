/-
The command line.

`Command.parse` reads the arguments, from left to right; a request for help or for
the version takes effect where it stands, before anything to its right is looked
at. `Command.serve` carries a command out in its surroundings and gives the exit
status: 0 if all went well, 1 if something was reported, 2 if the arguments are
wrong. `Command.execute` does so at a desk.
-/
import LineScript.Listing
import LineScript.Session

namespace LineScript

/-- What the arguments ask for. -/
inductive Command
  | run (file : String) (config : Config) (trace : Bool)
  | tokens (file : String)
  | functions (file : String)
  | session
  | version
  | help
  deriving DecidableEq

namespace Command

/-! ### Arguments -/

/-- The options of a subcommand. -/
inductive Flag
  | entry
  | maxDepth
  | trace
  | help
  deriving DecidableEq

/-- An argument, by its form. -/
inductive Argument
  /-- The mark `--`, after which everything is a positional argument. -/
  | separator
  /-- An option `--name` or `--name=value`. -/
  | long (name : String) (value : Option String)
  /-- Options of one letter each, `-letters`. -/
  | short (letters : List Char)
  | positional (text : String)

/-- The parts of a text before and after its first equals sign. -/
def splitEquals : List Char → List Char × Option (List Char)
  | [] => ([], none)
  | c :: cs =>
    if c = '=' then ([], some cs)
    else
      let (name, value) := splitEquals cs
      (c :: name, value)

/-- The form of an argument. A single dash is a positional argument. -/
def Argument.ofText (text : String) : Argument :=
  match text.toList with
  | ['-', '-'] => .separator
  | '-' :: '-' :: cs =>
    let (name, value) := splitEquals cs
    .long (String.ofList name) (value.map String.ofList)
  | '-' :: c :: cs => .short (c :: cs)
  | _ => .positional text

/-- What was read of a subcommand's arguments so far. -/
structure Options where
  file : Option String := none
  entry : Option String := none
  maxDepth : Option Nat := none
  trace : Bool := false

/-- The option of this name. -/
def flag? : String → Option Flag
  | "entry" => some .entry
  | "max-depth" => some .maxDepth
  | "trace" => some .trace
  | "help" => some .help
  | _ => none

/-- One more than the greatest call depth that can be asked for. -/
def depthBound : Nat := UInt64.size

/-- Reads digits onto the end of a number. -/
def readNatural : Nat → List Char → Option Nat
  | n, [] => some n
  | n, c :: cs =>
    match Text.digit? c with
    | some d => readNatural (n * 10 + d) cs
    | none => none

/-- Reads a call depth: digits, perhaps after a plus sign. -/
def readDepth (text : String) : Option Nat :=
  let digits := match text.toList with
    | '+' :: cs => cs
    | cs => cs
  if digits.isEmpty then none else (readNatural 0 digits).filter (· < depthBound)

/-- Sets an option that takes a value. No option may be set twice. -/
def Options.set (o : Options) : Flag → String → Option Options
  | .entry, value => if o.entry.isSome then none else some { o with entry := some value }
  | .maxDepth, value =>
    if o.maxDepth.isSome then none
    else (readDepth value).map fun depth => { o with maxDepth := some depth }
  | _, _ => none

/-- Sets the file, which has a name and is only one. -/
def Options.setFile (o : Options) (file : String) : Option Options :=
  if o.file.isSome || file.isEmpty then none else some { o with file := some file }

/-- What reading a subcommand's arguments gives. -/
inductive Reading
  | options (o : Options)
  | help
  | wrong

/-- Reads positional arguments only. -/
def readPositional (takesFile : Bool) : Options → List String → Reading
  | o, [] => .options o
  | o, arg :: rest =>
    match if takesFile then o.setFile arg else none with
    | some o => readPositional takesFile o rest
    | none => .wrong

/-- Reads the arguments of a subcommand that knows the given options. -/
def readOptions (flags : List Flag) (takesFile : Bool) : Options → List String → Reading
  | o, [] => .options o
  | o, arg :: rest =>
    match Argument.ofText arg with
    | .separator => readPositional takesFile o rest
    | .positional text =>
      match if takesFile then o.setFile text else none with
      | some o => readOptions flags takesFile o rest
      | none => .wrong
    | .short letters => if letters.head? = some 'h' then .help else .wrong
    | .long name value =>
      match (flag? name).filter (· ∈ flags), value with
      | some .help, none => .help
      | some .trace, none =>
        if o.trace then .wrong else readOptions flags takesFile { o with trace := true } rest
      | some flag, some value =>
        match o.set flag value with
        | some o => readOptions flags takesFile o rest
        | none => .wrong
      | some flag, none =>
        match rest with
        | value :: rest =>
          match Argument.ofText value with
          | .positional value =>
            match o.set flag value with
            | some o => readOptions flags takesFile o rest
            | none => .wrong
          | _ => .wrong
        | [] => .wrong
      | none, _ => .wrong

/-- The command that options of `run` describe. -/
def ofRunOptions (o : Options) : Option Command :=
  o.file.map fun file =>
    let config : Config := {}
    .run file ⟨o.entry.getD config.entry, o.maxDepth.getD config.maxCallDepth⟩ o.trace

/-- Completes a reading. -/
def Reading.command (r : Reading) (make : Options → Option Command) : Option Command :=
  match r with
  | .options o => make o
  | .help => some .help
  | .wrong => none

/-- The command that the arguments ask for, if they are right. -/
def parse : List String → Option Command
  | [] => none
  | arg :: rest =>
    match Argument.ofText arg with
    | .long "version" none => some .version
    | .long "help" none => some .help
    | .short ('V' :: _) => some .version
    | .short ('h' :: _) => some .help
    | .positional "run" =>
      (readOptions [.entry, .maxDepth, .trace, .help] true {} rest).command ofRunOptions
    | .positional "tokens" =>
      (readOptions [.help] true {} rest).command fun o => o.file.map .tokens
    | .positional "functions" =>
      (readOptions [.help] true {} rest).command fun o => o.file.map .functions
    | .positional "repl" => (readOptions [.help] false {} rest).command fun _ => some .session
    | .positional "help" => some .help
    | _ => none

/-! ### Execution -/

/-- What `--version` prints. -/
def versionText : String := s!"brisk {Session.version}\n"

/-- What `--help` prints. -/
def helpText : String :=
  "Brisk - line-addressed scripting language interpreter\n\n" ++
  "Usage: brisk <COMMAND>\n\n" ++
  "Commands:\n" ++
  "  run FILE [--entry NAME] [--max-depth N] [--trace]\n" ++
  "  tokens FILE\n" ++
  "  functions FILE\n" ++
  "  repl\n"

/-- The tokens of a source text. -/
def tokensText (source : String) : String :=
  Listing.render 0 (Listing.tokens (Program.ofSource source)) ++ "\n"

/-- The signatures in a source text. -/
def functionsText (source : String) : Except Failure String :=
  (FunctionTable.ofProgram (Program.ofSource source)).map fun t =>
    Text.unlines (Listing.signatures t)

section
variable {m : Type → Type} [Monad m] (env : Surroundings m)

/-- Goes on with the text of a file, or reports that it cannot be read. -/
def withFile (file : String) (action : String → m Bool) : m Bool := do
  match ← env.readFile file with
  | .ok source => action source
  | .error reason =>
    env.report (Report.unreadable file reason)
    return false

/-- Writes a text. -/
def say (text : String) : m Bool := do
  env.put text
  return true

/-- Carries out a command and says whether it went well. The turns of a session are left
to a loop. -/
def perform (loop : Session → m Unit) : Command → m Bool
  | .run file config trace =>
    withFile env file fun source => env.runAndReport file source config trace
  | .tokens file => withFile env file fun source => say env (tokensText source)
  | .functions file =>
    withFile env file fun source => do
      match functionsText source with
      | .ok text => say env text
      | .error failure =>
        -- No header is refused for an unknown name, so nothing depends on an order of names.
        env.report (Report.ofError file source failure.diagnostic)
        return false
  | .session => do
    Session.start env loop
    return true
  | .version => say env versionText
  | .help => say env helpText

/-- Reads the arguments, carries out the command and gives the exit status. -/
def serve (loop : Session → m Unit) (args : List String) : m Nat := do
  match parse args with
  | none =>
    env.report (Report.plain helpText)
    return 2
  | some command => return if ← perform env loop command then 0 else 1

end

/-- Serves at a desk. A program that is run may execute `fuel` lines. -/
def execute (fuel : Nat) (args : List String) (d : Desk) : Nat × Desk :=
  (serve (Desk.surroundings fuel) (Session.loop fuel) args).run d

end Command
end LineScript
