/-
Interactive sessions.

A session collects program lines and runs them on demand. A line whose first
character that is not blank is a colon is a command; an empty line is passed over;
any other line joins the program, without the blanks at its end, since its
indentation matters. A backspace takes back what was typed before it.
`Session.respond` is what a session makes of one line, `Session.turn` what it then
does with its surroundings, and `Session.play` a whole session at a desk.
-/
import LineScript.Desk
import LineScript.Text.Typed

namespace LineScript

/-- The program lines collected so far. -/
structure Session where
  lines : List String := []
  deriving DecidableEq

/-- What a session does next. -/
inductive Reaction
  /-- Says something and waits for the next line. -/
  | goOn (session : Session) (answer : String)
  /-- Says something and ends. -/
  | quit (answer : String)
  /-- Runs a source text. -/
  | run (source : String)
  /-- Reads a file in place of the lines so far. -/
  | load (file : String)

namespace Session

/-- The version of the program. -/
def version : String := "0.1.0"

/-- What reports call the lines of a session. -/
def fileName : String := "<repl>"

/-- What a session begins with. -/
def banner : String :=
  s!"Brisk REPL v{version}\n" ++
  "Enter program lines, then :run. Type :help for help, :quit to exit.\n\n"

/-- What a session ends with. -/
def farewell : String := "Goodbye!\n"

/-- The answer to a request for help. -/
def help : String :=
  "Brisk REPL Commands:\n" ++
  "  :help, :h, :?   Show this help\n" ++
  "  :run, :r        Run the buffered program\n" ++
  "  :list, :l       Show the buffered program\n" ++
  "  :clear          Empty the buffer\n" ++
  "  :load <file>    Replace the buffer with a file's lines\n" ++
  "  :quit, :q       Exit the REPL\n" ++
  "\n" ++
  "Any other line is appended to the buffer, for example:\n" ++
  "  func main void\n" ++
  "    funccall print \"hello\"\n" ++
  "  endfunc\n"

/-- The program as one text. -/
def source (s : Session) : String := "\n".intercalate s.lines

/-- Text filled up with spaces on the left to a width. -/
def padLeft (width : Nat) (text : String) : String :=
  String.ofList (List.replicate (width - text.length) ' ' ++ text.toList)

/-- Numbered lines, the first with the given number. -/
def number (first : Nat) : List String → String
  | [] => ""
  | line :: rest =>
    padLeft 4 (toString first) ++ "  " ++ line ++ "\n" ++ number (first + 1) rest

/-- The name of a command and its argument, which has no blanks at its ends. -/
def splitCommand (command : String) : String × String :=
  let cs := command.toList
  let rest := cs.dropWhile fun c => !Text.isBlank c
  (String.ofList (cs.takeWhile fun c => !Text.isBlank c),
   String.ofList (Text.trimChars rest))

/-- What a session does with a command. -/
def obey (s : Session) (command : String) : Reaction :=
  let (name, argument) := splitCommand command
  if name ∈ [":quit", ":q", ":exit"] then .quit farewell
  else if name ∈ [":help", ":h", ":?"] then .goOn s help
  else if name ∈ [":run", ":r"] then
    if s.lines.isEmpty then .goOn s "Buffer is empty.\n" else .run s.source
  else if name ∈ [":list", ":l"] then .goOn s (number 1 s.lines)
  else if name = ":clear" then .goOn {} "Buffer cleared.\n"
  else if name = ":load" then
    if argument.isEmpty then .goOn s "Usage: :load <file>\n" else .load argument
  else .goOn s s!"Unknown command: {command}\nType :help for help.\n"

/-- What a session does with a line that has been typed. -/
def take (s : Session) (line : List Char) : Reaction :=
  let trimmed := Text.trimChars line
  match trimmed with
  | [] => .goOn s ""
  | ':' :: _ => obey s (String.ofList trimmed)
  | _ => .goOn { lines := s.lines ++ [String.ofList (Text.trimEndChars line)] } ""

/-- What a session does with a line of its input, line end and backspaces
included. -/
def respond (s : Session) (line : String) : Reaction :=
  s.take (Text.typed (Text.stripTerminator line.toList))

/-- The session with the lines of a file, and what it says about it. -/
def loaded (file source : String) : Session × String :=
  let lines := Text.lines source
  ({ lines }, s!"Loaded {lines.length} line(s) from {file}.\n")

/-- Takes a line of input and does what it asks for. The result is the session that
goes on, if it does. -/
def turn {m : Type → Type} [Monad m] (env : Surroundings m) (s : Session) :
    m (Option Session) := do
  match ← env.takeLine with
  | none =>
    env.put farewell
    return none
  | some (.error reason) =>
    env.report (Report.plain s!"Error: {reason}")
    return none
  | some (.ok line) =>
    match s.respond line with
    | .goOn s answer =>
      env.put answer
      return some s
    | .quit answer =>
      env.put answer
      return none
    | .run source =>
      let _ ← env.runAndReport fileName source {} false
      return some s
    | .load file =>
      match ← env.readFile file with
      | .error reason =>
        env.report (Report.unreadable file reason)
        return some s
      | .ok source =>
        let (s, answer) := loaded file source
        env.put answer
        return some s

/-- Begins a session and leaves the turns to a loop. -/
def start {m : Type → Type} [Monad m] (env : Surroundings m) (loop : Session → m Unit) :
    m Unit := do
  env.put banner
  loop {}

/-- Plays a session at a desk for a number of turns, at most. A program that is run may
execute `fuel` lines and reads its input from the lines that follow. -/
def playFrom (fuel : Nat) : (turns : Nat) → Session → StateM Desk Unit
  | 0, _ => return
  | turns + 1, s => do
    match ← s.turn (Desk.surroundings fuel) with
    | some s => playFrom fuel turns s
    | none => return

/-- Plays a session to its end. Each line takes at least one byte off the input, so
there are no more lines than bytes. -/
def loop (fuel : Nat) (s : Session) : StateM Desk Unit := do
  playFrom fuel ((← get).terminal.stdin.length + 1) s

/-- A whole session at a desk. -/
def play (fuel : Nat) (d : Desk) : Desk := ((start (Desk.surroundings fuel) (loop fuel)).run d).2

end Session
end LineScript
