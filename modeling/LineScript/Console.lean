/-
The console a program talks to.

A line of a program may write one line of output and read one line of input. A
`Dialogue` is what is left to do until a result is there: it asks for a write or a
read and goes on with the answer, which is an error when the console fails. A
`Console` answers from a state of its own, and `Dialogue.run` plays the two
against each other. The error of a console is its own affair: it may be of any
class, and it may name a line.

Two consoles are given. `buffer` keeps output lines and serves queued input
lines; `terminal` stands between byte streams: it ends each line of output with a
line feed and cuts input at line feeds. Both read past the end of the input as
empty lines.
-/
import LineScript.Error
import LineScript.Text.Lines

namespace LineScript

/-- What is left to do, with writes and reads to be answered on the way. -/
inductive Dialogue (α : Type)
  | done (result : α)
  | write (text : String) (next : Except Diagnostic Unit → Dialogue α)
  | read (next : Except Diagnostic String → Dialogue α)

/-- A console with states of type `σ`. A write or a read that fails gives an error. -/
structure Console (σ : Type) where
  write : σ → String → Except Diagnostic Unit × σ
  read : σ → Except Diagnostic String × σ

/-- Answers all requests from a console. -/
def Dialogue.run {α σ : Type} (con : Console σ) : Dialogue α → σ → α × σ
  | .done a, w => (a, w)
  | .write text next, w =>
    let (answer, w) := con.write w text
    (next answer).run con w
  | .read next, w =>
    let (answer, w) := con.read w
    (next answer).run con w

/-- The dialogue with its result changed. -/
def Dialogue.map {α β : Type} (f : α → β) : Dialogue α → Dialogue β
  | .done a => .done (f a)
  | .write text next => .write text fun answer => (next answer).map f
  | .read next => .read fun answer => (next answer).map f

@[simp]
theorem Dialogue.run_map {α β σ : Type} (f : α → β) (con : Console σ) (d : Dialogue α) (w : σ) :
    (d.map f).run con w = (f (d.run con w).1, (d.run con w).2) := by
  induction d generalizing w with
  | done a => rfl
  | write text next ih => exact ih _ _
  | read next ih => exact ih _ _

/-! ### Buffered lines -/

/-- Output lines so far and input lines to come. -/
structure Buffer where
  output : Array String := #[]
  input : List String := []
  deriving DecidableEq

namespace Buffer

/-- A buffer that serves the given lines. -/
def ofInput (input : List String) : Buffer := { input }

/-- Adds a line of output. -/
def write (b : Buffer) (text : String) : Buffer := { b with output := b.output.push text }

/-- Takes the next line of input, which is empty past the end. -/
def read (b : Buffer) : String × Buffer :=
  match b.input with
  | [] => ("", b)
  | line :: rest => (line, { b with input := rest })

/-- The output as one text, lines joined by line feeds. -/
def outputText (b : Buffer) : String := "\n".intercalate b.output.toList

/-- Forgets the output. -/
def clear (b : Buffer) : Buffer := { b with output := #[] }

/-- The console that never fails and keeps everything. -/
def console : Console Buffer where
  write b text := (.ok (), b.write text)
  read b :=
    let (line, b) := b.read
    (.ok line, b)

end Buffer

/-! ### Byte streams -/

/-- The bytes of standard input to come and the text of standard output so far. -/
structure Terminal where
  stdin : List UInt8 := []
  stdout : String := ""
  deriving DecidableEq

namespace Terminal

/-- The reason given for input that is not UTF-8. -/
def notUtf8 : String := "stream did not contain valid UTF-8"

/-- Writes a text as it is. -/
def put (t : Terminal) (text : String) : Terminal := { t with stdout := t.stdout ++ text }

/-- Writes a line. -/
def putLine (t : Terminal) (text : String) : Terminal := (t.put text).put "\n"

/-- Takes a line off the input, with its line feed. Its bytes are used up even if
they are no text. -/
def takeLine (t : Terminal) : Except String String × Terminal :=
  let (line, rest) := Text.takeRawLine t.stdin
  let t := { t with stdin := rest }
  match Text.decode line with
  | some text => (.ok text, t)
  | none => (.error notUtf8, t)

/-- A line of input without the line feeds and carriage returns at its end. -/
def stripLineEnd (line : String) : String := String.ofList (Text.trimLineEnd line.toList)

/-- What a program is given for a line that was taken off the input. -/
def received (line : Except String String) : Except Diagnostic String :=
  match line with
  | .ok line => .ok (stripLineEnd line)
  | .error reason => .error (.console reason)

/-- The console between the two streams. -/
def console : Console Terminal where
  write t text := (.ok (), t.putLine text)
  read t :=
    let (line, t) := t.takeLine
    (received line, t)

end Terminal
end LineScript
