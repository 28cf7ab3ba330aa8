/-
Reports of problems, as the command line shows them.

A report has a headline. When the problem has a line that exists in the source, it
also has an excerpt: the line itself with all of it marked, and the message as a
label. Otherwise the message is part of the headline.

In an excerpt a tab is as many spaces as lead to the next multiple of four, counted
in characters of the line, any other blank is one space, and blanks at the end of
the line are marked but not shown.
-/
import LineScript.Error
import LineScript.Text.Lines
import LineScript.Text.Width

namespace LineScript

/-- The colour of a label. -/
inductive Color
  | red
  | magenta
  deriving DecidableEq

/-- A line of source with a label. -/
structure Excerpt where
  file : String
  /-- The number of line breaks before the line, whatever their kind. -/
  line : Nat
  /-- The line as shown. -/
  source : String
  /-- The number of columns that are marked: the whole line. -/
  marked : Nat
  label : String
  color : Color
  deriving DecidableEq

/-- What is shown of a problem. -/
structure Report where
  headline : String
  excerpt : Option Excerpt := none
  deriving DecidableEq

namespace Excerpt

/-- Where the excerpt begins: file, line and column, the latter two counted from
one. -/
def location (e : Excerpt) : String := s!"{e.file}:{e.line + 1}:1"

/-- The width of a tab stop. -/
def tabWidth : Nat := 4

/-- The number of spaces for a tab that is the given character of its line. -/
def tabColumns (index : Nat) : Nat := tabWidth - index % tabWidth

/-- What is shown of the characters of a line, the first of which has the given
index. -/
def showFrom (index : Nat) : List Char → List Char
  | [] => []
  | c :: cs =>
    let shown :=
      if c = '\t' then List.replicate (tabColumns index) ' '
      else if Text.isBlank c then [' ']
      else [c]
    shown ++ showFrom (index + 1) cs

/-- The number of columns that the characters of a line take, the first of which
has the given index. -/
def columnsFrom (index : Nat) : List Char → Nat
  | [] => 0
  | c :: cs =>
    let columns :=
      if c = '\t' then tabColumns index
      else if Text.isBlank c then 1
      else Text.columns c
    columns + columnsFrom (index + 1) cs

/-- The excerpt for a span of a source text. -/
def ofSpan (file source : String) (span : Text.Span) (label : String) (color : Color) :
    Excerpt :=
  let line := (Text.slice source span).toList
  let seen := Text.trimEndChars line
  { file, label, color
    line := Text.breakCount (source.toList.take span.start)
    source := String.ofList (showFrom 0 seen)
    marked := columnsFrom 0 seen + (line.length - seen.length) }

end Excerpt

namespace Report

/-- The colour for a problem: faults stand out from mistakes. -/
def colorOf : Problem → Color
  | .program error => if error.kind = .fault then .magenta else .red
  | .system _ => .red

/-- A report that is only a line of text. -/
def plain (text : String) : Report := { headline := text }

/-- The report that a file cannot be read. -/
def unreadable (file reason : String) : Report := plain s!"Error: {file}: {reason}"

/-- The report of a problem in a source text. -/
def ofProblem (file source : String) (p : Problem) : Report :=
  match p.line?.bind (Text.span? source) with
  | none => plain s!"Error: {p.title}: {p.message}"
  | some span =>
    { headline := s!"Error: {p.title}"
      excerpt := some (.ofSpan file source span p.message (colorOf p)) }

/-- The report of an error of a program. -/
def ofError (file source : String) (error : Diagnostic) : Report :=
  ofProblem file source (.program error)

/-- The report as lines of text. -/
def lines (r : Report) : List String :=
  match r.excerpt with
  | none => [r.headline]
  | some e =>
    let mark := String.ofList (List.replicate e.marked '^')
    [r.headline, s!"  at {e.location}", s!"  | {e.source}", s!"  | {mark} {e.label}"]

end Report
end LineScript
