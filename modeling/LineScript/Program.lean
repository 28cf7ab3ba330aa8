/-
Programs as numbered lines.

A program is an array of lines, each with its text, its tokens and its
indentation. There is no tree: a statement's extent is found by looking for the
line that closes it, at the same indentation. The searches of this module are
the only way the machine finds its way through a program.

* `blockEnd?`: the next line with a given keyword at the same indentation;
* `branchEnd?`: where a condition that fails goes on;
* `loopEnd?` and `loopStart?`: the two ends of a loop, found forwards from its
  head and backwards from its end. Both pass over empty lines and give up at a
  line that is indented less.

Lines past the end of the program read as empty lines, so every search is a
plain recursion on the number of lines left.
-/
import LineScript.Keyword
import LineScript.Text.Lines
import LineScript.Token

namespace LineScript

/-- A line of a program, scanned. -/
structure SourceLine where
  text : String
  tokens : List String
  indent : Nat
  deriving DecidableEq

namespace SourceLine

/-- Scans a line. -/
def ofText (text : String) : SourceLine :=
  ⟨text, Token.ofLine text, Token.indentation text⟩

/-- The line without a character. -/
def empty : SourceLine := ⟨"", [], 0⟩

/-- The line's first token. -/
def word? (l : SourceLine) : Option String := l.tokens.head?

/-- The keyword the line begins with. -/
def keyword? (l : SourceLine) : Option Keyword := l.word?.bind Keyword.ofText?

/-- The line has no token: it is blank or holds only a comment. -/
def isBlank (l : SourceLine) : Bool := l.tokens.isEmpty

/-- The line begins with the keyword and is indented this deep. -/
def marks (l : SourceLine) (k : Keyword) (depth : Nat) : Bool :=
  l.keyword? = some k && l.indent = depth

end SourceLine

/-- A program: its lines from first to last. -/
structure Program where
  lines : Array SourceLine
  deriving DecidableEq

namespace Program

/-- The program with these lines. They are taken as they are. -/
def ofLines (lines : List String) : Program := ⟨(lines.map SourceLine.ofText).toArray⟩

/-- The program written in a source text. -/
def ofSource (source : String) : Program := ofLines (Text.lines source)

/-- The number of lines. -/
def size (p : Program) : Nat := p.lines.size

/-- The line with a number counted from zero; an empty line past the end. -/
def line (p : Program) (n : Nat) : SourceLine := p.lines.getD n SourceLine.empty

/-- The indentation of a line. -/
def indent (p : Program) (n : Nat) : Nat := (p.line n).indent

/-- The keyword of a line. -/
def keyword? (p : Program) (n : Nat) : Option Keyword := (p.line n).keyword?

/-! ### Searches -/

/-- What a search does at a line. -/
inductive Verdict
  | found
  | skip
  | stop
  deriving DecidableEq

/-- Looks at `count` lines from `n` on, first to last. -/
def searchDown (p : Program) (judge : SourceLine → Verdict) : (count n : Nat) → Option Nat
  | 0, _ => none
  | count + 1, n =>
    match judge (p.line n) with
    | .found => some n
    | .skip => searchDown p judge count (n + 1)
    | .stop => none

/-- Looks at the lines after `n`. -/
def searchAfter (p : Program) (judge : SourceLine → Verdict) (n : Nat) : Option Nat :=
  p.searchDown judge (p.size - (n + 1)) (n + 1)

/-- Looks at the lines before `n`, from the nearest one back. -/
def searchBefore (p : Program) (judge : SourceLine → Verdict) : Nat → Option Nat
  | 0 => none
  | n + 1 =>
    match judge (p.line n) with
    | .found => some n
    | .skip => searchBefore p judge n
    | .stop => none

/-- Finds the lines that begin with `k` at the depth and passes over all others. -/
def judgeMark (k : Keyword) (depth : Nat) (l : SourceLine) : Verdict :=
  if l.marks k depth then .found else .skip

/-- Finds the end of a failed condition: its `else` or its `endif`. -/
def judgeBranch (depth : Nat) (l : SourceLine) : Verdict :=
  if l.marks .endBranch depth || l.marks .otherwise depth then .found else .skip

/-- Finds an end of a loop. Lines without tokens have no say; any other line that
is indented less ends the search. -/
def judgeLoop (k : Keyword) (depth : Nat) (l : SourceLine) : Verdict :=
  if l.isBlank then .skip
  else if l.marks k depth then .found
  else if l.indent < depth then .stop
  else .skip

/-- The next line after `n` that begins with `k` and is indented like line `n`. -/
def blockEnd? (p : Program) (k : Keyword) (n : Nat) : Option Nat :=
  p.searchAfter (judgeMark k (p.indent n)) n

/-- The `else` or `endif` line that follows the body of the condition at line `n`. -/
def branchEnd? (p : Program) (n : Nat) : Option Nat :=
  p.searchAfter (judgeBranch (p.indent n)) n

/-- The line that ends the loop whose head is line `n`. -/
def loopEnd? (p : Program) (n : Nat) : Option Nat :=
  p.searchAfter (judgeLoop .endLoop (p.indent n)) n

/-- The head of the loop that line `n` ends. -/
def loopStart? (p : Program) (n : Nat) : Option Nat :=
  p.searchBefore (judgeLoop .loop (p.indent n)) n

/-! ### What searches find -/

theorem searchDown_range {p : Program} {judge : SourceLine → Verdict} {count n m : Nat}
    (h : p.searchDown judge count n = some m) : n ≤ m ∧ m < n + count := by
  induction count generalizing n with
  | zero => simp [searchDown] at h
  | succ count ih =>
    rw [searchDown] at h
    split at h
    · cases h
      omega
    · have := ih h
      omega
    · cases h

/-- A search forwards stays inside the program. -/
theorem searchAfter_range {p : Program} {judge : SourceLine → Verdict} {n m : Nat}
    (h : p.searchAfter judge n = some m) : n < m ∧ m < p.size := by
  have := searchDown_range h
  omega

/-- A search backwards ends before the line it began at. -/
theorem searchBefore_lt {p : Program} {judge : SourceLine → Verdict} {n m : Nat}
    (h : p.searchBefore judge n = some m) : m < n := by
  induction n with
  | zero => simp [searchBefore] at h
  | succ n ih =>
    rw [searchBefore] at h
    split at h
    · cases h
      omega
    · have := ih h
      omega
    · cases h

end Program
end LineScript
