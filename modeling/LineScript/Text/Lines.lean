/-
Texts as sequences of lines, for execution, for error reports and for input.

* `lines` splits a program's source: a line ends with a line feed, a carriage
  return right before it belongs to the terminator, and the text after the last
  line feed is a line unless it is empty.
* `pieces` keeps the terminators, so its members put together are the text
  (`flatten_pieces`); `span?` uses it to locate a line by character offsets.
* `breakCount` counts line breaks of all kinds, for a reader who looks a place up in
  the text.
* `takeRawLine` takes one line off a stream of bytes, and `decode` reads its
  bytes as UTF-8.
-/
import LineScript.Text.Blank

namespace LineScript.Text

/-! ### Lines of a text -/

/-- Puts a character in front of a text cut into pieces. A line feed is a piece
of its own there, any other character joins the first piece. -/
def consPiece (c : Char) : List (List Char) → List (List Char)
  | [] => [[c]]
  | p :: ps => if c = '\n' then [c] :: p :: ps else (c :: p) :: ps

/-- Cuts a text after each line feed, terminators kept. No piece is empty. -/
def pieces (cs : List Char) : List (List Char) := cs.foldr consPiece []

/-- A piece without its terminator: a final line feed goes, and then a carriage
return before it. A carriage return with no line feed after it stays. -/
def stripTerminator (piece : List Char) : List Char :=
  match piece.reverse with
  | '\n' :: '\r' :: r => r.reverse
  | '\n' :: r => r.reverse
  | _ => piece

/-- The lines of a source text, without their terminators. -/
def lines (text : String) : List String :=
  (pieces text.toList).map fun p => String.ofList (stripTerminator p)

/-- The lines as one text, each followed by a line feed. -/
def unlines : List String → String
  | [] => ""
  | line :: rest => line ++ "\n" ++ unlines rest

/-- The character is part of a line end. -/
def isLineEnd (c : Char) : Bool := c = '\n' || c = '\r'

/-- A piece without any line feeds and carriage returns at its end. -/
def trimLineEnd (piece : List Char) : List Char := dropEndWhile isLineEnd piece

/-! ### Spans -/

/-- A range of character offsets, from `start` up to but not including `stop`. -/
structure Span where
  start : Nat
  stop : Nat
  deriving DecidableEq

/-- The number of characters in the range. -/
def Span.width (s : Span) : Nat := s.stop - s.start

/-- The span of the line with the given number among pieces that begin at the
character `offset`. -/
def spanFrom (offset : Nat) : List (List Char) → Nat → Option Span
  | [], _ => none
  | p :: _, 0 => some ⟨offset, offset + (trimLineEnd p).length⟩
  | p :: ps, line + 1 => spanFrom (offset + p.length) ps line

/-- Where a line of the text stands, counted in characters and without its
terminator. -/
def span? (text : String) (line : Nat) : Option Span :=
  spanFrom 0 (pieces text.toList) line

/-- The characters of the text that lie in the span. -/
def slice (text : String) (s : Span) : String :=
  String.ofList ((text.toList.drop s.start).take s.width)

/-! ### Line breaks -/

/-- The characters at which a line may end on a page: line feed, vertical tab, form
feed, carriage return, next line, and the separators of lines and paragraphs. -/
def breakRanges : CodeRanges := [(0x0A, 0x0D), (0x85, 0x85), (0x2028, 0x2029)]

/-- Adds the line breaks of a text to a count. A carriage return and the line feed
after it are one break. -/
def addBreaks (count : Nat) : List Char → Nat
  | [] => count
  | '\r' :: '\n' :: cs => addBreaks (count + 1) cs
  | c :: cs => addBreaks (if inRanges breakRanges c then count + 1 else count) cs

/-- The number of line breaks in a text. -/
def breakCount (cs : List Char) : Nat := addBreaks 0 cs

/-! ### Lines of a byte stream -/

/-- One line of a byte stream, its line feed included, and what follows. At the
end of the stream the line is empty. -/
def takeRawLine (bytes : List UInt8) : List UInt8 × List UInt8 :=
  let line := bytes.takeWhile (· != 10)
  match bytes.dropWhile (· != 10) with
  | [] => (line, [])
  | feed :: rest => (line ++ [feed], rest)

/-- The text that bytes spell in UTF-8, if they do. -/
def decode (bytes : List UInt8) : Option String :=
  String.fromUTF8? ⟨bytes.toArray⟩

/-! ### Putting lines together -/

@[simp]
theorem pieces_nil : pieces [] = [] := rfl

@[simp]
theorem pieces_cons (c : Char) (cs : List Char) : pieces (c :: cs) = consPiece c (pieces cs) := rfl

@[simp]
theorem flatten_consPiece (c : Char) (ps : List (List Char)) :
    (consPiece c ps).flatten = c :: ps.flatten := by
  cases ps with
  | nil => rfl
  | cons p ps =>
    rw [consPiece]
    split <;> simp

/-- Cutting a text into pieces loses nothing. -/
theorem flatten_pieces (cs : List Char) : (pieces cs).flatten = cs := by
  induction cs with
  | nil => rfl
  | cons c cs ih => simp [ih]

/-- A raw line and what follows it are the stream. -/
theorem takeRawLine_append (bytes : List UInt8) :
    (takeRawLine bytes).1 ++ (takeRawLine bytes).2 = bytes := by
  have h : bytes.takeWhile (· != 10) ++ bytes.dropWhile (· != 10) = bytes :=
    List.takeWhile_append_dropWhile
  rw [takeRawLine]
  split
  · next heq => simpa [heq] using h
  · next heq => simpa [heq] using h

end LineScript.Text
