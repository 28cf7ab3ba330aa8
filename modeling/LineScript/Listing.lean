/-
Listings of a program: its tokens as JSON, and its signatures.

The JSON is written with an indentation of two spaces, one member a line, and an
empty array closes on the line it opens on.
-/
import LineScript.FunctionTable

namespace LineScript
namespace Listing

/-- A JSON document made of texts, numbers, arrays and objects. -/
inductive Json
  | text (s : String)
  | number (n : Nat)
  | array (items : List Json)
  | object (members : List (String × Json))

/-- Writes a number below 16 as a hexadecimal digit. -/
def hexDigit (n : Nat) : Char := Nat.digitChar n

/-- A character inside a quoted text. -/
def escape (c : Char) : List Char :=
  if c = '"' then ['\\', '"']
  else if c = '\\' then ['\\', '\\']
  else if c = '\n' then ['\\', 'n']
  else if c = '\r' then ['\\', 'r']
  else if c = '\t' then ['\\', 't']
  else if c = '\x08' then ['\\', 'b']
  else if c = '\x0c' then ['\\', 'f']
  else if c.toNat < 0x20 then
    ['\\', 'u', '0', '0', hexDigit (c.toNat / 16), hexDigit (c.toNat % 16)]
  else [c]

/-- A quoted text. -/
def quote (s : String) : String :=
  String.ofList ('"' :: s.toList.flatMap escape ++ ['"'])

/-- The beginning of a line at a depth of nesting. -/
def margin (depth : Nat) : String := String.ofList (List.replicate (2 * depth) ' ')

/-- Members between brackets, one a line. -/
def enclose (opening closing : String) (depth : Nat) (members : List String) : String :=
  if members.isEmpty then opening ++ closing
  else
    let inner := margin (depth + 1)
    opening ++ "\n" ++ ",\n".intercalate (members.map fun m => inner ++ m)
      ++ "\n" ++ margin depth ++ closing

mutual

/-- A document, begun on a line at the given depth. -/
def render (depth : Nat) : Json → String
  | .text s => quote s
  | .number n => String.ofList (Nat.toDigits 10 n)
  | .array items => enclose "[" "]" depth (renderItems depth items)
  | .object members => enclose "\x7b" "\x7d" depth (renderMembers depth members)

/-- The items of an array. -/
def renderItems (depth : Nat) : List Json → List String
  | [] => []
  | item :: rest => render (depth + 1) item :: renderItems depth rest

/-- The members of an object. -/
def renderMembers (depth : Nat) : List (String × Json) → List String
  | [] => []
  | (name, item) :: rest =>
    (quote name ++ ": " ++ render (depth + 1) item) :: renderMembers depth rest

end

/-- The lines of a program, their tokens and their indentations. -/
def tokens (p : Program) : Json :=
  let lines := p.lines.toList
  .object
    [("lines", .array (lines.map fun l => .text l.text)),
     ("tokens", .array (lines.map fun l => .array (l.tokens.map .text))),
     ("indents", .array (lines.map fun l => .number l.indent))]

/-- A signature and the line it is defined at, counted from one. -/
def signature (s : Signature) : String := s!"{s.display} @ line {s.definition + 1}"

/-- The signatures of a program, in the order of definition. -/
def signatures (t : FunctionTable) : List String := t.signatures.toList.map signature

end Listing
end LineScript
