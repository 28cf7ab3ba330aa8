/-
The characters that count as white space when text is trimmed.

`isBlank` is the Unicode property `White_Space`, twenty-five characters, while
core's `Char.isWhitespace` knows ASCII only. Trimming takes blanks off one or both
ends of a text and leaves those inside it alone.
-/
import LineScript.Text.Ranges

namespace LineScript.Text

/-- The ranges of code points with the property `White_Space`, in order. -/
def blankRanges : CodeRanges :=
  [(0x09, 0x0D), (0x20, 0x20), (0x85, 0x85), (0xA0, 0xA0), (0x1680, 0x1680), (0x2000, 0x200A),
   (0x2028, 0x2029), (0x202F, 0x202F), (0x205F, 0x205F), (0x3000, 0x3000)]

/-- The character is white space. -/
def isBlank (c : Char) : Bool := inRanges blankRanges c

/-- Drops the elements at the end of a list that satisfy `p`. -/
def dropEndWhile {α : Type} (p : α → Bool) (l : List α) : List α :=
  (l.reverse.dropWhile p).reverse

/-- The characters of a text without the blanks at its end. -/
def trimEndChars (cs : List Char) : List Char := dropEndWhile isBlank cs

/-- The characters of a text without the blanks at both ends. -/
def trimChars (cs : List Char) : List Char := trimEndChars (cs.dropWhile isBlank)

/-- The text without the blanks at its end. -/
def trimEnd (text : String) : String := String.ofList (trimEndChars text.toList)

/-- The text without the blanks at both ends. -/
def trim (text : String) : String := String.ofList (trimChars text.toList)

/-! ### What is dropped from the end -/

@[simp]
theorem dropEndWhile_nil {α : Type} (p : α → Bool) : dropEndWhile p [] = [] := rfl

/-- What is dropped from the end satisfies the predicate, all of it. -/
theorem dropEndWhile_append_takeWhile {α : Type} (p : α → Bool) (l : List α) :
    dropEndWhile p l ++ (l.reverse.takeWhile p).reverse = l := by
  rw [dropEndWhile, ← List.reverse_append, List.takeWhile_append_dropWhile, List.reverse_reverse]

end LineScript.Text
