/-
Tokens: how a line of text falls into words and strings.

A line is a sequence of gaps and tokens. A gap is made of blanks and of
comments, which run from `#` up to the next line feed. A token is

* a string: a double quote, the characters up to the next double quote or line
  feed, and that double quote if it is what comes next; or
* a word: characters that are neither blanks nor double quotes nor `#`, as many
  as there are.

Both kinds keep their text as written, so a string token has its quotes. The
equations `scan_blank`, `scan_comment`, `scan_string` and `scan_word` say what
scanning does at each kind of character.
-/

namespace LineScript.Token

/-- The character separates tokens. -/
def isBlank (c : Char) : Bool :=
  c = ' ' || c = '\t' || c = '\r' || c = '\n' || c = '\x0c'

/-- The character belongs to words. -/
def isWordChar (c : Char) : Bool := !(isBlank c || c = '"' || c = '#')

/-- The character does not end a comment. -/
def inComment (c : Char) : Bool := c ≠ '\n'

/-- The character goes on with an open string. -/
def inString (c : Char) : Bool := !(c = '"' || c = '\n')

/-- The closing quote of a string, if the text begins with one, and what follows. -/
def takeClosing : List Char → List Char × List Char
  | [] => ([], [])
  | c :: cs => if c = '"' then (['"'], cs) else ([], c :: cs)

theorem takeClosing_append (cs : List Char) : (takeClosing cs).1 ++ (takeClosing cs).2 = cs := by
  unfold takeClosing
  split
  · rfl
  · split
    · next h => simp [h]
    · rfl

theorem length_takeClosing_le (cs : List Char) : (takeClosing cs).2.length ≤ cs.length := by
  have h := congrArg List.length (takeClosing_append cs)
  rw [List.length_append] at h
  omega

theorem length_dropWhile_le (p : Char → Bool) (cs : List Char) :
    (cs.dropWhile p).length ≤ cs.length :=
  (List.dropWhile_sublist p).length_le

/-- The tokens of a text, each as its characters. -/
def scan (cs : List Char) : List (List Char) :=
  match cs with
  | [] => []
  | c :: rest =>
    if isBlank c then scan rest
    else if c = '#' then scan (rest.dropWhile inComment)
    else if c = '"' then
      let body := rest.takeWhile inString
      let close := takeClosing (rest.dropWhile inString)
      ('"' :: body ++ close.1) :: scan close.2
    else (c :: rest.takeWhile isWordChar) :: scan (rest.dropWhile isWordChar)
termination_by cs.length
decreasing_by
  · simp
  · have := length_dropWhile_le inComment rest
    simp
    omega
  · have := length_dropWhile_le inString rest
    have := length_takeClosing_le (rest.dropWhile inString)
    simp
    omega
  · have := length_dropWhile_le isWordChar rest
    simp
    omega

/-- The tokens of a line, as written. -/
def ofLine (line : String) : List String := (scan line.toList).map String.ofList

/-- How many spaces and tabs a line begins with. -/
def indentation (line : String) : Nat :=
  (line.toList.takeWhile fun c => c = ' ' || c = '\t').length

/-! ### Scanning, character by character -/

@[simp]
theorem scan_nil : scan [] = [] := by rw [scan]

theorem scan_blank {c : Char} (h : isBlank c = true) (cs : List Char) :
    scan (c :: cs) = scan cs := by
  rw [scan]
  simp [h]

theorem scan_comment (cs : List Char) : scan ('#' :: cs) = scan (cs.dropWhile inComment) := by
  rw [scan]
  simp [isBlank]

theorem scan_string (cs : List Char) :
    scan ('"' :: cs) =
      ('"' :: cs.takeWhile inString ++ (takeClosing (cs.dropWhile inString)).1) ::
        scan (takeClosing (cs.dropWhile inString)).2 := by
  rw [scan]
  simp [isBlank]

theorem scan_word {c : Char} (h : isWordChar c = true) (cs : List Char) :
    scan (c :: cs) = (c :: cs.takeWhile isWordChar) :: scan (cs.dropWhile isWordChar) := by
  simp only [isWordChar, Bool.not_eq_true', Bool.or_eq_false_iff, decide_eq_false_iff_not] at h
  rw [scan]
  simp [h.1.1, h.1.2, h.2]

end LineScript.Token
