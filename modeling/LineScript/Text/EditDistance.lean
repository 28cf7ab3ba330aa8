/-
How far apart two names are, and which known name a misspelt one may stand for.

`distance` counts single-character insertions, deletions and substitutions. It
fills the usual table one row at a time and keeps only the row before, so a row
is a function of the row above it (`nextRow`).

`nearest?` looks through candidates in order and keeps the first one at the
least distance within the threshold. Candidates whose length in bytes is too
far off are passed over without computing a distance.
-/

namespace LineScript.Text

/-- Completes a row of the table from left to right. `diagonal` is the entry of
the row above the last written entry `left`; `above` holds the entries of the
row above from the next column on. -/
def extendRow (c : Char) : (left diagonal : Nat) → (bs : List Char) → (above : List Nat) → List Nat
  | left, diagonal, b :: bs, up :: above =>
    let cost := if c = b then 0 else 1
    let entry := min (min (up + 1) (left + 1)) (diagonal + cost)
    entry :: extendRow c entry up bs above
  | _, _, _, _ => []

/-- The row of the table for one more character of the first text. -/
def nextRow (c : Char) (bs : List Char) : List Nat → List Nat
  | [] => []
  | first :: above => (first + 1) :: extendRow c (first + 1) first bs above

/-- Runs through the rows for the characters of the first text. -/
def finalRow (bs : List Char) : List Char → List Nat → List Nat
  | [], row => row
  | c :: cs, row => finalRow bs cs (nextRow c bs row)

/-- The least number of insertions, deletions and substitutions of single
characters that turn `a` into `b`. -/
def distance (a b : String) : Nat :=
  let bs := b.toList
  ((finalRow bs a.toList (List.range (bs.length + 1))).getLast?).getD 0

/-- How many edits away a suggested name may be. -/
def suggestionThreshold : Nat := 2

/-- The difference between two numbers, whichever is greater. -/
def absDiff (m n : Nat) : Nat := (m - n) + (n - m)

/-- Continues a search that has found `best` so far. -/
def nearestFrom (name : String) (threshold : Nat) :
    (best : Option (String × Nat)) → List String → Option (String × Nat)
  | best, [] => best
  | best, candidate :: rest =>
    if candidate = name ∨ threshold < absDiff candidate.utf8ByteSize name.utf8ByteSize then
      nearestFrom name threshold best rest
    else
      let d := distance name candidate
      let better := d ≤ threshold && best.all fun found => d < found.2
      nearestFrom name threshold (if better then some (candidate, d) else best) rest

/-- The candidate nearest to a name within `threshold` edits, the first of those
equally near. The name itself is no candidate. -/
def nearest? (name : String) (candidates : List String) (threshold : Nat) : Option String :=
  (nearestFrom name threshold none candidates).map Prod.fst

/-- The end of a message about an unknown name: what was perhaps meant. -/
def suggestionHint : Option String → String
  | some name => s!"; did you mean `{name}`?"
  | none => ""

end LineScript.Text
