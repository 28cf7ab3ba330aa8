/-
Sets of characters given by ranges of code points.

A property of characters that a standard lays down is a table of ranges, in order
and apart from each other. `inRanges` is membership.
-/

namespace LineScript.Text

/-- Ranges of code points, each by its first and last member. -/
abbrev CodeRanges := List (Nat × Nat)

/-- The character lies in one of the ranges. -/
def inRanges (ranges : CodeRanges) (c : Char) : Bool :=
  ranges.any fun r => r.1 ≤ c.toNat && c.toNat ≤ r.2

/-- A character is in the ranges when one of them has it between its ends. -/
theorem inRanges_iff {ranges : CodeRanges} {c : Char} :
    inRanges ranges c = true ↔ ∃ r ∈ ranges, r.1 ≤ c.toNat ∧ c.toNat ≤ r.2 := by
  simp [inRanges]

end LineScript.Text
