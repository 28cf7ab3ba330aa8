/-
What the searches of a program find.

A search goes over the lines that its judge passes over and finds the first one
that the judge picks (`searchAfter_eq_some_iff`, `searchBefore_eq_some_iff`). All four
searches of the machine pass over empty lines and over lines that are indented
deeper than the line they begin at, so a search that starts at a header or an end
marker finds the first marker that follows at the same depth, as long as only
such lines lie between (`Between`).
-/
import LineScript.Program
import Mathlib.Tactic.Common

namespace LineScript
namespace Program

variable {p : Program} {judge : SourceLine → Verdict} {k : Keyword} {m n depth : Nat}

theorem searchDown_eq_some {count : Nat} (hskip : ∀ i, n ≤ i → i < m → judge (p.line i) = .skip)
    (hfound : judge (p.line m) = .found) (hnm : n ≤ m) (hm : m < n + count) :
    p.searchDown judge count n = some m := by
  induction count generalizing n with
  | zero => omega
  | succ count ih =>
    rw [searchDown]
    rcases Nat.eq_or_lt_of_le hnm with rfl | hlt
    · rw [hfound]
    · rw [hskip n (Nat.le_refl n) hlt]
      exact ih (fun i hi => hskip i (by omega)) hlt (by omega)

theorem searchAfter_eq_some (hskip : ∀ i, n < i → i < m → judge (p.line i) = .skip)
    (hfound : judge (p.line m) = .found) (hnm : n < m) (hm : m < p.size) :
    p.searchAfter judge n = some m :=
  searchDown_eq_some (fun i hi => hskip i hi) hfound hnm (by omega)

theorem searchBefore_eq_some (hskip : ∀ i, m < i → i < n → judge (p.line i) = .skip)
    (hfound : judge (p.line m) = .found) (hmn : m < n) : p.searchBefore judge n = some m := by
  induction n with
  | zero => omega
  | succ n ih =>
    rw [searchBefore]
    rcases Nat.eq_or_lt_of_le (Nat.lt_succ_iff.mp hmn) with rfl | hlt
    · rw [hfound]
    · rw [hskip n hlt (Nat.lt_succ_self n)]
      exact ih (fun i hi hin => hskip i hi (by omega)) hlt

theorem judge_of_searchDown {count : Nat} (h : p.searchDown judge count n = some m) :
    judge (p.line m) = .found ∧ ∀ i, n ≤ i → i < m → judge (p.line i) = .skip := by
  induction count generalizing n with
  | zero => cases h
  | succ count ih =>
    rw [searchDown] at h
    split at h
    · next hfound =>
      cases h
      exact ⟨hfound, fun i hn hm => by omega⟩
    · next hskip =>
      obtain ⟨hfound, hbetween⟩ := ih h
      refine ⟨hfound, fun i hn hm => ?_⟩
      rcases Nat.eq_or_lt_of_le hn with rfl | hlt
      · exact hskip
      · exact hbetween i hlt hm
    · cases h

/-- A search forwards finds the first line that is not passed over, if the judge picks it. -/
theorem searchAfter_eq_some_iff : p.searchAfter judge n = some m ↔
    n < m ∧ m < p.size ∧ judge (p.line m) = .found ∧
      ∀ i, n < i → i < m → judge (p.line i) = .skip := by
  constructor
  · intro h
    obtain ⟨hnm, hm⟩ := searchAfter_range h
    exact ⟨hnm, hm, judge_of_searchDown h⟩
  · rintro ⟨hnm, hm, hfound, hskip⟩
    exact searchAfter_eq_some hskip hfound hnm hm

theorem judge_of_searchBefore (h : p.searchBefore judge n = some m) :
    judge (p.line m) = .found ∧ ∀ i, m < i → i < n → judge (p.line i) = .skip := by
  induction n with
  | zero => cases h
  | succ n ih =>
    rw [searchBefore] at h
    split at h
    · next hfound =>
      cases h
      exact ⟨hfound, fun i hm hn => by omega⟩
    · next hskip =>
      obtain ⟨hfound, hbetween⟩ := ih h
      refine ⟨hfound, fun i hm hn => ?_⟩
      rcases Nat.eq_or_lt_of_le (Nat.lt_succ_iff.mp hn) with rfl | hlt
      · exact hskip
      · exact hbetween i hm hlt
    · cases h

theorem searchBefore_eq_some_iff : p.searchBefore judge n = some m ↔
    m < n ∧ judge (p.line m) = .found ∧ ∀ i, m < i → i < n → judge (p.line i) = .skip := by
  constructor
  · intro h
    exact ⟨searchBefore_lt h, judge_of_searchBefore h⟩
  · rintro ⟨hmn, hfound, hskip⟩
    exact searchBefore_eq_some hskip hfound hmn

/-- A search forwards that would find a line finds it or an earlier one, unless something
stops it before. -/
theorem exists_searchDown {count : Nat} (hnm : n ≤ m) (hm : m < n + count)
    (hfound : judge (p.line m) = .found)
    (hgoes : ∀ i, n ≤ i → i < m → judge (p.line i) ≠ .stop) :
    ∃ m' ≤ m, p.searchDown judge count n = some m' := by
  induction count generalizing n with
  | zero => omega
  | succ count ih =>
    rw [searchDown]
    rcases Nat.eq_or_lt_of_le hnm with rfl | hlt
    · rw [hfound]
      exact ⟨n, Nat.le_refl n, rfl⟩
    · cases hjudge : judge (p.line n) with
      | found => exact ⟨n, hnm, rfl⟩
      | skip => exact ih hlt (by omega) fun i hi him => hgoes i (by omega) him
      | stop => exact absurd hjudge (hgoes n (Nat.le_refl n) hlt)

theorem exists_searchAfter (hnm : n < m) (hm : m < p.size) (hfound : judge (p.line m) = .found)
    (hgoes : ∀ i, n < i → i < m → judge (p.line i) ≠ .stop) :
    ∃ m' ≤ m, p.searchAfter judge n = some m' :=
  exists_searchDown hnm (by omega) hfound fun i hi him => hgoes i hi him

/-- A search backwards that would find a line finds it or a later one, unless something
stops it before. -/
theorem exists_searchBefore (hmn : m < n) (hfound : judge (p.line m) = .found)
    (hgoes : ∀ i, m < i → i < n → judge (p.line i) ≠ .stop) :
    ∃ m', m ≤ m' ∧ p.searchBefore judge n = some m' := by
  induction n with
  | zero => omega
  | succ n ih =>
    rw [searchBefore]
    rcases Nat.eq_or_lt_of_le (Nat.lt_succ_iff.mp hmn) with rfl | hlt
    · rw [hfound]
      exact ⟨m, Nat.le_refl m, rfl⟩
    · cases hjudge : judge (p.line n) with
      | found => exact ⟨n, Nat.le_of_lt hlt, rfl⟩
      | skip => exact ih hlt fun i hi hin => hgoes i hi (by omega)
      | stop => exact absurd hjudge (hgoes n hlt (Nat.lt_succ_self n))

/-! ### Judges at markers and at deeper lines -/

/-- A line with a keyword is a line of the program: past the end all lines are
empty. -/
theorem lt_size_of_keyword? (h : p.keyword? n = some k) : n < p.size := by
  by_contra hn
  have hline : p.line n = SourceLine.empty := by
    simp only [size] at hn
    simp [line, hn]
  rw [keyword?, hline] at h
  cases h

theorem keyword?_of_marks (h : (p.line n).marks k depth = true) : p.keyword? n = some k := by
  simp only [SourceLine.marks, Bool.and_eq_true, decide_eq_true_eq] at h
  exact h.1

theorem indent_of_marks (h : (p.line n).marks k depth = true) : p.indent n = depth := by
  simp only [SourceLine.marks, Bool.and_eq_true, decide_eq_true_eq] at h
  exact h.2

theorem not_isBlank_of_keyword? (h : p.keyword? n = some k) : (p.line n).isBlank = false := by
  rw [keyword?, SourceLine.keyword?, SourceLine.word?] at h
  rw [SourceLine.isBlank]
  cases ht : (p.line n).tokens with
  | nil =>
    rw [ht] at h
    cases h
  | cons word args => rfl

/-- The lines from `lo` on and before `hi` are empty or indented deeper. -/
def Between (p : Program) (depth lo hi : Nat) : Prop :=
  ∀ n, lo ≤ n → n < hi → (p.line n).isBlank = true ∨ depth < p.indent n

theorem between_of_marks {above : Nat} (h : (p.line n).marks k depth = true)
    (habove : above < depth) : p.Between above n (n + 1) := by
  intro i hlo hhi
  obtain rfl : i = n := by omega
  exact .inr (by rw [indent_of_marks h]; exact habove)

/-- Two stretches of lines that meet make one. -/
theorem Between.append {a b c d e : Nat} (h₁ : p.Between depth a b) (h₂ : p.Between depth c d)
    (hbc : c ≤ b) (hde : e ≤ d) : p.Between depth a e := by
  intro n hlo hhi
  by_cases hn : n < b
  · exact h₁ n hlo hn
  · exact h₂ n (by omega) (by omega)

theorem marks_eq_false_of_between {l : SourceLine} (h : l.isBlank = true ∨ depth < l.indent)
    (k : Keyword) : l.marks k depth = false := by
  rcases h with h | h
  · rw [SourceLine.isBlank, List.isEmpty_iff] at h
    simp [SourceLine.marks, SourceLine.keyword?, SourceLine.word?, h]
  · simp [SourceLine.marks, Nat.ne_of_gt h]

theorem judgeMark_of_between {l : SourceLine} (h : l.isBlank = true ∨ depth < l.indent) :
    judgeMark k depth l = .skip := by
  rw [judgeMark, marks_eq_false_of_between h, if_neg (by decide)]

theorem judgeBranch_of_between {l : SourceLine} (h : l.isBlank = true ∨ depth < l.indent) :
    judgeBranch depth l = .skip := by
  rw [judgeBranch, marks_eq_false_of_between h, marks_eq_false_of_between h, if_neg (by decide)]

theorem judgeLoop_of_between {l : SourceLine} (h : l.isBlank = true ∨ depth < l.indent) :
    judgeLoop k depth l = .skip := by
  rw [judgeLoop, marks_eq_false_of_between h]
  rcases h with h | h
  · rw [if_pos h]
  · split
    · rfl
    · rw [if_neg (by decide), if_neg (by omega)]

theorem judgeLoop_of_marks (h : (p.line n).marks k depth = true) :
    judgeLoop k depth (p.line n) = .found := by
  rw [judgeLoop, not_isBlank_of_keyword? (keyword?_of_marks h), if_neg (by decide), if_pos h]

/-! ### The four searches -/

/-- The next marker at the depth of line `n` is found if the lines up to it are
empty or deeper. -/
theorem blockEnd?_eq_some (hbetween : p.Between (p.indent n) (n + 1) m)
    (hmark : (p.line m).marks k (p.indent n) = true) (hnm : n < m) : p.blockEnd? k n = some m :=
  searchAfter_eq_some (fun i hi him => judgeMark_of_between (hbetween i hi him))
    (by rw [judgeMark, if_pos hmark]) hnm (lt_size_of_keyword? (keyword?_of_marks hmark))

/-- The first `else` or `endif` at the depth of line `n`. -/
theorem branchEnd?_eq_some (hbetween : p.Between (p.indent n) (n + 1) m)
    (hmark : (p.line m).marks k (p.indent n) = true) (hk : k = .endBranch ∨ k = .otherwise)
    (hnm : n < m) : p.branchEnd? n = some m := by
  refine searchAfter_eq_some (fun i hi him => judgeBranch_of_between (hbetween i hi him)) ?_ hnm
    (lt_size_of_keyword? (keyword?_of_marks hmark))
  rcases hk with rfl | rfl
  · simp [judgeBranch, hmark]
  · simp [judgeBranch, hmark]

theorem loopEnd?_eq_some (hbetween : p.Between (p.indent n) (n + 1) m)
    (hmark : (p.line m).marks .endLoop (p.indent n) = true) (hnm : n < m) :
    p.loopEnd? n = some m :=
  searchAfter_eq_some (fun i hi him => judgeLoop_of_between (hbetween i hi him))
    (judgeLoop_of_marks hmark) hnm (lt_size_of_keyword? (keyword?_of_marks hmark))

/-- The search backwards from the end of a loop finds the nearest `while` at its
depth. -/
theorem loopStart?_eq_some (hbetween : p.Between (p.indent n) (m + 1) n)
    (hmark : (p.line m).marks .loop (p.indent n) = true) (hmn : m < n) :
    p.loopStart? n = some m :=
  searchBefore_eq_some (fun i hi hin => judgeLoop_of_between (hbetween i hi hin))
    (judgeLoop_of_marks hmark) hmn

end Program
end LineScript
