/-
The two ends of a loop.

The head of a loop looks forwards for its end, and the end looks backwards for its head. There
is no record of which lines belong together, and lines may be indented in any way. Still the
two searches agree: they go on over the same lines, since both pass over empty lines and give
up at a line that is indented less than the line they begin at.

* `loopEnd?_eq_some_iff` and `loopStart?_eq_some_iff` say what each search finds: between the
  two lines no line is indented less (`Shelters`), and none is another one of the kind that is
  looked for (`Lacks`);
* `exists_loopStart?` and `exists_loopEnd?`: where one search finds a line, the other one finds
  a line on the way back.

`loop_ends_agree` puts them together.
-/
import LineScript.Proofs.Search

namespace LineScript
namespace Program

variable {p : Program} {k : Keyword} {depth a b lo hi : Nat}

/-! ### What the searches for loops pass over -/

theorem judgeLoop_eq_found_iff {l : SourceLine} :
    judgeLoop k depth l = .found ↔ l.isBlank = false ∧ l.marks k depth = true := by
  rw [judgeLoop]
  cases l.isBlank with
  | true => simp
  | false =>
    cases l.marks k depth with
    | true => simp
    | false => by_cases hless : l.indent < depth <;> simp [hless]

theorem judgeLoop_eq_stop_iff {l : SourceLine} :
    judgeLoop k depth l = .stop ↔ l.isBlank = false ∧ l.indent < depth := by
  rw [judgeLoop]
  cases l.isBlank with
  | true => simp
  | false =>
    cases hmarks : l.marks k depth with
    | true =>
      simp only [SourceLine.marks, Bool.and_eq_true, decide_eq_true_eq] at hmarks
      simp [hmarks.2]
    | false => by_cases hless : l.indent < depth <;> simp [hless]

/-- No line between the two is indented less, empty lines apart. -/
def Shelters (p : Program) (depth a b : Nat) : Prop :=
  ∀ i, a < i → i < b → (p.line i).isBlank = false → depth ≤ p.indent i

/-- No line between the two begins with the keyword at the depth. -/
def Lacks (p : Program) (k : Keyword) (depth a b : Nat) : Prop :=
  ∀ i, a < i → i < b → (p.line i).marks k depth = false

theorem Shelters.mono (h : p.Shelters depth a b) (ha : a ≤ lo) (hb : hi ≤ b) :
    p.Shelters depth lo hi :=
  fun i hlo hhi => h i (by omega) (by omega)

theorem Lacks.mono (h : p.Lacks k depth a b) (ha : a ≤ lo) (hb : hi ≤ b) : p.Lacks k depth lo hi :=
  fun i hlo hhi => h i (by omega) (by omega)

theorem Shelters.ne_stop (h : p.Shelters depth a b) :
    ∀ i, a < i → i < b → judgeLoop k depth (p.line i) ≠ .stop := by
  intro i ha hb hstop
  obtain ⟨hblank, hless⟩ := judgeLoop_eq_stop_iff.mp hstop
  exact Nat.not_le_of_lt hless (h i ha hb hblank)

theorem forall_judgeLoop_eq_skip_iff :
    (∀ i, a < i → i < b → judgeLoop k depth (p.line i) = .skip) ↔
      p.Shelters depth a b ∧ p.Lacks k depth a b := by
  have hline : ∀ l : SourceLine, judgeLoop k depth l = .skip ↔
      judgeLoop k depth l ≠ .found ∧ judgeLoop k depth l ≠ .stop := by
    intro l
    cases judgeLoop k depth l <;> simp
  constructor
  · intro h
    refine ⟨?_, ?_⟩
    · intro i ha hb hblank
      by_contra hless
      exact ((hline _).mp (h i ha hb)).2
        (judgeLoop_eq_stop_iff.mpr ⟨hblank, Nat.lt_of_not_le hless⟩)
    · intro i ha hb
      by_contra hmarks
      rw [Bool.not_eq_false] at hmarks
      exact ((hline _).mp (h i ha hb)).1 (judgeLoop_of_marks hmarks)
  · rintro ⟨hshelters, hlacks⟩ i ha hb
    refine (hline _).mpr ⟨?_, hshelters.ne_stop i ha hb⟩
    intro hfound
    have hmarks := (judgeLoop_eq_found_iff.mp hfound).2
    rw [hlacks i ha hb] at hmarks
    cases hmarks

/-! ### What they find -/

variable {w w' e e' : Nat}

theorem marks_of_keyword? (h : p.keyword? a = some k) (hdepth : p.indent a = depth) :
    (p.line a).marks k depth = true := by
  simp only [SourceLine.marks, Bool.and_eq_true, decide_eq_true_eq]
  exact ⟨h, hdepth⟩

/-- The search forwards finds the first end at the depth of the head. -/
theorem loopEnd?_eq_some_iff : p.loopEnd? w = some e ↔
    w < e ∧ (p.line e).marks .endLoop (p.indent w) = true ∧ p.Shelters (p.indent w) w e ∧
      p.Lacks .endLoop (p.indent w) w e := by
  rw [loopEnd?, searchAfter_eq_some_iff, forall_judgeLoop_eq_skip_iff]
  constructor
  · rintro ⟨hwe, -, hfound, hbetween⟩
    exact ⟨hwe, (judgeLoop_eq_found_iff.mp hfound).2, hbetween⟩
  · rintro ⟨hwe, hmarks, hbetween⟩
    exact ⟨hwe, lt_size_of_keyword? (keyword?_of_marks hmarks), judgeLoop_of_marks hmarks, hbetween⟩

/-- The search backwards finds the last head at the depth of the end. -/
theorem loopStart?_eq_some_iff : p.loopStart? e = some w ↔
    w < e ∧ (p.line w).marks .loop (p.indent e) = true ∧ p.Shelters (p.indent e) w e ∧
      p.Lacks .loop (p.indent e) w e := by
  rw [loopStart?, searchBefore_eq_some_iff, forall_judgeLoop_eq_skip_iff]
  constructor
  · rintro ⟨hwe, hfound, hbetween⟩
    exact ⟨hwe, (judgeLoop_eq_found_iff.mp hfound).2, hbetween⟩
  · rintro ⟨hwe, hmarks, hbetween⟩
    exact ⟨hwe, judgeLoop_of_marks hmarks, hbetween⟩

/-! ### There and back -/

/-- From the end that a head has found, the search backwards comes to this head or to a later
one, and that one finds the same end. -/
theorem exists_loopStart? (hhead : p.keyword? w = some .loop) (h : p.loopEnd? w = some e) :
    ∃ w', w ≤ w' ∧ p.loopStart? e = some w' ∧ p.loopEnd? w' = some e := by
  obtain ⟨hwe, hmarks, hshelters, hlacks⟩ := loopEnd?_eq_some_iff.mp h
  have hdepth : p.indent e = p.indent w := indent_of_marks hmarks
  have hback : ∃ w', w ≤ w' ∧ p.loopStart? e = some w' := by
    rw [loopStart?, hdepth]
    exact exists_searchBefore hwe (judgeLoop_of_marks (marks_of_keyword? hhead rfl))
      hshelters.ne_stop
  obtain ⟨w', hle, hstart⟩ := hback
  obtain ⟨hwe', hmarks', -, -⟩ := loopStart?_eq_some_iff.mp hstart
  -- All that lies between the later head and the end also lies after the first head.
  have hdepth' : p.indent w' = p.indent w := (indent_of_marks hmarks').trans hdepth
  refine ⟨w', hle, hstart, loopEnd?_eq_some_iff.mpr ⟨hwe', ?_⟩⟩
  rw [hdepth']
  exact ⟨hmarks, hshelters.mono hle (Nat.le_refl e), hlacks.mono hle (Nat.le_refl e)⟩

/-- From the head that an end has found, the search forwards comes to this end or to an earlier
one, and that one finds the same head. -/
theorem exists_loopEnd? (hend : p.keyword? e = some .endLoop) (h : p.loopStart? e = some w) :
    ∃ e' ≤ e, p.loopEnd? w = some e' ∧ p.loopStart? e' = some w := by
  obtain ⟨hwe, hmarks, hshelters, hlacks⟩ := loopStart?_eq_some_iff.mp h
  have hdepth : p.indent w = p.indent e := indent_of_marks hmarks
  have hforth : ∃ e' ≤ e, p.loopEnd? w = some e' := by
    rw [loopEnd?, hdepth]
    exact exists_searchAfter hwe (lt_size_of_keyword? hend)
      (judgeLoop_of_marks (marks_of_keyword? hend rfl)) hshelters.ne_stop
  obtain ⟨e', hle, hfound⟩ := hforth
  obtain ⟨hwe', hmarks', -, -⟩ := loopEnd?_eq_some_iff.mp hfound
  have hdepth' : p.indent e' = p.indent e := (indent_of_marks hmarks').trans hdepth
  refine ⟨e', hle, hfound, loopStart?_eq_some_iff.mpr ⟨hwe', ?_⟩⟩
  rw [hdepth']
  exact ⟨hmarks, hshelters.mono (Nat.le_refl w) hle, hlacks.mono (Nat.le_refl w) hle⟩

/-- The end that a head has found leads back to this head if there is no other head between. -/
theorem loopStart?_eq_some_iff_lacks (hhead : p.keyword? w = some .loop)
    (h : p.loopEnd? w = some e) :
    p.loopStart? e = some w ↔ p.Lacks .loop (p.indent w) w e := by
  obtain ⟨hwe, hmarks, hshelters, -⟩ := loopEnd?_eq_some_iff.mp h
  rw [loopStart?_eq_some_iff, indent_of_marks hmarks]
  constructor
  · rintro ⟨-, -, -, hlacks⟩
    exact hlacks
  · intro hlacks
    exact ⟨hwe, marks_of_keyword? hhead rfl, hshelters, hlacks⟩

end Program

/-- The two searches for the ends of a loop agree on every program, however its lines are
indented. An end that a head finds leads back to this head or to a later one that finds the same
end, and to this head just if no other head of the same indentation lies between. A head that an
end finds leads on to this end or to an earlier one that finds the same head. -/
theorem loop_ends_agree (p : Program) (w e : Nat) :
    (p.keyword? w = some .loop → p.loopEnd? w = some e →
      p.keyword? e = some .endLoop ∧
      (∃ w', w ≤ w' ∧ w' < e ∧ p.keyword? w' = some .loop ∧ p.loopStart? e = some w' ∧
        p.loopEnd? w' = some e) ∧
      (p.loopStart? e = some w ↔
        ¬∃ i, w < i ∧ i < e ∧ p.keyword? i = some .loop ∧ p.indent i = p.indent w)) ∧
    (p.keyword? e = some .endLoop → p.loopStart? e = some w →
      p.keyword? w = some .loop ∧
      ∃ e', w < e' ∧ e' ≤ e ∧ p.keyword? e' = some .endLoop ∧ p.loopEnd? w = some e' ∧
        p.loopStart? e' = some w) := by
  refine ⟨?_, ?_⟩
  · intro hhead h
    obtain ⟨-, hmarks, -, -⟩ := Program.loopEnd?_eq_some_iff.mp h
    refine ⟨Program.keyword?_of_marks hmarks, ?_, ?_⟩
    · obtain ⟨w', hle, hstart, hend⟩ := Program.exists_loopStart? hhead h
      obtain ⟨hlt, hmarks', -, -⟩ := Program.loopStart?_eq_some_iff.mp hstart
      exact ⟨w', hle, hlt, Program.keyword?_of_marks hmarks', hstart, hend⟩
    · rw [Program.loopStart?_eq_some_iff_lacks hhead h]
      constructor
      · rintro hlacks ⟨i, hwi, hie, hk, hdepth⟩
        have hmarks' := Program.marks_of_keyword? hk hdepth
        rw [hlacks i hwi hie] at hmarks'
        cases hmarks'
      · intro hnone i hwi hie
        by_contra hmarks'
        rw [Bool.not_eq_false] at hmarks'
        exact hnone ⟨i, hwi, hie, Program.keyword?_of_marks hmarks',
          Program.indent_of_marks hmarks'⟩
  · intro hend h
    obtain ⟨-, hmarks, -, -⟩ := Program.loopStart?_eq_some_iff.mp h
    obtain ⟨e', hle, hfound, hstart⟩ := Program.exists_loopEnd? hend h
    obtain ⟨hlt, hmarks', -, -⟩ := Program.loopEnd?_eq_some_iff.mp hfound
    exact ⟨Program.keyword?_of_marks hmarks, e', hlt, hle, Program.keyword?_of_marks hmarks',
      hfound, hstart⟩

/-- Two heads and two ends of one depth, which do not pair up. -/
def entangledProgram : Program := .ofLines [
  "  while a",
  "# a comment at the left margin",
  "  while b",
  "",
  "      funccall print b",
  "  endwhile",
  "  endwhile",
  "endfunc"]

/-- Both heads find the first end, which leads back to the second head only; and the second end
leads back to the second head too. -/
theorem loop_ends_agree_entangledProgram :
    entangledProgram.loopEnd? 0 = some 5 ∧ entangledProgram.loopStart? 6 = some 2 ∧
    entangledProgram.loopStart? 5 ≠ some 0 ∧
    (∃ w', 0 ≤ w' ∧ w' < 5 ∧ entangledProgram.loopStart? 5 = some w' ∧
      entangledProgram.loopEnd? w' = some 5) ∧
    ∃ e', 2 < e' ∧ e' ≤ 6 ∧ entangledProgram.loopEnd? 2 = some e' ∧
      entangledProgram.loopStart? e' = some 2 := by
  have hend : entangledProgram.loopEnd? 0 = some 5 := by decide +kernel
  have hstart : entangledProgram.loopStart? 6 = some 2 := by decide +kernel
  obtain ⟨-, ⟨w', hle, hlt, -, hback, hsame⟩, honly⟩ :=
    (loop_ends_agree entangledProgram 0 5).1 (by decide +kernel) hend
  obtain ⟨-, e', hlt', hle', -, hforth, hsame'⟩ :=
    (loop_ends_agree entangledProgram 2 6).2 (by decide +kernel) hstart
  refine ⟨hend, hstart, ?_, ⟨w', hle, hlt, hback, hsame⟩, e', hlt', hle', hforth, hsame'⟩
  rw [ne_eq, honly, not_not]
  exact ⟨2, by decide, by decide, by decide +kernel, by decide +kernel⟩

end LineScript
