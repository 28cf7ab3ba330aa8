/-
Which body a line belongs to.

Loading records for every line a result type of the innermost function around it and one of the
innermost lambda. It does so with a stack; here is what the stack comes to without it. The body
of a header is open at a line if no stretch of lines after the header, up to the line, has more
end markers than headers (`OpenAt`), and the innermost one is that of the last such header
(`Encloses`). Headers and end markers need not match up.

* `openHeaders` is the stack with the headers' lines in place of their types, and
  `opened_survey` ties it to what loading keeps;
* `exists_above` says how far down the stack a header is: as many bodies lie above it as were
  opened and not closed since; so `mem_openHeaders_iff` tells the headers on the stack;
* the stack is sorted, so the last of these headers is on top (`head?_headersAround_eq_some_iff`).

Functions and lambdas are two families of brackets that take no notice of each other. All is
said for one family, `BodyKind`, and `result_of_enclosing_header` holds of both.
-/
import LineScript.Proofs.Headers

namespace LineScript
open FunctionTable (Survey)

/-! ### Families of brackets -/

/-- What a body belongs to. -/
inductive BodyKind
  | function
  | lambda

namespace BodyKind

/-- The keyword of the headers. -/
def opening : BodyKind → Keyword
  | function => .func
  | lambda => .lambda

/-- The keyword of the end markers. -/
def closing : BodyKind → Keyword
  | function => .endFunc
  | lambda => .endLambda

theorem opening_ne_closing (b : BodyKind) : b.opening ≠ b.closing := by
  cases b <;> decide

end BodyKind

/-- The result type that is recorded for a line. -/
def FunctionTable.resultOf? (t : FunctionTable) : BodyKind → Nat → Option DeclaredType
  | .function => t.functionResult?
  | .lambda => t.lambdaResult?

/-- The result types of the bodies that are open. -/
def FunctionTable.Survey.opened (s : Survey) : BodyKind → List DeclaredType
  | .function => s.openFunctions
  | .lambda => s.openLambdas

namespace Program

variable {p : Program} {b : BodyKind} {h l n : Nat}

/-- The number of lines from `lo` on and before `hi` that begin with the keyword. -/
def tally (p : Program) (k : Keyword) (lo hi : Nat) : Nat :=
  (List.range' lo (hi - lo)).countP fun n => p.keyword? n = some k

/-- The line is a header whose body is open at `l`: however many of the lines between are looked
at, they have no more end markers than headers. -/
structure OpenAt (p : Program) (b : BodyKind) (h l : Nat) : Prop where
  header : p.keyword? h = some b.opening
  le : h ≤ l
  balanced : ∀ k, h < k → k ≤ l → p.tally b.closing (h + 1) k ≤ p.tally b.opening (h + 1) k

/-- The line is the last header whose body is open at `l`. -/
structure Encloses (p : Program) (b : BodyKind) (h l : Nat) : Prop where
  openAt : p.OpenAt b h l
  last : ∀ h', p.OpenAt b h' l → h' ≤ h

/-! ### Counting -/

theorem ne_opening_of_closing (hk : p.keyword? n = some b.closing) :
    p.keyword? n ≠ some b.opening := by
  rw [hk]
  exact fun heq => b.opening_ne_closing (Option.some.inj heq).symm

theorem tally_self (k : Keyword) : p.tally k n n = 0 := by
  simp [tally]

theorem tally_succ (k : Keyword) {lo : Nat} (hlo : lo ≤ n) :
    p.tally k lo (n + 1) = p.tally k lo n + if p.keyword? n = some k then 1 else 0 := by
  obtain ⟨d, rfl⟩ := Nat.exists_eq_add_of_le hlo
  have hrange : List.range' lo (lo + d + 1 - lo) = List.range' lo (lo + d - lo) ++ [lo + d] := by
    rw [Nat.add_assoc, Nat.add_sub_cancel_left, Nat.add_sub_cancel_left, List.range'_1_concat]
  rw [tally, tally, hrange, List.countP_append, List.countP_singleton]
  simp

/-- A body is open one line later if it was open and the lines up to there have no more end
markers than headers. -/
theorem openAt_succ_iff (hle : h ≤ n) : p.OpenAt b h (n + 1) ↔
    p.OpenAt b h n ∧ p.tally b.closing (h + 1) (n + 1) ≤ p.tally b.opening (h + 1) (n + 1) := by
  constructor
  · rintro ⟨header, -, balanced⟩
    exact ⟨⟨header, hle, fun k hk hkn => balanced k hk (by omega)⟩,
      balanced (n + 1) (by omega) (Nat.le_refl _)⟩
  · rintro ⟨⟨header, le, balanced⟩, hlast⟩
    refine ⟨header, by omega, ?_⟩
    intro k hk hkn
    rcases Nat.eq_or_lt_of_le hkn with rfl | hkn
    · exact hlast
    · exact balanced k hk (by omega)

/-- Only an end marker can close a body. -/
theorem openAt_succ_of_ne_closing (hlt : h < n) (hne : p.keyword? n ≠ some b.closing) :
    p.OpenAt b h (n + 1) ↔ p.OpenAt b h n := by
  have hlo : h + 1 ≤ n := hlt
  rw [openAt_succ_iff (Nat.le_of_lt hlt), and_iff_left_iff_imp, tally_succ _ hlo, tally_succ _ hlo,
    if_neg hne]
  intro hopen
  exact Nat.le_trans (hopen.balanced n hlt (Nat.le_refl n)) (Nat.le_add_right _ _)

/-- An end marker leaves a body open if another one was opened and not closed since. -/
theorem openAt_succ_of_closing (hlt : h < n) (hk : p.keyword? n = some b.closing) :
    p.OpenAt b h (n + 1) ↔
      p.OpenAt b h n ∧ p.tally b.closing (h + 1) n < p.tally b.opening (h + 1) n := by
  have hlo : h + 1 ≤ n := hlt
  rw [openAt_succ_iff (Nat.le_of_lt hlt), tally_succ _ hlo, tally_succ _ hlo, if_pos hk,
    if_neg (ne_opening_of_closing hk)]
  exact Iff.rfl

theorem openAt_self (header : p.keyword? h = some b.opening) : p.OpenAt b h h :=
  ⟨header, Nat.le_refl h, fun k hk hkh => by omega⟩

/-! ### The stack of headers -/

/-- The headers whose bodies are open before a line, the innermost first. -/
def openHeaders (p : Program) (b : BodyKind) : Nat → List Nat
  | 0 => []
  | n + 1 =>
    if p.keyword? n = some b.opening then n :: p.openHeaders b n
    else if p.keyword? n = some b.closing then (p.openHeaders b n).tail
    else p.openHeaders b n

theorem openHeaders_succ_of_opening (hk : p.keyword? n = some b.opening) :
    p.openHeaders b (n + 1) = n :: p.openHeaders b n := by
  rw [openHeaders, if_pos hk]

theorem openHeaders_succ_of_closing (hk : p.keyword? n = some b.closing) :
    p.openHeaders b (n + 1) = (p.openHeaders b n).tail := by
  rw [openHeaders, if_neg (ne_opening_of_closing hk), if_pos hk]

theorem openHeaders_succ_of_other (hopening : p.keyword? n ≠ some b.opening)
    (hclosing : p.keyword? n ≠ some b.closing) :
    p.openHeaders b (n + 1) = p.openHeaders b n := by
  rw [openHeaders, if_neg hopening, if_neg hclosing]

theorem lt_of_mem_openHeaders (hmem : h ∈ p.openHeaders b n) : h < n := by
  induction n with
  | zero => cases hmem
  | succ n ih =>
    rw [openHeaders] at hmem
    split at hmem
    · rcases List.mem_cons.mp hmem with rfl | hmem
      · exact Nat.lt_succ_self h
      · exact Nat.lt_succ_of_lt (ih hmem)
    · split at hmem
      · exact Nat.lt_succ_of_lt (ih (List.mem_of_mem_tail hmem))
      · exact Nat.lt_succ_of_lt (ih hmem)

/-- The innermost header is the last one. -/
theorem sorted_openHeaders (p : Program) (b : BodyKind) (n : Nat) :
    (p.openHeaders b n).Pairwise (· > ·) := by
  induction n with
  | zero => exact .nil
  | succ n ih =>
    rw [openHeaders]
    split
    · exact .cons (fun h hmem => lt_of_mem_openHeaders hmem) ih
    · split
      · exact ih.tail
      · exact ih

/-- Above a header whose body is open lie as many others as were opened and not closed since. -/
theorem exists_above (hlt : h < n) (hopen : p.OpenAt b h n) :
    ∃ above below, p.openHeaders b n = above ++ h :: below ∧
      above.length + p.tally b.closing (h + 1) n = p.tally b.opening (h + 1) n := by
  induction n with
  | zero => omega
  | succ n ih =>
    rcases Nat.eq_or_lt_of_le (Nat.lt_succ_iff.mp hlt) with rfl | hlt
    · exact ⟨[], p.openHeaders b h, openHeaders_succ_of_opening hopen.header,
        by simp [tally_self]⟩
    have hlo : h + 1 ≤ n := hlt
    rw [tally_succ _ hlo, tally_succ _ hlo]
    by_cases hclosing : p.keyword? n = some b.closing
    · obtain ⟨hbefore, hless⟩ := (openAt_succ_of_closing hlt hclosing).mp hopen
      obtain ⟨above, below, hstack, hcount⟩ := ih hlt hbefore
      rw [if_pos hclosing, if_neg (ne_opening_of_closing hclosing)]
      -- Something lies above, or the end marker would close the body in question.
      cases above with
      | nil =>
        rw [List.length_nil] at hcount
        omega
      | cons first above =>
        refine ⟨above, below, ?_, ?_⟩
        · rw [openHeaders_succ_of_closing hclosing, hstack, List.cons_append, List.tail_cons]
        · rw [List.length_cons] at hcount
          omega
    obtain ⟨above, below, hstack, hcount⟩ :=
      ih hlt ((openAt_succ_of_ne_closing hlt hclosing).mp hopen)
    rw [if_neg hclosing]
    by_cases hopening : p.keyword? n = some b.opening
    · refine ⟨n :: above, below, ?_, ?_⟩
      · rw [openHeaders_succ_of_opening hopening, hstack, List.cons_append]
      · rw [if_pos hopening, List.length_cons]
        omega
    · refine ⟨above, below, ?_, ?_⟩
      · rw [openHeaders_succ_of_other hopening hclosing, hstack]
      · rw [if_neg hopening]
        exact hcount

/-- A header on the stack is that of a body that is open. -/
theorem openAt_of_mem_openHeaders (hmem : h ∈ p.openHeaders b n) : p.OpenAt b h n := by
  induction n with
  | zero => cases hmem
  | succ n ih =>
    by_cases hclosing : p.keyword? n = some b.closing
    · rw [openHeaders_succ_of_closing hclosing] at hmem
      have hmem' := List.mem_of_mem_tail hmem
      have hlt := lt_of_mem_openHeaders hmem'
      obtain ⟨above, below, hstack, hcount⟩ := exists_above hlt (ih hmem')
      refine (openAt_succ_of_closing hlt hclosing).mpr ⟨ih hmem', ?_⟩
      cases above with
      | nil =>
        -- The stack is sorted, so its top is not once more further down.
        have hsorted := p.sorted_openHeaders b n
        rw [hstack, List.nil_append] at hsorted hmem
        exact absurd (List.rel_of_pairwise_cons hsorted hmem) (Nat.lt_irrefl h)
      | cons first above =>
        rw [List.length_cons] at hcount
        omega
    have hstays : h ∈ p.openHeaders b n → p.OpenAt b h (n + 1) := fun hmem =>
      (openAt_succ_of_ne_closing (lt_of_mem_openHeaders hmem) hclosing).mpr (ih hmem)
    by_cases hopening : p.keyword? n = some b.opening
    · rw [openHeaders_succ_of_opening hopening] at hmem
      rcases List.mem_cons.mp hmem with rfl | hmem
      · exact (openAt_succ_iff (Nat.le_refl h)).mpr ⟨openAt_self hopening, by simp [tally_self]⟩
      · exact hstays hmem
    · rw [openHeaders_succ_of_other hopening hclosing] at hmem
      exact hstays hmem

theorem mem_openHeaders_iff : h ∈ p.openHeaders b n ↔ h < n ∧ p.OpenAt b h n := by
  constructor
  · intro hmem
    exact ⟨lt_of_mem_openHeaders hmem, openAt_of_mem_openHeaders hmem⟩
  · rintro ⟨hlt, hopen⟩
    obtain ⟨above, below, hstack, -⟩ := exists_above hlt hopen
    rw [hstack]
    exact List.mem_append_right above List.mem_cons_self

/-! ### The headers around a line -/

/-- The headers whose bodies a line belongs to, the innermost first. A header belongs to its own
body. -/
def headersAround (p : Program) (b : BodyKind) (l : Nat) : List Nat :=
  if p.keyword? l = some b.opening then l :: p.openHeaders b l else p.openHeaders b l

theorem mem_headersAround_iff : h ∈ p.headersAround b l ↔ p.OpenAt b h l := by
  rw [headersAround]
  split
  · next hk =>
    rw [List.mem_cons, mem_openHeaders_iff]
    constructor
    · rintro (rfl | ⟨-, hopen⟩)
      · exact openAt_self hk
      · exact hopen
    · intro hopen
      exact (Nat.eq_or_lt_of_le hopen.le).imp_right fun hlt => ⟨hlt, hopen⟩
  · next hk =>
    rw [mem_openHeaders_iff, and_iff_right_iff_imp]
    intro hopen
    refine Nat.lt_of_le_of_ne hopen.le ?_
    rintro rfl
    exact hk hopen.header

theorem sorted_headersAround (p : Program) (b : BodyKind) (l : Nat) :
    (p.headersAround b l).Pairwise (· > ·) := by
  rw [headersAround]
  split
  · exact .cons (fun h hmem => lt_of_mem_openHeaders hmem) (p.sorted_openHeaders b l)
  · exact p.sorted_openHeaders b l

/-- The innermost body around a line is that of the last header whose body is open there. -/
theorem head?_headersAround_eq_some_iff :
    (p.headersAround b l).head? = some h ↔ p.Encloses b h l := by
  have hmem : ∀ h', h' ∈ p.headersAround b l ↔ p.OpenAt b h' l := fun h' => mem_headersAround_iff
  have hsorted := p.sorted_headersAround b l
  cases hlist : p.headersAround b l with
  | nil =>
    rw [hlist] at hmem
    constructor
    · nofun
    · intro henc
      cases (hmem h).mpr henc.openAt
  | cons first rest =>
    rw [hlist] at hmem hsorted
    have hfirst : p.Encloses b first l := by
      refine ⟨(hmem first).mp List.mem_cons_self, ?_⟩
      intro h' hopen
      rcases List.mem_cons.mp ((hmem h').mpr hopen) with rfl | hrest
      · exact Nat.le_refl _
      · exact Nat.le_of_lt (List.rel_of_pairwise_cons hsorted hrest)
    rw [List.head?_cons, Option.some.injEq]
    constructor
    · rintro rfl
      exact hfirst
    · intro henc
      exact Nat.le_antisymm (henc.last first hfirst.openAt) (hfirst.last h henc.openAt)

theorem headersAround_eq_nil_iff : p.headersAround b l = [] ↔ ¬∃ h, p.OpenAt b h l := by
  simp only [List.eq_nil_iff_forall_not_mem, mem_headersAround_iff, not_exists]

/-- The line is a header that declares the type as the result. -/
def DeclaresResult (p : Program) (h : Nat) (type : DeclaredType) : Prop :=
  ∃ sig, p.Declares h sig ∧ sig.result = type

theorem declaresResult_iff {type : DeclaredType} :
    p.DeclaresResult h type ↔ (p.header? h).map Signature.result = some type := by
  simp only [DeclaresResult, Option.map_eq_some_iff, header?_eq_some_iff]

theorem DeclaresResult.unique {type type' : DeclaredType} (hd : p.DeclaresResult h type)
    (hd' : p.DeclaresResult h type') : type = type' := by
  rw [declaresResult_iff] at hd hd'
  exact Option.some.inj (hd.symm.trans hd')

/-! ### Programs with the same bodies of one family -/

/-- The programs are as long, and have headers and end markers of the family at the same lines,
the headers with the same results. -/
structure SameBodies (p p' : Program) (b : BodyKind) : Prop where
  size : p.size = p'.size
  opening : ∀ n < p.size, p.keyword? n = some b.opening ↔ p'.keyword? n = some b.opening
  closing : ∀ n < p.size, p.keyword? n = some b.closing ↔ p'.keyword? n = some b.closing
  results : ∀ n < p.size, p.keyword? n = some b.opening →
    ∀ type, p.DeclaresResult n type ↔ p'.DeclaresResult n type

theorem tally_congr {p' : Program} {k : Keyword} {lo hi : Nat}
    (hk : ∀ n < hi, p.keyword? n = some k ↔ p'.keyword? n = some k) :
    p.tally k lo hi = p'.tally k lo hi := by
  apply List.countP_congr
  intro n hn
  have hlt : n < hi := by
    rw [List.mem_range'_1] at hn
    omega
  simp only [decide_eq_true_eq, hk n hlt]

namespace SameBodies

variable {p' : Program}

theorem openAt_iff (hsame : SameBodies p p' b) (hl : l < p.size) :
    p.OpenAt b h l ↔ p'.OpenAt b h l := by
  have hopening : ∀ k ≤ l, p.tally b.opening (h + 1) k = p'.tally b.opening (h + 1) k :=
    fun k hk => tally_congr fun n hn => hsame.opening n (by omega)
  have hclosing : ∀ k ≤ l, p.tally b.closing (h + 1) k = p'.tally b.closing (h + 1) k :=
    fun k hk => tally_congr fun n hn => hsame.closing n (by omega)
  constructor
  · rintro ⟨header, le, balanced⟩
    refine ⟨(hsame.opening h (by omega)).mp header, le, fun k hlt hk => ?_⟩
    rw [← hopening k hk, ← hclosing k hk]
    exact balanced k hlt hk
  · rintro ⟨header, le, balanced⟩
    refine ⟨(hsame.opening h (by omega)).mpr header, le, fun k hlt hk => ?_⟩
    rw [hopening k hk, hclosing k hk]
    exact balanced k hlt hk

theorem encloses_iff (hsame : SameBodies p p' b) (hl : l < p.size) :
    p.Encloses b h l ↔ p'.Encloses b h l := by
  constructor
  · rintro ⟨hopen, last⟩
    exact ⟨(hsame.openAt_iff hl).mp hopen,
      fun h' hopen' => last h' ((hsame.openAt_iff hl).mpr hopen')⟩
  · rintro ⟨hopen, last⟩
    exact ⟨(hsame.openAt_iff hl).mpr hopen,
      fun h' hopen' => last h' ((hsame.openAt_iff hl).mp hopen')⟩

end SameBodies
end Program

/-! ### What loading keeps -/

namespace Image.Loaded

variable {img : Image} {b : BodyKind} {n l : Nat}

theorem declaresResult (h : img.Loaded) (hk : img.program.keyword? n = some b.opening) :
    ∃ sig, img.program.header? n = some sig ∧ img.program.DeclaresResult n sig.result := by
  obtain ⟨sig, hsig⟩ : ∃ sig, img.program.header? n = some sig := by
    cases b with
    | function => exact h.exists_header (.inl hk)
    | lambda => exact h.exists_header (.inr hk)
  exact ⟨sig, hsig, sig, Program.header?_eq_some_iff.mp hsig, rfl⟩

theorem opened_succ_of_opening (h : img.Loaded) {sig : Signature}
    (hk : img.program.keyword? n = some b.opening) (hsig : img.program.header? n = some sig) :
    (img.program.survey (n + 1)).opened b = sig.result :: (img.program.survey n).opened b := by
  cases b with
  | function => exact (h.open_succ_of_func hk hsig).1
  | lambda => exact (h.open_succ_of_lambda hk hsig).2

theorem opened_succ_of_closing (h : img.Loaded) (hk : img.program.keyword? n = some b.closing) :
    (img.program.survey (n + 1)).opened b = ((img.program.survey n).opened b).tail := by
  cases b with
  | function => exact (h.open_succ_of_endFunc hk).1
  | lambda => exact (h.open_succ_of_endLambda hk).2

/-- The brackets of one family leave what is open of the other. -/
theorem opened_succ_of_other (h : img.Loaded) (hn : n < img.program.size)
    (hopening : img.program.keyword? n ≠ some b.opening)
    (hclosing : img.program.keyword? n ≠ some b.closing) :
    (img.program.survey (n + 1)).opened b = (img.program.survey n).opened b := by
  cases b with
  | function =>
    by_cases hlambda : img.program.keyword? n = some .lambda
    · obtain ⟨sig, hsig⟩ := h.exists_header (.inr hlambda)
      exact (h.open_succ_of_lambda hlambda hsig).1
    by_cases hend : img.program.keyword? n = some .endLambda
    · exact (h.open_succ_of_endLambda hend).1
    refine (h.open_succ_of_other hn ?_).1
    simpa using ⟨hopening, hclosing, hlambda, hend⟩
  | lambda =>
    by_cases hfunc : img.program.keyword? n = some .func
    · obtain ⟨sig, hsig⟩ := h.exists_header (.inl hfunc)
      exact (h.open_succ_of_func hfunc hsig).2
    by_cases hend : img.program.keyword? n = some .endFunc
    · exact (h.open_succ_of_endFunc hend).2
    refine (h.open_succ_of_other hn ?_).2
    simpa using ⟨hfunc, hend, hopening, hclosing⟩

/-- Loading keeps the declared results of the headers on the stack. -/
theorem opened_survey (h : img.Loaded) (hn : n ≤ img.program.size) :
    List.Forall₂ img.program.DeclaresResult (img.program.openHeaders b n)
      ((img.program.survey n).opened b) := by
  induction n with
  | zero =>
    cases b with
    | function => exact .nil
    | lambda => exact .nil
  | succ n ih =>
    have ih := ih (Nat.le_of_lt hn)
    by_cases hopening : img.program.keyword? n = some b.opening
    · obtain ⟨sig, hsig, hresult⟩ := h.declaresResult hopening
      rw [Program.openHeaders_succ_of_opening hopening, h.opened_succ_of_opening hopening hsig]
      exact .cons hresult ih
    by_cases hclosing : img.program.keyword? n = some b.closing
    · rw [Program.openHeaders_succ_of_closing hclosing, h.opened_succ_of_closing hclosing,
        ← List.drop_one, ← List.drop_one]
      exact List.forall₂_drop 1 ih
    · rw [Program.openHeaders_succ_of_other hopening hclosing,
        h.opened_succ_of_other hn hopening hclosing]
      exact ih

theorem resultOf?_eq_ite (h : img.Loaded) (hl : l < img.program.size) :
    img.functions.resultOf? b l =
      if img.program.keyword? l = some b.opening then (img.program.header? l).map Signature.result
      else ((img.program.survey l).opened b).head? := by
  cases b with
  | function => exact (h.recorded hl).1
  | lambda => exact (h.recorded hl).2

/-- What is recorded for a line is the first of the declared results of the headers around it. -/
theorem exists_results (h : img.Loaded) (hl : l < img.program.size) :
    ∃ types, List.Forall₂ img.program.DeclaresResult (img.program.headersAround b l) types ∧
      img.functions.resultOf? b l = types.head? := by
  have hopen := h.opened_survey (b := b) (Nat.le_of_lt hl)
  rw [h.resultOf?_eq_ite hl, Program.headersAround]
  split
  · next hk =>
    obtain ⟨sig, hsig, hresult⟩ := h.declaresResult hk
    exact ⟨sig.result :: _, .cons hresult hopen, by rw [hsig]; rfl⟩
  · exact ⟨_, hopen, rfl⟩

theorem resultOf?_eq_some_iff (h : img.Loaded) (hl : l < img.program.size) {type : DeclaredType} :
    img.functions.resultOf? b l = some type ↔
      ∃ n, img.program.Encloses b n l ∧ img.program.DeclaresResult n type := by
  simp only [← Program.head?_headersAround_eq_some_iff]
  obtain ⟨types, hdeclares, hrecorded⟩ := h.exists_results (b := b) hl
  rw [hrecorded]
  generalize img.program.headersAround b l = headers at hdeclares ⊢
  cases hdeclares with
  | nil => simp
  | @cons first type' rest types hfirst _ =>
    constructor
    · intro heq
      cases heq
      exact ⟨first, rfl, hfirst⟩
    · rintro ⟨n, heq, hresult⟩
      cases heq
      rw [List.head?_cons, hfirst.unique hresult]

theorem resultOf?_eq_none_iff (h : img.Loaded) (hl : l < img.program.size) :
    img.functions.resultOf? b l = none ↔ ¬∃ n, img.program.OpenAt b n l := by
  rw [← Program.headersAround_eq_nil_iff]
  obtain ⟨types, hdeclares, hrecorded⟩ := h.exists_results (b := b) hl
  rw [hrecorded]
  generalize img.program.headersAround b l = headers at hdeclares ⊢
  cases hdeclares with
  | nil => simp
  | cons _ _ => simp

theorem resultOf?_of_size_le (h : img.Loaded) (hl : img.program.size ≤ l) :
    img.functions.resultOf? b l = none := by
  obtain ⟨hf, hlambda⟩ := h.size_results (Nat.le_refl _)
  rw [← h.functions_eq] at hf hlambda
  cases b with
  | function => simp [FunctionTable.resultOf?, FunctionTable.functionResult?, hf, hl]
  | lambda => simp [FunctionTable.resultOf?, FunctionTable.lambdaResult?, hlambda, hl]

/-- What is recorded of one family does not depend on the brackets of the other. -/
theorem resultOf?_eq_of_sameBodies {img' : Image} (h : img.Loaded) (h' : img'.Loaded)
    (hsame : img.program.SameBodies img'.program b) :
    img.functions.resultOf? b l = img'.functions.resultOf? b l := by
  rcases Nat.lt_or_ge l img.program.size with hl | hl
  · have hl' : l < img'.program.size := hsame.size ▸ hl
    refine Option.ext fun type => ?_
    rw [h.resultOf?_eq_some_iff hl, h'.resultOf?_eq_some_iff hl']
    refine exists_congr fun n => ?_
    rw [hsame.encloses_iff hl]
    refine and_congr_right fun henc => ?_
    have hopen := (hsame.openAt_iff hl).mpr henc.openAt
    exact hsame.results n (Nat.lt_of_le_of_lt hopen.le hl) hopen.header type
  · rw [h.resultOf?_of_size_le hl, h'.resultOf?_of_size_le (hsame.size ▸ hl)]

end Image.Loaded

/-- In a program that loads, the result type recorded for a line, of functions or of lambdas, is
the one that the last header at or before the line declares whose body is not closed before the
line, that is, after which no stretch of lines before the line has more end markers than headers.
There is none exactly where there is no such header and at lines that are not in the program.
The headers and end markers of the other family do not matter. -/
theorem result_of_enclosing_header {p : Program} {t : FunctionTable}
    (hload : FunctionTable.ofProgram p = .ok t) (b : BodyKind) (l : Nat) :
    (∀ type, t.resultOf? b l = some type ↔
      l < p.size ∧ ∃ h, p.Encloses b h l ∧ p.DeclaresResult h type) ∧
    (t.resultOf? b l = none ↔ p.size ≤ l ∨ ¬∃ h, p.OpenAt b h l) ∧
    ∀ p' t', FunctionTable.ofProgram p' = .ok t' → p.SameBodies p' b →
      t'.resultOf? b l = t.resultOf? b l := by
  have hloaded : Image.Loaded ⟨p, t⟩ := hload
  refine ⟨?_, ?_, ?_⟩
  · intro type
    rcases Nat.lt_or_ge l p.size with hl | hl
    · rw [and_iff_right hl]
      exact hloaded.resultOf?_eq_some_iff hl
    · have hnone : t.resultOf? b l = none := hloaded.resultOf?_of_size_le hl
      simp [hnone, Nat.not_lt.mpr hl]
  · rcases Nat.lt_or_ge l p.size with hl | hl
    · rw [or_iff_right (Nat.not_le.mpr hl)]
      exact hloaded.resultOf?_eq_none_iff hl
    · exact iff_of_true (hloaded.resultOf?_of_size_le hl) (.inl hl)
  · intro p' t' hload' hsame
    have hloaded' : Image.Loaded ⟨p', t'⟩ := hload'
    exact (hloaded.resultOf?_eq_of_sameBodies hloaded' hsame).symm

/-- Functions and lambdas that cross, with end markers too many and too few. -/
def crossingProgram : Program := .ofLines [
  "endfunc",
  "func outer int",
  "lambda n:int string",
  "func inner bool",
  "endlambda",
  "endfunc",
  "endfunc",
  "endfunc",
  "func last void"]

/-- The same functions without the lambda. -/
def crossingFunctions : Program := .ofLines [
  "endfunc",
  "func outer int",
  "",
  "func inner bool",
  "",
  "endfunc",
  "endfunc",
  "endfunc",
  "func last void"]

/-- The table of the functions and lambdas that cross. -/
def crossingTable : FunctionTable where
  signatures := #[⟨"outer", [], 1, .int⟩, ⟨"lambda@2", [⟨"n", .int⟩], 2, .str⟩,
    ⟨"inner", [], 3, .bool⟩, ⟨"last", [], 8, .void⟩]
  functionResults := #[none, some .int, some .int, some .bool, some .bool, some .bool, some .int,
    none, some .void]
  lambdaResults := #[none, none, some .str, some .str, some .str, none, none, none, none]

/-- The second `endfunc` after the two functions ends the outer one, the third ends nothing, and
the `endlambda` between them matters to the lambda only. -/
theorem result_of_enclosing_header_crossing :
    FunctionTable.ofProgram crossingProgram = .ok crossingTable ∧
    (∃ h, crossingProgram.Encloses .function h 6 ∧ crossingProgram.DeclaresResult h .int) ∧
    (¬∃ h, crossingProgram.OpenAt .function h 7) ∧
    (∃ h, crossingProgram.Encloses .lambda h 4 ∧ crossingProgram.DeclaresResult h .str) ∧
    ∃ t, FunctionTable.ofProgram crossingFunctions = .ok t ∧
      ∀ l, t.resultOf? .function l = crossingTable.resultOf? .function l := by
  have hload : FunctionTable.ofProgram crossingProgram = .ok crossingTable := by decide +kernel
  have hsize : crossingProgram.size = 9 := by decide +kernel
  refine ⟨hload, ?_, ?_, ?_, ?_⟩
  · exact (((result_of_enclosing_header hload .function 6).1 .int).mp (by decide +kernel)).2
  · have hnone := (result_of_enclosing_header hload .function 7).2.1.mp (by decide +kernel)
    exact hnone.resolve_left (by rw [hsize]; decide)
  · exact (((result_of_enclosing_header hload .lambda 4).1 .str).mp (by decide +kernel)).2
  · have hload' : (FunctionTable.ofProgram crossingFunctions).isOk = true := by decide +kernel
    cases ht : FunctionTable.ofProgram crossingFunctions with
    | error failure =>
      rw [ht] at hload'
      cases hload'
    | ok t =>
      refine ⟨t, rfl, fun l => ?_⟩
      refine (result_of_enclosing_header hload .function l).2.2 crossingFunctions t ht ?_
      refine ⟨by decide +kernel, by decide +kernel, by decide +kernel, ?_⟩
      have hresults : ∀ n < crossingProgram.size, crossingProgram.keyword? n = some .func →
          (crossingProgram.header? n).map Signature.result =
            (crossingFunctions.header? n).map Signature.result := by
        decide +kernel
      intro n hn hk type
      rw [Program.declaresResult_iff, Program.declaresResult_iff, hresults n hn hk]

end LineScript
