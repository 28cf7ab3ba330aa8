/-
Loading, line by line.

`Program.survey p n` is what loading has read before line `n`. When a program
loads, every line takes one survey to the next, and the last survey holds the
table of functions:

* `survey_succ_of_header` and `survey_succ_of_no_header` say what one line adds;
* `recorded` reads the two result types that are recorded for a line off the survey
  before it;
* `signature_of_header`, `header_of_signature` and `lookup?_eq_some_iff` tie the
  signatures of the table to the header lines they were read from.

The tables only grow, so a fact about the survey after a line is a fact about the
finished table; `table_extends` is the lemma that carries it there.
-/
import LineScript.Machine.State
import LineScript.Proofs.Search

namespace LineScript
open FunctionTable (Survey)

/-- A computation in steps succeeds exactly if each step does. -/
theorem Except.bind_eq_ok_iff {ε α β : Type} {x : Except ε α} {f : α → Except ε β} {b : β} :
    (x >>= f) = .ok b ↔ ∃ a, x = .ok a ∧ f a = .ok b := by
  cases x with
  | error e => simp [bind, Except.bind]
  | ok a => simp [bind, Except.bind]

theorem Except.map_eq_ok_iff {ε α β : Type} {x : Except ε α} {f : α → β} {b : β} :
    x.map f = .ok b ↔ ∃ a, x = .ok a ∧ f a = b := by
  cases x with
  | error e => simp [Except.map]
  | ok a => simp [Except.map]

namespace Program

/-- What loading has read before a line. A line that is refused adds nothing. -/
def survey (p : Program) : Nat → Survey
  | 0 => {}
  | n + 1 =>
    match (p.survey n).visit n (p.line n) with
    | .ok s => s
    | .error _ => p.survey n

/-- The signature that a line declares, if it is a header in order. -/
def header? (p : Program) (n : Nat) : Option Signature :=
  match Signature.ofLine? n (p.keyword? n) (p.line n).tokens.tail with
  | .ok header => header
  | .error _ => none

theorem line_eq_getElem {p : Program} {n : Nat} (hn : n < p.lines.size) :
    p.line n = p.lines[n] := by
  simp [line, hn]

theorem ofParts_eq_ok {name result : String} {n : Nat} {formals : List String}
    {sig : Signature} (h : Signature.ofParts name n formals result = .ok sig) :
    sig.definition = n ∧ sig.name = name := by
  rw [Signature.ofParts] at h
  split at h
  · cases h
  · obtain ⟨params, -, h⟩ := Except.bind_eq_ok_iff.mp h
    cases h
    exact ⟨rfl, rfl⟩

/-- A header has a name, formal parameters and a result; a lambda is named after its
line. -/
theorem exists_ofParts {p : Program} {n : Nat} {sig : Signature} (h : p.header? n = some sig) :
    ∃ name formals result, Signature.ofParts name n formals result = .ok sig ∧
      (p.keyword? n = some .lambda → name = lambdaName n) := by
  have hline : Signature.ofLine? n (p.keyword? n) (p.line n).tokens.tail = .ok (some sig) := by
    rw [header?] at h
    split at h
    · next heq => rw [heq, h]
    · cases h
  rw [Signature.ofLine?.eq_def] at hline
  split at hline
  · next hk =>
    obtain ⟨sig', hf, hsig⟩ := Except.map_eq_ok_iff.mp hline
    cases hsig
    rw [Signature.ofFunction.eq_def] at hf
    split at hf
    · exact ⟨_, _, _, hf, fun hk' => by rw [hk] at hk'; cases hk'⟩
    · cases hf
  · obtain ⟨sig', hf, hsig⟩ := Except.map_eq_ok_iff.mp hline
    cases hsig
    rw [Signature.ofLambda.eq_def] at hf
    split at hf
    · exact ⟨_, _, _, hf, fun _ => rfl⟩
    · cases hf
  · cases hline

/-- A signature keeps the number of the line it was read from, and that of a lambda
is named after this line. -/
theorem header?_eq_some {p : Program} {n : Nat} {sig : Signature} (h : p.header? n = some sig) :
    sig.definition = n ∧ (p.keyword? n = some .lambda → sig.name = lambdaName n) := by
  obtain ⟨name, formals, result, hparts, hlambda⟩ := exists_ofParts h
  obtain ⟨hdefinition, hname⟩ := ofParts_eq_ok hparts
  exact ⟨hdefinition, fun hk => hname.trans (hlambda hk)⟩

/-- No parameter has a name that is reserved. -/
theorem not_reserved_of_ofFormals {formals : List String} {params : List Param}
    (h : Param.ofFormals formals = .ok params) : ∀ q ∈ params, isReserved q.name = false := by
  induction formals generalizing params with
  | nil =>
    cases h
    exact List.forall_mem_nil _
  | cons formal rest ih =>
    obtain ⟨param, hparam, h⟩ := Except.bind_eq_ok_iff.mp h
    obtain ⟨others, hothers, h⟩ := Except.bind_eq_ok_iff.mp h
    cases h
    refine List.forall_mem_cons.mpr ⟨?_, ih hothers⟩
    rw [Param.ofFormal] at hparam
    split at hparam
    · dsimp only at hparam
      split at hparam
      · cases hparam
      · next hname =>
        split at hparam <;> cases hparam
        simpa using hname
    · cases hparam

theorem not_reserved_of_header? {p : Program} {n : Nat} {sig : Signature}
    (h : p.header? n = some sig) : ∀ q ∈ sig.params, isReserved q.name = false := by
  obtain ⟨name, formals, result, hparts, -⟩ := exists_ofParts h
  rw [Signature.ofParts] at hparts
  split at hparts
  · cases hparts
  · obtain ⟨params, hparams, hparts⟩ := Except.bind_eq_ok_iff.mp hparts
    cases hparts
    exact not_reserved_of_ofFormals hparams

/-- Reading the lines from `n` on, starting with the survey before `n`, goes
through the surveys of the lines that follow. -/
theorem visitAll_drop {p : Program} {last : Survey} : ∀ (left n : Nat), n + left = p.size →
    Survey.visitAll (p.survey n) n (p.lines.toList.drop n) = .ok last →
      last = p.survey p.size ∧
      ∀ m, n ≤ m → m < p.size → (p.survey m).visit m (p.line m) = .ok (p.survey (m + 1)) := by
  intro left
  induction left with
  | zero =>
    intro n hn h
    obtain rfl : n = p.size := by omega
    rw [List.drop_of_length_le (by simp [size])] at h
    cases h
    exact ⟨rfl, fun m hm hlt => by omega⟩
  | succ left ih =>
    intro n hn h
    have hlt : n < p.lines.toList.length := by
      simp only [size] at hn
      simpa using by omega
    rw [List.drop_eq_getElem_cons hlt, Survey.visitAll] at h
    have hline : p.lines.toList[n] = p.line n := by
      rw [Array.getElem_toList, line_eq_getElem (by simpa using hlt)]
    rw [hline] at h
    cases hv : (p.survey n).visit n (p.line n) with
    | error cause =>
      rw [hv] at h
      cases h
    | ok s =>
      have hs : p.survey (n + 1) = s := by rw [survey, hv]
      rw [hv] at h
      simp only at h
      rw [← hs] at h
      obtain ⟨hlast, hrest⟩ := ih (n + 1) (by omega) h
      refine ⟨hlast, ?_⟩
      intro m hm hmlt
      rcases Nat.eq_or_lt_of_le hm with rfl | hm
      · rw [hv, hs]
      · exact hrest m hm hmlt

end Program

namespace FunctionTable

/-! ### Tables grow -/

/-- Everything in the first table is at the same place in the second. -/
structure Extends (t t' : FunctionTable) : Prop where
  signatures : ∀ {i : Nat} {sig : Signature},
    t.signatures[i]? = some sig → t'.signatures[i]? = some sig
  functionResults : ∀ {i : Nat} {result : Option DeclaredType},
    t.functionResults[i]? = some result → t'.functionResults[i]? = some result
  lambdaResults : ∀ {i : Nat} {result : Option DeclaredType},
    t.lambdaResults[i]? = some result → t'.lambdaResults[i]? = some result

theorem Extends.refl (t : FunctionTable) : t.Extends t := ⟨id, id, id⟩

theorem Extends.trans {t t' t'' : FunctionTable} (h : t.Extends t') (h' : t'.Extends t'') :
    t.Extends t'' :=
  ⟨h'.signatures ∘ h.signatures, h'.functionResults ∘ h.functionResults,
    h'.lambdaResults ∘ h.lambdaResults⟩

theorem getElem?_push_of_some {α : Type} {xs : Array α} {x y : α} {i : Nat}
    (h : xs[i]? = some y) : (xs.push x)[i]? = some y := by
  have hi : i < xs.size := (Array.getElem?_eq_some_iff.mp h).1
  rw [Array.getElem?_push, if_neg (by omega), h]

/-- A name that is looked up is that of the signature found. -/
theorem signature?_of_lookup? {t : FunctionTable} {name : String} {id : FuncId}
    (h : t.lookup? name = some id) : ∃ sig, t.signature? id = some sig ∧ sig.name = name := by
  obtain ⟨i, hi, rfl⟩ := Option.map_eq_some_iff.mp h
  obtain ⟨hlt, hname, -⟩ := Array.findIdx?_eq_some_iff_getElem.mp hi
  exact ⟨t.signatures[i], by simp [signature?, hlt], by simpa using hname⟩

/-- No two signatures have one name. -/
def NamesDistinct (t : FunctionTable) : Prop :=
  ∀ {i j : FuncId} {sig sig' : Signature}, t.signature? i = some sig →
    t.signature? j = some sig' → sig.name = sig'.name → i = j

theorem lookup?_eq_some_iff {t : FunctionTable} (h : t.NamesDistinct) {name : String}
    {id : FuncId} :
    t.lookup? name = some id ↔ ∃ sig, t.signature? id = some sig ∧ sig.name = name := by
  refine ⟨signature?_of_lookup?, ?_⟩
  rintro ⟨sig, hsig, hname⟩
  cases hl : t.lookup? name with
  | none =>
    -- The name of an entry cannot be missed by the search.
    rw [lookup?, Option.map_eq_none_iff, Array.findIdx?_eq_none_iff] at hl
    have := hl sig (Array.mem_of_getElem? hsig)
    simp [hname] at this
  | some id' =>
    -- The search may stop earlier, but only at an entry of the same name.
    obtain ⟨sig', hsig', hname'⟩ := signature?_of_lookup? hl
    rw [h hsig' hsig (hname'.trans hname.symm)]

namespace Survey

/-! ### One line -/

/-- What a line does that is no header. -/
def pass (s : Survey) (keyword : Option Keyword) : Survey := s.record.closeBody keyword

/-- What a header does. -/
def declare (s : Survey) (keyword : Option Keyword) (sig : Signature) : Survey :=
  (Survey.openBody { s with table.signatures := s.table.signatures.push sig } keyword
    sig.result).pass keyword

theorem visit_eq_ok {s s' : Survey} {n : Nat} {l : SourceLine} (h : s.visit n l = .ok s') :
    (Signature.ofLine? n l.keyword? l.tokens.tail = .ok none ∧ s' = s.pass l.keyword?) ∨
    ∃ sig, Signature.ofLine? n l.keyword? l.tokens.tail = .ok (some sig) ∧
      s.table.lookup? sig.name = none ∧ s' = s.declare l.keyword? sig := by
  obtain ⟨header, hheader, h⟩ := Except.bind_eq_ok_iff.mp h
  cases header with
  | none => exact .inl ⟨hheader, (Except.ok.inj h).symm⟩
  | some sig =>
    obtain ⟨s₁, hs₁, h⟩ := Except.bind_eq_ok_iff.mp h
    rw [register] at hs₁
    split at hs₁
    · cases hs₁
    · next hnew =>
      cases hs₁
      exact .inr ⟨sig, hheader, by simpa using hnew, (Except.ok.inj h).symm⟩

theorem table_pass (s : Survey) (keyword : Option Keyword) :
    (s.pass keyword).table = s.record.table := by
  unfold pass closeBody
  split <;> rfl

theorem table_openBody (s : Survey) (keyword : Option Keyword) (result : DeclaredType) :
    (s.openBody keyword result).table = s.table := by
  unfold openBody
  split <;> rfl

theorem extends_record (s : Survey) : s.table.Extends s.record.table :=
  ⟨id, getElem?_push_of_some, getElem?_push_of_some⟩

theorem extends_visit {s s' : Survey} {n : Nat} {l : SourceLine} (h : s.visit n l = .ok s') :
    s.table.Extends s'.table := by
  rcases visit_eq_ok h with ⟨-, rfl⟩ | ⟨sig, -, -, rfl⟩
  · rw [table_pass]
    exact s.extends_record
  · rw [declare, table_pass]
    -- The signature is added first, and then the line is recorded.
    refine Extends.trans ?_ (extends_record _)
    rw [table_openBody]
    exact ⟨getElem?_push_of_some, id, id⟩

end Survey
end FunctionTable

namespace Image

/-- The functions of the image are those its program loads with. -/
def Loaded (img : Image) : Prop := FunctionTable.ofProgram img.program = .ok img.functions

theorem loaded_of_load {p : Program} {img : Image} (h : load p = .ok img) :
    img.program = p ∧ img.Loaded := by
  simp only [load] at h
  cases ht : FunctionTable.ofProgram p with
  | error failure =>
    rw [ht] at h
    cases h
  | ok functions =>
    rw [ht] at h
    cases h
    exact ⟨rfl, ht⟩

/-- A program with its functions, or with none if it does not load. -/
def ofProgram (p : Program) : Image := ⟨p, (FunctionTable.ofProgram p).toOption.getD {}⟩

theorem load_eq_ofProgram {p : Program} (h : (load p).isOk = true) :
    load p = .ok (ofProgram p) := by
  rw [load] at h ⊢
  rw [ofProgram]
  cases ht : FunctionTable.ofProgram p with
  | error failure =>
    rw [ht] at h
    cases h
  | ok functions => rfl

namespace Loaded

variable {img : Image} {n : Nat} {sig : Signature}

theorem visit (h : img.Loaded) (hn : n < img.program.size) :
    (img.program.survey n).visit n (img.program.line n) = .ok (img.program.survey (n + 1)) := by
  simp only [Loaded, FunctionTable.ofProgram] at h
  cases hv : Survey.visitAll {} 0 img.program.lines.toList with
  | error failure =>
    rw [hv] at h
    cases h
  | ok last => exact (Program.visitAll_drop _ 0 (Nat.zero_add _) hv).2 n (Nat.zero_le n) hn

theorem functions_eq (h : img.Loaded) :
    img.functions = (img.program.survey img.program.size).table := by
  simp only [Loaded, FunctionTable.ofProgram] at h
  cases hv : Survey.visitAll {} 0 img.program.lines.toList with
  | error failure =>
    rw [hv] at h
    cases h
  | ok last =>
    have hlast := (Program.visitAll_drop _ 0 (Nat.zero_add _) hv).1
    rw [hv] at h
    rw [← hlast]
    exact (Except.ok.inj h).symm

/-- What is read at a line stays in the table until the end. -/
theorem table_extends (h : img.Loaded) {m : Nat} (hnm : n ≤ m) (hm : m ≤ img.program.size) :
    (img.program.survey n).table.Extends (img.program.survey m).table := by
  induction m with
  | zero =>
    obtain rfl : n = 0 := by omega
    exact .refl _
  | succ m ih =>
    rcases Nat.eq_or_lt_of_le hnm with rfl | hlt
    · exact .refl _
    · exact (ih (by omega) (by omega)).trans (Survey.extends_visit (h.visit hm))

theorem functions_extends (h : img.Loaded) (hn : n ≤ img.program.size) :
    (img.program.survey n).table.Extends img.functions := by
  rw [h.functions_eq]
  exact h.table_extends hn (Nat.le_refl _)

/-! ### Headers and open bodies -/

theorem survey_succ_of_header (h : img.Loaded) (hn : n < img.program.size)
    (hsig : img.program.header? n = some sig) :
    (img.program.survey n).table.lookup? sig.name = none ∧
      img.program.survey (n + 1) =
        (img.program.survey n).declare (img.program.keyword? n) sig := by
  rcases Survey.visit_eq_ok (h.visit hn) with ⟨hnone, -⟩ | ⟨sig', hsome, hnew, hnext⟩
  · rw [Program.header?, Program.keyword?, hnone] at hsig
    cases hsig
  · rw [Program.header?, Program.keyword?, hsome] at hsig
    cases hsig
    exact ⟨hnew, hnext⟩

theorem survey_succ_of_no_header (h : img.Loaded) (hn : n < img.program.size)
    (hsig : img.program.header? n = none) :
    img.program.survey (n + 1) = (img.program.survey n).pass (img.program.keyword? n) := by
  rcases Survey.visit_eq_ok (h.visit hn) with ⟨-, hnext⟩ | ⟨sig', hsome, -, -⟩
  · exact hnext
  · rw [Program.header?, Program.keyword?, hsome] at hsig
    cases hsig

/-- In a program that loads, the lines that begin with `func` or `lambda` are the
headers. -/
theorem isSome_header? (h : img.Loaded) (n : Nat) :
    (img.program.header? n).isSome ↔
      img.program.keyword? n = some .func ∨ img.program.keyword? n = some .lambda := by
  constructor
  · intro hsome
    by_contra hk
    rw [not_or] at hk
    rw [Program.header?, Signature.ofLine?] at hsome
    · cases hsome
    · exact hk.1
    · exact hk.2
  · intro hk
    have hn : n < img.program.size := by
      rcases hk with hk | hk
      · exact Program.lt_size_of_keyword? hk
      · exact Program.lt_size_of_keyword? hk
    rcases Survey.visit_eq_ok (h.visit hn) with ⟨hnone, -⟩ | ⟨sig, hsome, -, -⟩
    · -- Reading a header gives a signature or fails.
      exfalso
      rw [Program.keyword?] at hk
      rcases hk with hk | hk
      · rw [hk, Signature.ofLine?] at hnone
        cases hf : Signature.ofFunction n (img.program.line n).tokens.tail <;>
          rw [hf] at hnone <;> cases hnone
      · rw [hk, Signature.ofLine?] at hnone
        cases hf : Signature.ofLambda n (img.program.line n).tokens.tail <;>
          rw [hf] at hnone <;> cases hnone
    · rw [Program.header?, Program.keyword?, hsome]
      rfl

theorem exists_header (h : img.Loaded)
    (hk : img.program.keyword? n = some .func ∨ img.program.keyword? n = some .lambda) :
    ∃ sig, img.program.header? n = some sig :=
  Option.isSome_iff_exists.mp ((h.isSome_header? n).mpr hk)

/-- The bodies that are open after a line. -/
theorem open_succ_of_func (h : img.Loaded) (hk : img.program.keyword? n = some .func)
    (hsig : img.program.header? n = some sig) :
    (img.program.survey (n + 1)).openFunctions =
        sig.result :: (img.program.survey n).openFunctions ∧
      (img.program.survey (n + 1)).openLambdas = (img.program.survey n).openLambdas := by
  rw [(h.survey_succ_of_header (Program.lt_size_of_keyword? hk) hsig).2, hk]
  exact ⟨rfl, rfl⟩

theorem open_succ_of_lambda (h : img.Loaded) (hk : img.program.keyword? n = some .lambda)
    (hsig : img.program.header? n = some sig) :
    (img.program.survey (n + 1)).openFunctions = (img.program.survey n).openFunctions ∧
      (img.program.survey (n + 1)).openLambdas =
        sig.result :: (img.program.survey n).openLambdas := by
  rw [(h.survey_succ_of_header (Program.lt_size_of_keyword? hk) hsig).2, hk]
  exact ⟨rfl, rfl⟩

theorem header?_eq_none (h : img.Loaded) (hf : img.program.keyword? n ≠ some .func)
    (hl : img.program.keyword? n ≠ some .lambda) : img.program.header? n = none := by
  rw [← Option.not_isSome_iff_eq_none, h.isSome_header?, not_or]
  exact ⟨hf, hl⟩

theorem open_succ_of_endFunc (h : img.Loaded) (hk : img.program.keyword? n = some .endFunc) :
    (img.program.survey (n + 1)).openFunctions = (img.program.survey n).openFunctions.tail ∧
      (img.program.survey (n + 1)).openLambdas = (img.program.survey n).openLambdas := by
  have hnone := h.header?_eq_none (n := n) (by rw [hk]; decide) (by rw [hk]; decide)
  rw [h.survey_succ_of_no_header (Program.lt_size_of_keyword? hk) hnone, hk]
  exact ⟨rfl, rfl⟩

theorem open_succ_of_endLambda (h : img.Loaded)
    (hk : img.program.keyword? n = some .endLambda) :
    (img.program.survey (n + 1)).openFunctions = (img.program.survey n).openFunctions ∧
      (img.program.survey (n + 1)).openLambdas = (img.program.survey n).openLambdas.tail := by
  have hnone := h.header?_eq_none (n := n) (by rw [hk]; decide) (by rw [hk]; decide)
  rw [h.survey_succ_of_no_header (Program.lt_size_of_keyword? hk) hnone, hk]
  exact ⟨rfl, rfl⟩

/-- A line that neither begins nor ends a body leaves what is open. -/
theorem open_succ_of_other (h : img.Loaded) (hn : n < img.program.size)
    (hk : ∀ k ∈ [Keyword.func, .endFunc, .lambda, .endLambda], img.program.keyword? n ≠ some k) :
    (img.program.survey (n + 1)).openFunctions = (img.program.survey n).openFunctions ∧
      (img.program.survey (n + 1)).openLambdas = (img.program.survey n).openLambdas := by
  have hnone := h.header?_eq_none (n := n) (hk .func (by decide)) (hk .lambda (by decide))
  rw [h.survey_succ_of_no_header hn hnone, Survey.pass, Survey.closeBody]
  · exact ⟨rfl, rfl⟩
  · exact hk .endFunc (by decide)
  · exact hk .endLambda (by decide)

/-! ### What is recorded for a line -/

theorem size_results (h : img.Loaded) (hn : n ≤ img.program.size) :
    (img.program.survey n).table.functionResults.size = n ∧
      (img.program.survey n).table.lambdaResults.size = n := by
  induction n with
  | zero => exact ⟨rfl, rfl⟩
  | succ n ih =>
    obtain ⟨hf, hl⟩ := ih (by omega)
    rcases Survey.visit_eq_ok (h.visit hn) with ⟨-, hnext⟩ | ⟨sig, -, -, hnext⟩
    · rw [hnext, Survey.table_pass]
      exact ⟨by simp [Survey.record, hf], by simp [Survey.record, hl]⟩
    · rw [hnext, Survey.declare, Survey.table_pass]
      simp only [Survey.record, Array.size_push, Survey.table_openBody]
      exact ⟨by rw [hf], by rw [hl]⟩

/-- The survey that is recorded at a line: that before it, with the body opened that
the line begins. -/
theorem recorded (h : img.Loaded) (hn : n < img.program.size) :
    img.functions.functionResult? n =
        (if img.program.keyword? n = some .func then (img.program.header? n).map Signature.result
          else (img.program.survey n).openFunctions.head?) ∧
      img.functions.lambdaResult? n =
        (if img.program.keyword? n = some .lambda
          then (img.program.header? n).map Signature.result
          else (img.program.survey n).openLambdas.head?) := by
  obtain ⟨hf, hl⟩ := h.size_results (Nat.le_of_lt hn)
  have hext := h.functions_extends hn
  -- It is enough to know what the line has pushed onto the two arrays.
  have hread : ∀ {f l : Option DeclaredType},
      (img.program.survey (n + 1)).table.functionResults =
        (img.program.survey n).table.functionResults.push f →
      (img.program.survey (n + 1)).table.lambdaResults =
        (img.program.survey n).table.lambdaResults.push l →
      img.functions.functionResult? n = f ∧ img.functions.lambdaResult? n = l := by
    intro f l hfs hls
    have h₁ : img.functions.functionResults[n]? = some f :=
      hext.functionResults (by rw [hfs, Array.getElem?_push, if_pos hf.symm])
    have h₂ : img.functions.lambdaResults[n]? = some l :=
      hext.lambdaResults (by rw [hls, Array.getElem?_push, if_pos hl.symm])
    simp only [FunctionTable.functionResult?, FunctionTable.lambdaResult?,
      Array.getD_eq_getD_getElem?, h₁, h₂]
    exact ⟨rfl, rfl⟩
  cases hsig : img.program.header? n with
  | none =>
    have hk := hsig ▸ h.isSome_header? n
    have hf' : img.program.keyword? n ≠ some .func := fun hk' => by simp [hk'] at hk
    have hl' : img.program.keyword? n ≠ some .lambda := fun hk' => by simp [hk'] at hk
    rw [if_neg hf', if_neg hl']
    have hnext := h.survey_succ_of_no_header hn hsig
    exact hread (by rw [hnext, Survey.table_pass]; rfl) (by rw [hnext, Survey.table_pass]; rfl)
  | some sig =>
    have hnext := (h.survey_succ_of_header hn hsig).2
    have hk := (h.isSome_header? n).mp (by rw [hsig]; rfl)
    rcases hk with hk | hk
    · rw [if_pos hk, if_neg (by rw [hk]; decide)]
      rw [hk] at hnext
      exact hread (by rw [hnext]; rfl) (by rw [hnext]; rfl)
    · rw [if_neg (by rw [hk]; decide), if_pos hk]
      rw [hk] at hnext
      exact hread (by rw [hnext]; rfl) (by rw [hnext]; rfl)

/-! ### Signatures and their headers -/

/-- The signatures read before a line come from the headers before it, each from its
own, and have different names. -/
theorem signatures_survey (h : img.Loaded) (hn : n ≤ img.program.size) :
    (∀ {id : FuncId} {sig : Signature}, (img.program.survey n).table.signature? id = some sig →
      sig.definition < n ∧ img.program.header? sig.definition = some sig) ∧
    (img.program.survey n).table.NamesDistinct := by
  induction n with
  | zero =>
    refine ⟨fun {id sig} hsig => ?_, fun {i j sig sig'} hi hj hname => ?_⟩
    · simp [Program.survey, FunctionTable.signature?] at hsig
    · simp [Program.survey, FunctionTable.signature?] at hi
  | succ n ih =>
    obtain ⟨hdef, hdistinct⟩ := ih (by omega)
    cases hheader : img.program.header? n with
    | none =>
      have htable : (img.program.survey (n + 1)).table.signatures =
          (img.program.survey n).table.signatures := by
        rw [h.survey_succ_of_no_header hn hheader, Survey.table_pass]
        rfl
      refine ⟨fun {id sig} hsig => ?_, fun {i j sig sig'} hi hj hname => ?_⟩
      · rw [FunctionTable.signature?, htable] at hsig
        obtain ⟨hlt, hsig⟩ := hdef hsig
        exact ⟨by omega, hsig⟩
      · rw [FunctionTable.signature?, htable] at hi hj
        exact hdistinct hi hj hname
    | some new =>
      obtain ⟨hnew, hnext⟩ := h.survey_succ_of_header hn hheader
      have htable : (img.program.survey (n + 1)).table.signatures =
          (img.program.survey n).table.signatures.push new := by
        rw [hnext, Survey.declare, Survey.table_pass, Survey.record, Survey.table_openBody]
      -- A signature of the longer table is the new one or an old one with another name.
      have hcases : ∀ {id : FuncId} {sig : Signature},
          (img.program.survey (n + 1)).table.signature? id = some sig →
          (id.index = (img.program.survey n).table.signatures.size ∧ sig = new) ∨
          (img.program.survey n).table.signature? id = some sig ∧ sig.name ≠ new.name := by
        intro id sig hsig
        rw [FunctionTable.signature?, htable, Array.getElem?_push] at hsig
        split at hsig
        · next hid =>
          cases hsig
          exact .inl ⟨hid, rfl⟩
        · refine .inr ⟨hsig, fun hname => ?_⟩
          rw [(FunctionTable.lookup?_eq_some_iff hdistinct).mpr ⟨sig, hsig, hname⟩] at hnew
          cases hnew
      refine ⟨fun {id sig} hsig => ?_, fun {i j sig sig'} hi hj hname => ?_⟩
      · rcases hcases hsig with ⟨-, rfl⟩ | ⟨hold, -⟩
        · have hat := (Program.header?_eq_some hheader).1
          exact ⟨by omega, by rw [hat, hheader]⟩
        · obtain ⟨hlt, hsig⟩ := hdef hold
          exact ⟨by omega, hsig⟩
      · obtain ⟨i⟩ := i
        obtain ⟨j⟩ := j
        rcases hcases hi with ⟨hi', rfl⟩ | ⟨hi', hne⟩
        · rcases hcases hj with ⟨hj', rfl⟩ | ⟨-, hne⟩
          · exact congrArg FuncId.mk (hi'.trans hj'.symm)
          · exact absurd hname.symm hne
        · rcases hcases hj with ⟨-, rfl⟩ | ⟨hj', -⟩
          · exact absurd hname hne
          · exact hdistinct hi' hj' hname

theorem namesDistinct (h : img.Loaded) : img.functions.NamesDistinct := by
  rw [h.functions_eq]
  exact (h.signatures_survey (Nat.le_refl _)).2

/-- Every signature was read from a header. -/
theorem header_of_signature (h : img.Loaded) {id : FuncId}
    (hsig : img.functions.signature? id = some sig) :
    img.program.header? sig.definition = some sig := by
  rw [h.functions_eq] at hsig
  exact ((h.signatures_survey (Nat.le_refl _)).1 hsig).2

/-- The first line of a body is in the program, or just after its last line. -/
theorem start_le (h : img.Loaded) {id : FuncId}
    (hsig : img.functions.signature? id = some sig) : sig.start ≤ img.program.size := by
  rw [h.functions_eq] at hsig
  exact ((h.signatures_survey (Nat.le_refl _)).1 hsig).1

/-- Every header is in the table, under its name. -/
theorem signature_of_header (h : img.Loaded) (hn : n < img.program.size)
    (hsig : img.program.header? n = some sig) :
    ∃ id, img.functions.signature? id = some sig ∧ img.functions.lookup? sig.name = some id := by
  have hnext := (h.survey_succ_of_header hn hsig).2
  have hlast : (img.program.survey (n + 1)).table.signatures[
      (img.program.survey n).table.signatures.size]? = some sig := by
    rw [hnext, Survey.declare, Survey.table_pass, Survey.record, Survey.table_openBody,
      Array.getElem?_push, if_pos rfl]
  have hget := (h.functions_extends hn).signatures hlast
  exact ⟨⟨_⟩, hget, (FunctionTable.lookup?_eq_some_iff h.namesDistinct).mpr ⟨sig, hget, rfl⟩⟩

/-- A line that begins with `lambda` has declared its lambda. -/
theorem lookup?_lambdaName (h : img.Loaded) (hk : img.program.keyword? n = some .lambda) :
    ∃ id sig, img.functions.lookup? (lambdaName n) = some id ∧
      img.functions.signature? id = some sig ∧ img.program.header? n = some sig := by
  obtain ⟨sig, hsig⟩ := h.exists_header (.inr hk)
  obtain ⟨id, hget, hlookup⟩ := h.signature_of_header (Program.lt_size_of_keyword? hk) hsig
  rw [(Program.header?_eq_some hsig).2 hk] at hlookup
  exact ⟨id, sig, hlookup, hget, hsig⟩

end Loaded
end Image
end LineScript
