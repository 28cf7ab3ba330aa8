/-
Which programs load, and with which functions.

`Param.Written`, `Signature.Written` and `Program.Declares` say how a header is written, apart
from how it is read: words in order, the last of them a type, and those before it names and
types around a colon. Reading accepts just what is written so (`header?_eq_some_iff`).

Loading is looked at from the front: `Program.read p n` is what the first `n` lines come to.

* `signatures_read`: its signatures are those of the headers among these lines, in order;
* `exists_read_iff`: it succeeds if all these headers are in order and no two have one name;
* `exists_line_of_read_eq_error`: it fails at the first line for which that does not hold.

`loads_iff_headers_in_order` puts this together for whole programs.
-/
import LineScript.Proofs.Step
import Mathlib.Data.List.Forall2

namespace LineScript
open FunctionTable (Survey)

/-! ### How headers are written -/

/-- The formal parameter is a name and a type around a colon, the first that it has. The name is
not reserved, and the type is one that a parameter may have. -/
structure Param.Written (formal : String) (q : Param) : Prop where
  text : ∃ type, formal = q.name ++ ":" ++ type ∧ type ≠ "" ∧
    DeclaredType.ofText? type = some q.type
  no_colon : ':' ∉ q.name.toList
  name_ne : q.name ≠ ""
  not_reserved : isReserved q.name = false
  not_void : q.type ≠ .void

/-- The words are formal parameters, one for each parameter, and then the type of the result. -/
structure Signature.Written (words : List String) (params : List Param) (result : DeclaredType) :
    Prop where
  words : ∃ formals type, words = formals ++ [type] ∧ List.Forall₂ Param.Written formals params ∧
    DeclaredType.ofText? type = some result
  storable : result.isStorable = true

/-- The line is written as the header of a function or of a lambda. -/
inductive Program.Declares (p : Program) (n : Nat) : Signature → Prop
  | func {name : String} {words : List String} {params : List Param} {result : DeclaredType}
      (line : (p.line n).tokens = Keyword.func.text :: name :: words)
      (written : Signature.Written words params result) : p.Declares n ⟨name, params, n, result⟩
  | lambda {words : List String} {params : List Param} {result : DeclaredType}
      (line : (p.line n).tokens = Keyword.lambda.text :: words)
      (written : Signature.Written words params result) :
      p.Declares n ⟨lambdaName n, params, n, result⟩

/-- The line begins like a header. -/
def Program.isHeader (p : Program) (n : Nat) : Bool :=
  p.keyword? n = some .func || p.keyword? n = some .lambda

/-! ### How headers are read -/

theorem Param.splitColon_eq_some_iff {cs name type : List Char} :
    splitColon cs = some (name, type) ↔ cs = name ++ ':' :: type ∧ ':' ∉ name := by
  induction cs generalizing name with
  | nil => simp [splitColon]
  | cons c cs ih =>
    rw [splitColon]
    by_cases hc : c = ':'
    · subst hc
      rw [if_pos rfl]
      constructor
      · intro h
        cases h
        simp
      · rintro ⟨heq, hnot⟩
        cases name with
        | nil => simp_all
        | cons first rest => simp_all
    · rw [if_neg hc]
      constructor
      · intro h
        obtain ⟨⟨before, after⟩, hparts, heq⟩ := Option.map_eq_some_iff.mp h
        cases heq
        obtain ⟨rfl, hnot⟩ := ih.mp hparts
        simp [hnot, Ne.symm hc]
      · rintro ⟨heq, hnot⟩
        cases name with
        | nil => simp_all
        | cons first rest =>
          simp only [List.cons_append, List.cons.injEq, List.mem_cons, not_or] at heq hnot
          obtain ⟨rfl, hcs⟩ := heq
          rw [ih.mpr ⟨hcs, hnot.2⟩]
          rfl

theorem DeclaredType.parameter?_eq_some_iff {word : String} {type : DeclaredType} :
    parameter? word = some type ↔ ofText? word = some type ∧ type ≠ .void := by
  simp [parameter?, Option.filter_eq_some_iff]

theorem DeclaredType.storable?_eq_some_iff {word : String} {type : DeclaredType} :
    storable? word = some type ↔ ofText? word = some type ∧ type.isStorable = true := by
  simp [storable?, Option.filter_eq_some_iff]

theorem Param.ofFormal_eq_ok_iff {formal : String} {q : Param} :
    ofFormal formal = .ok q ↔ Written formal q := by
  constructor
  · intro h
    rw [ofFormal] at h
    split at h
    · next n name t type hparts =>
      obtain ⟨hcs, hcolon⟩ := splitColon_eq_some_iff.mp hparts
      have htext : formal = String.ofList (n :: name) ++ ":" ++ String.ofList (t :: type) := by
        rw [← String.toList_inj]
        simp [hcs]
      dsimp only at h
      split at h
      · cases h
      · next hfree =>
        split at h
        · next ty hty =>
          cases h
          obtain ⟨htype, hvoid⟩ := DeclaredType.parameter?_eq_some_iff.mp hty
          exact ⟨⟨_, htext, by simp, htype⟩, by simpa using hcolon, by simp, by simpa using hfree,
            hvoid⟩
        · cases h
    · cases h
  · rintro ⟨⟨type, rfl, htype_ne, htype⟩, hcolon, hname_ne, hfree, hvoid⟩
    have hparts : splitColon (q.name ++ ":" ++ type).toList =
        some (q.name.toList, type.toList) :=
      splitColon_eq_some_iff.mpr ⟨by simp, hcolon⟩
    rw [ofFormal, hparts]
    cases hn : q.name.toList with
    | nil => exact absurd (String.toList_eq_nil_iff.mp hn) hname_ne
    | cons n name =>
      cases ht : type.toList with
      | nil => exact absurd (String.toList_eq_nil_iff.mp ht) htype_ne
      | cons t rest =>
        have hparameter := DeclaredType.parameter?_eq_some_iff.mpr ⟨htype, hvoid⟩
        simp only [← hn, ← ht, String.ofList_toList, hfree, hparameter]
        rfl

theorem Param.ofFormals_eq_ok_iff {formals : List String} {params : List Param} :
    ofFormals formals = .ok params ↔ List.Forall₂ Written formals params := by
  induction formals generalizing params with
  | nil =>
    rw [List.forall₂_nil_left_iff]
    constructor
    · intro h
      cases h
      rfl
    · rintro rfl
      rfl
  | cons formal rest ih =>
    rw [List.forall₂_cons_left_iff]
    constructor
    · intro h
      obtain ⟨q, hq, h⟩ := Except.bind_eq_ok_iff.mp h
      obtain ⟨others, hothers, h⟩ := Except.bind_eq_ok_iff.mp h
      cases h
      exact ⟨q, others, ofFormal_eq_ok_iff.mp hq, ih.mp hothers, rfl⟩
    · rintro ⟨q, others, hq, hothers, rfl⟩
      rw [ofFormals, ofFormal_eq_ok_iff.mpr hq, ih.mpr hothers]
      rfl

namespace Signature

variable {name : String} {n : Nat} {words : List String} {sig : Signature}

theorem ofParts_eq_ok_iff (hne : words ≠ []) :
    ofParts name n words.dropLast (words.getLast hne) = .ok sig ↔
      ∃ params result, Written words params result ∧ sig = ⟨name, params, n, result⟩ := by
  have hsplit : words.dropLast ++ [words.getLast hne] = words := List.dropLast_concat_getLast hne
  constructor
  · intro h
    rw [ofParts] at h
    split at h
    · cases h
    · next result hresult =>
      obtain ⟨params, hparams, h⟩ := Except.bind_eq_ok_iff.mp h
      cases h
      obtain ⟨htype, hstorable⟩ := DeclaredType.storable?_eq_some_iff.mp hresult
      exact ⟨params, result, ⟨⟨_, _, hsplit.symm, Param.ofFormals_eq_ok_iff.mp hparams, htype⟩,
        hstorable⟩, rfl⟩
  · rintro ⟨params, result, ⟨⟨formals, type, hwords, hformals, htype⟩, hstorable⟩, rfl⟩
    -- The last word is the type, and those before it are the formal parameters.
    obtain ⟨hfront, hlast⟩ := List.append_inj' (hsplit.trans hwords) rfl
    rw [ofParts, hfront, List.singleton_inj.mp hlast,
      DeclaredType.storable?_eq_some_iff.mpr ⟨htype, hstorable⟩]
    show (Param.ofFormals formals >>= _) = _
    rw [Param.ofFormals_eq_ok_iff.mpr hformals]
    rfl

theorem Written.ne_nil {params : List Param} {result : DeclaredType}
    (h : Written words params result) : words ≠ [] := by
  obtain ⟨formals, type, rfl, -⟩ := h.words
  simp

theorem ofFunction_eq_ok_iff {args : List String} :
    ofFunction n args = .ok sig ↔
      ∃ name words params result, args = name :: words ∧ Written words params result ∧
        sig = ⟨name, params, n, result⟩ := by
  constructor
  · intro h
    rw [ofFunction.eq_def] at h
    split at h
    · next name t rest =>
      obtain ⟨params, result, hwritten, hsig⟩ := (ofParts_eq_ok_iff _).mp h
      exact ⟨name, t :: rest, params, result, rfl, hwritten, hsig⟩
    · cases h
  · rintro ⟨name, words, params, result, rfl, hwritten, hsig⟩
    cases words with
    | nil => exact absurd rfl hwritten.ne_nil
    | cons t rest => exact (ofParts_eq_ok_iff _).mpr ⟨params, result, hwritten, hsig⟩

theorem ofLambda_eq_ok_iff :
    ofLambda n words = .ok sig ↔
      ∃ params result, Written words params result ∧ sig = ⟨lambdaName n, params, n, result⟩ := by
  cases words with
  | nil =>
    constructor
    · intro h
      cases h
    · rintro ⟨params, result, hwritten, -⟩
      exact absurd rfl hwritten.ne_nil
  | cons t rest => exact ofParts_eq_ok_iff _

end Signature

namespace Program

variable {p : Program} {n : Nat} {sig : Signature}

theorem keyword?_of_tokens {k : Keyword} {args : List String}
    (h : (p.line n).tokens = k.text :: args) : p.keyword? n = some k := by
  simp [keyword?, SourceLine.keyword?, SourceLine.word?, h]

/-- A line declares a signature if and only if it is read as its header. -/
theorem ofLine?_eq_ok_some_iff :
    Signature.ofLine? n (p.keyword? n) (p.line n).tokens.tail = .ok (some sig) ↔
      p.Declares n sig := by
  constructor
  · intro h
    rw [Signature.ofLine?.eq_def] at h
    split at h
    · next hk =>
      obtain ⟨sig', hsig, heq⟩ := Except.map_eq_ok_iff.mp h
      cases heq
      obtain ⟨name, words, params, result, htail, hwritten, rfl⟩ :=
        Signature.ofFunction_eq_ok_iff.mp hsig
      exact .func (by rw [tokens_of_keyword? hk, htail]) hwritten
    · next hk =>
      obtain ⟨sig', hsig, heq⟩ := Except.map_eq_ok_iff.mp h
      cases heq
      obtain ⟨params, result, hwritten, rfl⟩ := Signature.ofLambda_eq_ok_iff.mp hsig
      exact .lambda (tokens_of_keyword? hk) hwritten
    · cases h
  · intro h
    cases h with
    | @func name words params result line written =>
      have hsig : Signature.ofFunction n (name :: words) = .ok ⟨name, params, n, result⟩ :=
        Signature.ofFunction_eq_ok_iff.mpr ⟨name, words, params, result, rfl, written, rfl⟩
      rw [keyword?_of_tokens line, line, Signature.ofLine?, List.tail_cons, hsig]
      rfl
    | @lambda words params result line written =>
      have hsig : Signature.ofLambda n words = .ok ⟨lambdaName n, params, n, result⟩ :=
        Signature.ofLambda_eq_ok_iff.mpr ⟨params, result, written, rfl⟩
      rw [keyword?_of_tokens line, line, Signature.ofLine?, List.tail_cons, hsig]
      rfl

theorem header?_eq_some_iff : p.header? n = some sig ↔ p.Declares n sig := by
  rw [← ofLine?_eq_ok_some_iff, header?]
  split
  · next header heq => simp [heq]
  · next cause heq => simp [heq]

theorem Declares.isHeader (h : p.Declares n sig) : p.isHeader n = true := by
  cases h with
  | func line => simp [isHeader, keyword?_of_tokens line]
  | lambda line => simp [isHeader, keyword?_of_tokens line]

theorem ofLine?_eq_ok_none_iff :
    Signature.ofLine? n (p.keyword? n) (p.line n).tokens.tail = .ok none ↔
      p.isHeader n = false := by
  rw [Signature.ofLine?.eq_def]
  split
  · next hk =>
    cases Signature.ofFunction n (p.line n).tokens.tail <;> simp [isHeader, hk, Except.map]
  · next hk =>
    cases Signature.ofLambda n (p.line n).tokens.tail <;> simp [isHeader, hk, Except.map]
  · next hfunc hlambda =>
    have hneither : p.keyword? n ≠ some .func ∧ p.keyword? n ≠ some .lambda := ⟨hfunc, hlambda⟩
    simp [isHeader, hneither]

/-! ### Reading from the front -/

/-- The program with the first lines only. -/
def take (p : Program) (n : Nat) : Program := ⟨p.lines.take n⟩

/-- What reading the first lines comes to. -/
def read (p : Program) (n : Nat) : Except Failure Survey :=
  Survey.visitAll {} 0 (p.lines.toList.take n)

theorem ofProgram_take (p : Program) (n : Nat) :
    FunctionTable.ofProgram (p.take n) = (p.read n).map Survey.table := by
  simp [FunctionTable.ofProgram, take, read]

theorem take_size (p : Program) : p.take p.size = p := by
  simp [take, size]

theorem visitAll_append (s : Survey) (line : Nat) (first rest : List SourceLine) :
    s.visitAll line (first ++ rest) =
      (s.visitAll line first).bind fun s' => s'.visitAll (line + first.length) rest := by
  induction first generalizing s line with
  | nil => rfl
  | cons l first ih =>
    rw [List.cons_append, Survey.visitAll, Survey.visitAll]
    cases s.visit line l with
    | error cause => rfl
    | ok s' =>
      show s'.visitAll (line + 1) (first ++ rest) = _
      rw [ih, List.length_cons, Nat.add_assoc, Nat.add_comm 1]

/-- The lines that come first must be read first. -/
theorem exists_read_of_le {m : Nat} {s : Survey} (hmn : m ≤ n) (h : p.read n = .ok s) :
    ∃ s', p.read m = .ok s' := by
  obtain ⟨k, rfl⟩ := Nat.exists_eq_add_of_le hmn
  rw [read, List.take_add, visitAll_append] at h
  obtain ⟨s', hs', -⟩ := Except.bind_eq_ok_iff.mp h
  exact ⟨s', hs'⟩

/-- The next line takes on what was read so far, or it fails and its number is told. -/
theorem read_succ (hn : n < p.size) :
    p.read (n + 1) = (p.read n).bind fun s =>
      (s.visit n (p.line n)).mapError fun cause => ⟨cause, some n⟩ := by
  have hlines : p.lines.toList.take (n + 1) = p.lines.toList.take n ++ [p.line n] := by
    rw [List.take_add_one, line_eq_getElem hn]
    simp [Array.getElem?_eq_getElem hn]
  have hlength : (p.lines.toList.take n).length = n := by
    rw [List.length_take]
    exact Nat.min_eq_left (Nat.le_of_lt hn)
  rw [read, hlines, visitAll_append, hlength, Nat.zero_add]
  congr 1
  funext s
  rw [Survey.visitAll]
  cases s.visit n (p.line n) <;> rfl

theorem read_succ_eq_ok_iff {s' : Survey} (hn : n < p.size) :
    p.read (n + 1) = .ok s' ↔
      ∃ s, p.read n = .ok s ∧ s.visit n (p.line n) = .ok s' := by
  rw [read_succ hn]
  constructor
  · intro h
    obtain ⟨s, hs, hvisit⟩ := Except.bind_eq_ok_iff.mp h
    refine ⟨s, hs, ?_⟩
    cases hv : s.visit n (p.line n) with
    | error cause =>
      rw [hv] at hvisit
      cases hvisit
    | ok s₁ =>
      rw [hv] at hvisit
      cases hvisit
      rfl
  · rintro ⟨s, hs, hvisit⟩
    rw [hs]
    show (s.visit n (p.line n)).mapError _ = _
    rw [hvisit]
    rfl

/-! ### What is accepted -/

/-- A line that is no header is read, and one that is in order is read if its name is new. -/
theorem exists_visit_iff {s : Survey} :
    (∃ s', s.visit n (p.line n) = .ok s') ↔
      (p.isHeader n = true → ∃ sig, p.Declares n sig) ∧
        ∀ sig, p.Declares n sig → s.table.lookup? sig.name = none := by
  constructor
  · rintro ⟨s', h⟩
    rcases Survey.visit_eq_ok h with ⟨hnone, -⟩ | ⟨sig, hsome, hnew, -⟩
    · have hplain : p.isHeader n = false := ofLine?_eq_ok_none_iff.mp hnone
      simp only [hplain, Bool.false_eq_true, false_implies, true_and]
      intro sig hsig
      rw [hsig.isHeader] at hplain
      cases hplain
    · refine ⟨fun _ => ⟨sig, ofLine?_eq_ok_some_iff.mp hsome⟩, ?_⟩
      intro sig' hsig'
      have hsame := hsome.symm.trans (ofLine?_eq_ok_some_iff.mpr hsig')
      cases hsame
      exact hnew
  · rintro ⟨hheader, hnew⟩
    show ∃ s', (Signature.ofLine? n (p.keyword? n) (p.line n).tokens.tail >>= _) = .ok s'
    cases hline : p.isHeader n with
    | false =>
      rw [ofLine?_eq_ok_none_iff.mpr hline]
      exact ⟨_, rfl⟩
    | true =>
      obtain ⟨sig, hsig⟩ := hheader hline
      rw [ofLine?_eq_ok_some_iff.mpr hsig]
      show ∃ s', (s.register sig >>= _) = .ok s'
      rw [Survey.register, hnew sig hsig]
      exact ⟨_, rfl⟩

/-- The signatures are those of the headers, in order. -/
theorem signatures_read {s : Survey} (hn : n ≤ p.size) (h : p.read n = .ok s) :
    s.table.signatures.toList = (List.range n).filterMap p.header? := by
  induction n generalizing s with
  | zero =>
    cases h
    rfl
  | succ n ih =>
    obtain ⟨s₀, hs₀, hvisit⟩ := (read_succ_eq_ok_iff hn).mp h
    have hbefore := ih (Nat.le_of_succ_le hn) hs₀
    rw [List.range_succ, List.filterMap_append, ← hbefore]
    rcases Survey.visit_eq_ok hvisit with ⟨hnone, rfl⟩ | ⟨sig, hsome, -, rfl⟩
    · have hheader : p.header? n = none := by
        rw [header?, keyword?, hnone]
      rw [Survey.table_pass]
      simp [hheader, Survey.record]
    · have hheader : p.header? n = some sig := header?_eq_some_iff.mpr (ofLine?_eq_ok_some_iff.mp hsome)
      rw [Survey.declare, Survey.table_pass]
      simp [hheader, Survey.record, Survey.table_openBody]

theorem lookup?_read_eq_none_iff {s : Survey} (hn : n ≤ p.size) (h : p.read n = .ok s)
    {name : String} :
    s.table.lookup? name = none ↔ ∀ m < n, ∀ sig, p.Declares m sig → sig.name ≠ name := by
  have hmem : ∀ sig, sig ∈ s.table.signatures ↔ ∃ m < n, p.Declares m sig := by
    intro sig
    rw [← Array.mem_toList_iff, signatures_read hn h, List.mem_filterMap]
    simp only [List.mem_range, header?_eq_some_iff]
  rw [FunctionTable.lookup?, Option.map_eq_none_iff, Array.findIdx?_eq_none_iff]
  constructor
  · intro hnone m hm sig hsig
    simpa using hnone sig ((hmem sig).mpr ⟨m, hm, hsig⟩)
  · intro hnone sig hsig
    obtain ⟨m, hm, hdeclares⟩ := (hmem sig).mp hsig
    simpa using hnone m hm sig hdeclares

/-- Among the first lines, those that begin like a header are in order, and no two of them
declare one name. -/
structure HeadersInOrder (p : Program) (n : Nat) : Prop where
  declares : ∀ m < n, p.isHeader m = true → ∃ sig, p.Declares m sig
  distinct : ∀ m < n, ∀ k < n, ∀ sig sig', p.Declares m sig → p.Declares k sig' →
    sig.name = sig'.name → m = k

theorem headersInOrder_succ_iff :
    p.HeadersInOrder (n + 1) ↔ p.HeadersInOrder n ∧
      (p.isHeader n = true → ∃ sig, p.Declares n sig) ∧
      ∀ sig, p.Declares n sig → ∀ m < n, ∀ sig', p.Declares m sig' → sig'.name ≠ sig.name := by
  constructor
  · rintro ⟨hdeclares, hdistinct⟩
    refine ⟨⟨fun m hm => hdeclares m (by omega), fun m hm k hk => hdistinct m (by omega) k
      (by omega)⟩, hdeclares n (by omega), ?_⟩
    intro sig hsig m hm sig' hsig' hname
    have := hdistinct m (by omega) n (by omega) sig' sig hsig' hsig hname
    omega
  · rintro ⟨⟨hdeclares, hdistinct⟩, hlast, hnew⟩
    refine ⟨?_, ?_⟩
    · intro m hm
      rcases Nat.lt_succ_iff_lt_or_eq.mp hm with hm | rfl
      · exact hdeclares m hm
      · exact hlast
    · intro m hm k hk sig sig' hsig hsig' hname
      rcases Nat.lt_succ_iff_lt_or_eq.mp hm with hm | rfl
      · rcases Nat.lt_succ_iff_lt_or_eq.mp hk with hk | rfl
        · exact hdistinct m hm k hk sig sig' hsig hsig' hname
        · exact absurd hname (hnew sig' hsig' m hm sig hsig)
      · rcases Nat.lt_succ_iff_lt_or_eq.mp hk with hk | rfl
        · exact absurd hname.symm (hnew sig hsig k hk sig' hsig')
        · rfl

/-- The first lines are read if and only if the headers among them are in order. -/
theorem exists_read_iff (hn : n ≤ p.size) : (∃ s, p.read n = .ok s) ↔ p.HeadersInOrder n := by
  induction n with
  | zero => exact ⟨fun _ => ⟨nofun, nofun⟩, fun _ => ⟨_, rfl⟩⟩
  | succ n ih =>
    have hstep : ∀ {s : Survey}, p.read n = .ok s → ((∃ s', s.visit n (p.line n) = .ok s') ↔
        (p.isHeader n = true → ∃ sig, p.Declares n sig) ∧
          ∀ sig, p.Declares n sig → ∀ m < n, ∀ sig', p.Declares m sig' → sig'.name ≠ sig.name) := by
      intro s hs
      simp only [exists_visit_iff, lookup?_read_eq_none_iff (Nat.le_of_succ_le hn) hs]
    rw [headersInOrder_succ_iff, ← ih (Nat.le_of_succ_le hn)]
    constructor
    · rintro ⟨s', hs'⟩
      obtain ⟨s, hs, hvisit⟩ := (read_succ_eq_ok_iff hn).mp hs'
      exact ⟨⟨s, hs⟩, (hstep hs).mp ⟨s', hvisit⟩⟩
    · rintro ⟨⟨s, hs⟩, hline⟩
      obtain ⟨s', hvisit⟩ := (hstep hs).mpr hline
      exact ⟨s', (read_succ_eq_ok_iff hn).mpr ⟨s, hs, hvisit⟩⟩

/-! ### Where it fails -/

/-- A failure is that of a line, and the lines before it are read. -/
theorem exists_line_of_read_eq_error {failure : Failure} (hn : n ≤ p.size)
    (h : p.read n = .error failure) :
    ∃ line < n, failure.line = some line ∧ (∃ s, p.read line = .ok s) ∧
      ¬∃ s, p.read (line + 1) = .ok s := by
  induction n with
  | zero => cases h
  | succ n ih =>
    cases hread : p.read n with
    | error failure' =>
      rw [read_succ hn, hread] at h
      cases h
      obtain ⟨line, hlt, hline⟩ := ih (Nat.le_of_succ_le hn) hread
      exact ⟨line, by omega, hline⟩
    | ok s =>
      refine ⟨n, by omega, ?_, ⟨s, hread⟩, ?_⟩
      · rw [read_succ hn, hread] at h
        change (s.visit n (p.line n)).mapError _ = _ at h
        cases hvisit : s.visit n (p.line n) with
        | error cause =>
          rw [hvisit] at h
          cases h
          rfl
        | ok s' =>
          rw [hvisit] at h
          cases h
      · rintro ⟨s', hs'⟩
        rw [hs'] at h
        cases h

theorem isOk_ofProgram_take_iff :
    (FunctionTable.ofProgram (p.take n)).isOk = true ↔ ∃ s, p.read n = .ok s := by
  rw [ofProgram_take]
  cases p.read n <;> simp [Except.map, Except.isOk, Except.toBool]

/-- The failure of a program tells the one line at which it begins to fail. -/
theorem exists_line_of_ofProgram_eq_error {failure : Failure}
    (h : FunctionTable.ofProgram p = .error failure) :
    ∃ line < p.size, failure.line = some line ∧
      ∀ n, (FunctionTable.ofProgram (p.take n)).isOk = true ∧
        (FunctionTable.ofProgram (p.take (n + 1))).isOk = false ↔ n = line := by
  have hread : p.read p.size = .error failure := by
    rw [← take_size p, ofProgram_take] at h
    cases hread : p.read p.size with
    | error failure' =>
      rw [hread] at h
      cases h
      rfl
    | ok s =>
      rw [hread] at h
      cases h
  obtain ⟨line, hlt, hline, hbefore, hafter⟩ :=
    exists_line_of_read_eq_error (Nat.le_refl _) hread
  refine ⟨line, hlt, hline, ?_⟩
  intro n
  rw [Bool.eq_false_iff, ne_eq, isOk_ofProgram_take_iff, isOk_ofProgram_take_iff]
  constructor
  · rintro ⟨⟨s, hs⟩, hfails⟩
    -- Reading more lines does not make up for a line that fails.
    rcases Nat.lt_trichotomy n line with hn | rfl | hn
    · obtain ⟨s', hs'⟩ := hbefore
      exact absurd (exists_read_of_le hn hs') hfails
    · rfl
    · exact absurd (exists_read_of_le hn hs) hafter
  · rintro rfl
    exact ⟨hbefore, hafter⟩

/-- The signatures of lines whose headers are in order, one by one. -/
theorem forall₂_declares {lines : List Nat}
    (h : ∀ n ∈ lines, p.isHeader n = true → ∃ sig, p.Declares n sig) :
    List.Forall₂ p.Declares (lines.filter p.isHeader) (lines.filterMap p.header?) := by
  induction lines with
  | nil => exact .nil
  | cons n rest ih =>
    have hrest := ih fun m hm => h m (List.mem_cons_of_mem _ hm)
    cases hline : p.isHeader n with
    | true =>
      obtain ⟨sig, hsig⟩ := h n List.mem_cons_self hline
      rw [List.filter_cons_of_pos hline, List.filterMap_cons_some (header?_eq_some_iff.mpr hsig)]
      exact .cons hsig hrest
    | false =>
      have hnone : p.header? n = none := by
        rw [header?, ofLine?_eq_ok_none_iff.mpr hline]
      rw [List.filter_cons_of_neg (by simp [hline]), List.filterMap_cons_none hnone]
      exact hrest

end Program

/-- A program loads if and only if its headers are in order: every line that begins with `func`
or `lambda` is written as a header, and no two declare one name. Where it does not load, the
failure tells the line before which the program loads and with which it does not. Where it
loads, there is one signature for each header, in the order of the lines and as written there,
its body begins inside the program or right after it, and a name is looked up to the signature
that has the name. -/
theorem loads_iff_headers_in_order (p : Program) :
    ((FunctionTable.ofProgram p).isOk = true ↔ p.HeadersInOrder p.size) ∧
    (∀ failure, FunctionTable.ofProgram p = .error failure →
      ∃ line < p.size, failure.line = some line ∧
        ∀ n, (FunctionTable.ofProgram (p.take n)).isOk = true ∧
          (FunctionTable.ofProgram (p.take (n + 1))).isOk = false ↔ n = line) ∧
    ∀ t, FunctionTable.ofProgram p = .ok t →
      List.Forall₂ p.Declares ((List.range p.size).filter p.isHeader) t.signatures.toList ∧
      (∀ sig ∈ t.signatures, 1 ≤ sig.start ∧ sig.start ≤ p.size) ∧
      ∀ name id, t.lookup? name = some id ↔ ∃ sig, t.signature? id = some sig ∧ sig.name = name := by
  have haccepts : (FunctionTable.ofProgram p).isOk = true ↔ p.HeadersInOrder p.size := by
    rw [← Program.exists_read_iff (Nat.le_refl _), ← Program.isOk_ofProgram_take_iff,
      Program.take_size]
  refine ⟨haccepts, fun failure h => Program.exists_line_of_ofProgram_eq_error h, ?_⟩
  intro t ht
  have hloaded : Image.Loaded ⟨p, t⟩ := ht
  refine ⟨?_, ?_, ?_⟩
  · have hread : ∃ s, p.read p.size = .ok s ∧ s.table = t := by
      rw [← Program.take_size p, Program.ofProgram_take] at ht
      exact Except.map_eq_ok_iff.mp ht
    obtain ⟨s, hs, rfl⟩ := hread
    rw [Program.signatures_read (Nat.le_refl _) hs]
    apply Program.forall₂_declares
    intro n hn
    exact (haccepts.mp (by rw [ht]; rfl)).declares n (List.mem_range.mp hn)
  · intro sig hsig
    obtain ⟨i, hi⟩ := Array.mem_iff_getElem?.mp hsig
    have hfound : t.signature? ⟨i⟩ = some sig := hi
    exact ⟨Nat.le_add_left 1 _, hloaded.start_le hfound⟩
  · intro name id
    exact FunctionTable.lookup?_eq_some_iff hloaded.namesDistinct

/-- A program with two functions of one name. -/
def repeatingProgram : Program := .ofLines [
  "func twice n:int int",
  "  return * n 2",
  "endfunc",
  "func twice n:refint void",
  "  assign n * n 2",
  "endfunc"]

/-- The second header is in order by itself, but its name is taken: the program loads up to the
line before it, with the signature that is written at the first line. -/
theorem loads_iff_headers_in_order_repeatingProgram :
    ¬repeatingProgram.HeadersInOrder repeatingProgram.size ∧
    FunctionTable.ofProgram repeatingProgram = .error ⟨.duplicateFunction "twice", some 3⟩ ∧
    (FunctionTable.ofProgram (repeatingProgram.take 3)).isOk = true ∧
    (FunctionTable.ofProgram (repeatingProgram.take 4)).isOk = false ∧
    (repeatingProgram.take 3).Declares 0 ⟨"twice", [⟨"n", .int⟩], 0, .int⟩ := by
  have hfails : FunctionTable.ofProgram repeatingProgram =
      .error ⟨.duplicateFunction "twice", some 3⟩ := by
    decide +kernel
  obtain ⟨haccepts, hfirst, -⟩ := loads_iff_headers_in_order repeatingProgram
  obtain ⟨line, -, hline, honly⟩ := hfirst _ hfails
  cases hline
  obtain ⟨hbefore, hafter⟩ := (honly 3).mpr rfl
  refine ⟨?_, hfails, hbefore, hafter, ?_⟩
  · rw [← haccepts, hfails]
    nofun
  · have hloads : FunctionTable.ofProgram (repeatingProgram.take 3) =
        .ok ⟨#[⟨"twice", [⟨"n", .int⟩], 0, .int⟩], #[some .int, some .int, some .int],
          #[none, none, none]⟩ := by
      decide +kernel
    have hheaders : (List.range (repeatingProgram.take 3).size).filter
        (repeatingProgram.take 3).isHeader = [0] := by
      decide +kernel
    obtain ⟨hsignatures, -⟩ := (loads_iff_headers_in_order (repeatingProgram.take 3)).2.2 _ hloads
    rw [hheaders] at hsignatures
    exact (List.forall₂_cons.mp hsignatures).1

end LineScript
