/-
Well-nested programs, and the result types recorded for their lines.

A program is well-nested when, empty lines aside, it is a row of functions whose
bodies, and the bodies of all lambdas, are lists of statements. Loading does not know
about this: it counts headers and end markers. What it has open at a line of a list is
what it had open before the list (`opened_of_inside`), since whatever opens inside is
closed inside.

* `exists_body`: every signature has a body, and it ends with the right marker;
* `Program.BodyOf.recorded`: the result type recorded for a line of a body is that of
  the signature, unless the line declares a lambda.
-/
import LineScript.Proofs.Loading
import LineScript.Proofs.Statements

namespace LineScript

/-- The statements on lines of their own in a well-nested program. -/
def Plain (k : Keyword) (_ : List String) : Prop := k = .var ∨ k = .assign ∨ k = .call ∨ k = .ret

/-- The lines from `start` to the end of the program are functions, one after the other,
and empty lines between them. -/
inductive Functions (p : Program) : (start : Nat) → Prop
  | done : Functions p p.size
  | blank {start : Nat} (inProgram : start < p.size) (empty : (p.line start).isBlank = true)
      (next : Functions p (start + 1)) : Functions p start
  | func {start depth : Nat} {t : Statements} (head : p.keyword? start = some .func)
      (body : Laid p Plain depth (start + 1) t)
      (close : p.keyword? (start + 1 + t.size) = some .endFunc)
      (next : Functions p (start + t.size + 2)) : Functions p start

/-- The program is a row of functions, and every lambda has for its body a list that is
indented deeper than its header. -/
structure Program.WellNested (p : Program) : Prop where
  functions : Functions p 0
  lambdas : ∀ {n : Nat}, p.keyword? n = some .lambda → ∃ depth t, p.indent n < depth ∧
    Laid p Plain depth (n + 1) t ∧ (p.line (n + 1 + t.size)).marks .endLambda (p.indent n) = true

/-- The result types of the functions and of the lambdas that are open before a line. -/
def Program.opened (p : Program) (n : Nat) : List DeclaredType × List DeclaredType :=
  ((p.survey n).openFunctions, (p.survey n).openLambdas)

theorem Program.WellNested.lambda_body {p : Program} (h : p.WellNested) {depth start body : Nat}
    (head : (p.line start).marks .lambda depth = true)
    (deeper : p.Between depth (start + 1) (start + 1 + body))
    (close : (p.line (start + 1 + body)).marks .endLambda depth = true) :
    ∃ inner t, Laid p Plain inner (start + 1) t ∧ t.size = body := by
  obtain ⟨inner, t, hdeeper, hlaid, hclose⟩ := h.lambdas (keyword?_of_marks head)
  rw [indent_of_marks head] at hdeeper hclose
  -- Both lines are the first marker after the header at its depth.
  have h₁ := lambdaEnd?_eq head deeper close
  have h₂ := lambdaEnd?_eq head (hlaid.between hdeeper) hclose
  rw [h₁] at h₂
  exact ⟨inner, t, hlaid, by have := Option.some.inj h₂; omega⟩

/-! ### Where functions begin -/

theorem Plain.ne {k key : Keyword} {args : List String} (h : Plain k args)
    (hkey : key ∈ [Keyword.func, .endFunc, .lambda, .endLambda]) : k ≠ key := by
  rintro rfl
  rcases h with rfl | rfl | rfl | rfl <;> simp at hkey

/-- No function begins inside a list. -/
theorem Laid.keyword?_ne_func {p : Program} (hp : p.WellNested) {depth start n : Nat}
    {t : Statements} (h : Laid p Plain depth start t) (hlo : start ≤ n) (hhi : n < start + t.size) :
    p.keyword? n ≠ some .func := by
  -- A lambda's body is no part of the list, but it is shorter than the list.
  induction hsize : t.size using Nat.strongRecOn generalizing depth start t with
  | _ size ih =>
    subst hsize
    have hother : ∀ {k : Keyword} {m : Nat}, p.keyword? m = some k → k ≠ .func → n = m →
        p.keyword? n ≠ some .func := by
      intro k m hk hne hm
      rw [hm, hk]
      exact fun h => hne (Option.some.inj h)
    cases h with
    | done => exact absurd hhi (by simpa using hlo)
    | blank inProgram empty next =>
      simp only [Statements.size] at hhi ih
      by_cases hn : n = start
      · intro hk
        rw [hn] at hk
        rw [Program.not_isBlank_of_keyword? hk] at empty
        cases empty
      · exact ih _ (by omega) next (by omega) (by omega) rfl
    | line kind here next =>
      simp only [Statements.size] at hhi ih
      by_cases hn : n = start
      · exact hother here.keyword? (kind.ne (by decide)) hn
      · exact ih _ (by omega) next (by omega) (by omega) rfl
    | @branch _ _ _ _ body _ head _ inside close next =>
      simp only [Statements.size] at hhi ih
      by_cases hn : n = start
      · exact hother head.keyword? (by decide) hn
      by_cases hbody : n < start + 1 + body.size
      · exact ih _ (by omega) inside (by omega) (by omega) rfl
      by_cases hn : n = start + 1 + body.size
      · exact hother (Program.keyword?_of_marks close) (by decide) hn
      · exact ih _ (by omega) next (by omega) (by omega) rfl
    | @fork _ _ _ _ _ body other _ head _ inside middle _ inside' close next =>
      simp only [Statements.size] at hhi ih
      by_cases hn : n = start
      · exact hother head.keyword? (by decide) hn
      by_cases hbody : n < start + 1 + body.size
      · exact ih _ (by omega) inside (by omega) (by omega) rfl
      by_cases hn : n = start + 1 + body.size
      · exact hother (Program.keyword?_of_marks middle) (by decide) hn
      by_cases hbody : n < start + body.size + 2 + other.size
      · exact ih _ (by omega) inside' (by omega) (by omega) rfl
      by_cases hn : n = start + body.size + 2 + other.size
      · exact hother (Program.keyword?_of_marks close) (by decide) hn
      · exact ih _ (by omega) next (by omega) (by omega) rfl
    | @loop _ _ _ _ body _ head _ inside close next =>
      simp only [Statements.size] at hhi ih
      by_cases hn : n = start
      · exact hother head.keyword? (by decide) hn
      by_cases hbody : n < start + 1 + body.size
      · exact ih _ (by omega) inside (by omega) (by omega) rfl
      by_cases hn : n = start + 1 + body.size
      · exact hother (Program.keyword?_of_marks close) (by decide) hn
      · exact ih _ (by omega) next (by omega) (by omega) rfl
    | @lambda _ _ body _ head deeper close next =>
      simp only [Statements.size] at hhi ih
      by_cases hn : n = start
      · exact hother (Program.keyword?_of_marks head) (by decide) hn
      by_cases hbody : n < start + 1 + body
      · obtain ⟨inner, t', hlaid, hsize⟩ := hp.lambda_body head deeper close
        exact ih _ (by omega) hlaid (by omega) (by omega) rfl
      by_cases hn : n = start + 1 + body
      · exact hother (Program.keyword?_of_marks close) (by decide) hn
      · exact ih _ (by omega) next (by omega) (by omega) rfl

/-! ### What is open -/

section
variable {img : Image} {depth start n k : Nat} {t : Statements}

/-- A line that neither begins nor ends a body leaves what is open. -/
theorem opened_succ_of_keyword (hload : img.Loaded) {key : Keyword}
    (hk : img.program.keyword? n = some key)
    (hne : key ∉ [Keyword.func, .endFunc, .lambda, .endLambda]) :
    img.program.opened (n + 1) = img.program.opened n := by
  have hother := hload.open_succ_of_other (Program.lt_size_of_keyword? hk) fun k hmem h => by
    rw [hk] at h
    exact hne (Option.some.inj h ▸ hmem)
  exact Prod.ext hother.1 hother.2

theorem opened_succ_of_marks (hload : img.Loaded) {key : Keyword}
    (h : (img.program.line n).marks key depth = true)
    (hne : key ∉ [Keyword.func, .endFunc, .lambda, .endLambda]) :
    img.program.opened (n + 1) = img.program.opened n :=
  opened_succ_of_keyword hload (Program.keyword?_of_marks h) hne

theorem opened_succ_of_blank (hload : img.Loaded) (hn : n < img.program.size)
    (hempty : (img.program.line n).isBlank = true) :
    img.program.opened (n + 1) = img.program.opened n := by
  have hother := hload.open_succ_of_other hn fun k _ hk => by
    rw [Program.not_isBlank_of_keyword? hk] at hempty
    cases hempty
  exact Prod.ext hother.1 hother.2

/-- What is open at a place in a list was open before the list. -/
theorem opened_of_inside (hload : img.Loaded) (hp : img.program.WellNested)
    (h : Laid img.program Plain depth start t) (hin : Inside start t n k) :
    img.program.opened n = img.program.opened start := by
  induction hsize : t.size using Nat.strongRecOn generalizing depth start n k t with
  | _ size ih =>
    subst hsize
    -- What is open after a shorter list was open before it.
    have hlast : ∀ {t' : Statements} {depth' start' : Nat}, t'.size < t.size →
        Laid img.program Plain depth' start' t' →
        img.program.opened (start' + t'.size) = img.program.opened start' :=
      fun hlt hlaid => ih _ hlt hlaid (.last rfl) rfl
    cases h with
    | done =>
      cases hin with
      | first => rfl
    | blank inProgram empty next =>
      have hnext := opened_succ_of_blank hload inProgram empty
      cases hin with
      | first => rfl
      | blank there => rw [ih _ (by simp) next there rfl, hnext]
    | line kind here next =>
      have hne := fun hmem => kind.ne hmem rfl
      have hnext := opened_succ_of_keyword hload here.keyword? hne
      cases hin with
      | first => rfl
      | line there => rw [ih _ (by simp) next there rfl, hnext]
    | @branch _ _ _ _ body _ head _ inside close next =>
      have hhead := opened_succ_of_marks hload head.marks (by decide)
      have hclose := opened_succ_of_marks hload close (by decide)
      cases hin with
      | first => rfl
      | branchBody there => rw [ih _ (by simp; omega) inside there rfl, hhead]
      | branchRest there =>
        rw [ih _ (by simp; omega) next there rfl,
          show start + body.size + 2 = start + 1 + body.size + 1 by omega, hclose,
          hlast (by simp; omega) inside, hhead]
    | @fork _ _ _ _ _ body other _ head _ inside middle _ inside' close next =>
      have hhead := opened_succ_of_marks hload head.marks (by decide)
      have hmiddle := opened_succ_of_marks hload middle (by decide)
      have hclose := opened_succ_of_marks hload close (by decide)
      rw [show start + 1 + body.size + 1 = start + body.size + 2 by omega,
        hlast (by simp; omega) inside, hhead] at hmiddle
      cases hin with
      | first => rfl
      | forkBody there => rw [ih _ (by simp; omega) inside there rfl, hhead]
      | forkOther there => rw [ih _ (by simp; omega) inside' there rfl, hmiddle]
      | forkRest there =>
        rw [ih _ (by simp; omega) next there rfl,
          show start + body.size + other.size + 3 = start + body.size + 2 + other.size + 1 by omega,
          hclose, hlast (by simp; omega) inside', hmiddle]
    | @loop _ _ _ _ body _ head _ inside close next =>
      have hhead := opened_succ_of_marks hload head.marks (by decide)
      have hclose := opened_succ_of_marks hload close (by decide)
      cases hin with
      | first => rfl
      | loopBody there => rw [ih _ (by simp; omega) inside there rfl, hhead]
      | loopRest there =>
        rw [ih _ (by simp; omega) next there rfl,
          show start + body.size + 2 = start + 1 + body.size + 1 by omega, hclose,
          hlast (by simp; omega) inside, hhead]
    | @lambda _ _ body _ head deeper close next =>
      cases hin with
      | first => rfl
      | lambdaRest there =>
        rw [ih _ (by simp; omega) next there rfl]
        obtain ⟨inner, t', hlaid, rfl⟩ := hp.lambda_body head deeper close
        have hk := Program.keyword?_of_marks head
        obtain ⟨sig, hsig⟩ := hload.exists_header (.inr hk)
        obtain ⟨hfunctions, hlambdas⟩ := hload.open_succ_of_lambda hk hsig
        obtain ⟨hfunctions', hlambdas'⟩ :=
          hload.open_succ_of_endLambda (Program.keyword?_of_marks close)
        obtain ⟨hf, hl⟩ := Prod.mk.inj (hlast (by simp; omega) hlaid)
        -- The header pushes its result type and the end marker pops it.
        rw [show start + t'.size + 2 = start + 1 + t'.size + 1 by omega]
        refine Prod.ext ?_ ?_
        · exact hfunctions'.trans (hf.trans hfunctions)
        · exact hlambdas'.trans (congrArg List.tail (hl.trans hlambdas))

/-! ### Bodies -/

/-- At the header of a function nothing is open, and a list follows that the right
marker ends. -/
theorem Functions.body (hload : img.Loaded) (hp : img.program.WellNested)
    (h : Functions img.program start) (hopen : img.program.opened start = ([], []))
    (hk : img.program.keyword? n = some .func) (hle : start ≤ n) :
    img.program.opened n = ([], []) ∧ ∃ depth t, Laid img.program Plain depth (n + 1) t ∧
      img.program.keyword? (n + 1 + t.size) = some .endFunc := by
  induction h with
  | done =>
    have := Program.lt_size_of_keyword? hk
    omega
  | @blank start inProgram empty next ih =>
    rcases Nat.eq_or_lt_of_le hle with rfl | hlt
    · rw [Program.not_isBlank_of_keyword? hk] at empty
      cases empty
    · exact ih ((opened_succ_of_blank hload inProgram empty).trans hopen) hlt
  | @func start depth t head body close next ih =>
    rcases Nat.eq_or_lt_of_le hle with rfl | hlt
    · exact ⟨hopen, depth, t, body, close⟩
    · -- The header is past this function, which closes what it opens.
      have hbody : ¬ n < start + 1 + t.size := fun hhi => body.keyword?_ne_func hp hlt hhi hk
      have hclose : n ≠ start + 1 + t.size := by
        rintro rfl
        rw [close] at hk
        cases hk
      refine ih ?_ (by omega)
      obtain ⟨sig, hsig⟩ := hload.exists_header (.inl head)
      obtain ⟨hfunctions, hlambdas⟩ := hload.open_succ_of_func head hsig
      obtain ⟨hfunctions', hlambdas'⟩ := hload.open_succ_of_endFunc close
      obtain ⟨hf, hl⟩ := Prod.mk.inj (opened_of_inside hload hp body (.last rfl))
      obtain ⟨hf₀, hl₀⟩ := Prod.mk.inj hopen
      rw [show start + t.size + 2 = start + 1 + t.size + 1 by omega]
      refine Prod.ext ?_ ?_
      · exact hfunctions'.trans (by rw [hf, hfunctions, List.tail_cons, hf₀])
      · exact hlambdas'.trans (hl.trans (hlambdas.trans hl₀))

end

/-- The list is the body of the signature: it follows the header, and the marker that
goes with the header follows it. -/
structure Program.BodyOf (p : Program) (sig : Signature) (t : Statements) : Prop where
  laid : ∃ depth, Laid p Plain depth sig.start t
  close : (p.keyword? sig.definition = some .func ∧
      p.keyword? (sig.start + t.size) = some .endFunc) ∨
    (p.keyword? sig.definition = some .lambda ∧
      p.keyword? (sig.start + t.size) = some .endLambda)

section
variable {img : Image} {sig : Signature} {id : FuncId} {n k : Nat} {t : Statements}

theorem exists_body (hload : img.Loaded) (hp : img.program.WellNested)
    (hsig : img.functions.signature? id = some sig) : ∃ t, img.program.BodyOf sig t := by
  have hheader := hload.header_of_signature hsig
  rcases (hload.isSome_header? sig.definition).mp (by rw [hheader]; rfl) with hk | hk
  · obtain ⟨-, depth, t, hlaid, hclose⟩ := hp.functions.body hload hp rfl hk (Nat.zero_le _)
    exact ⟨t, ⟨depth, hlaid⟩, .inl ⟨hk, hclose⟩⟩
  · obtain ⟨depth, t, -, hlaid, hclose⟩ := hp.lambdas hk
    exact ⟨t, ⟨depth, hlaid⟩, .inr ⟨hk, Program.keyword?_of_marks hclose⟩⟩

theorem Flow.lt_size {p : Program} {place : Nat → Nat → Prop} (h : Flow p Plain place n k) :
    n < p.size := by
  cases h with
  | blank inProgram => exact inProgram
  | line _ here => exact Program.lt_size_of_keyword? here.keyword?
  | branch here => exact Program.lt_size_of_keyword? here.keyword?
  | loop here => exact Program.lt_size_of_keyword? here.keyword?
  | otherwise here => exact Program.lt_size_of_keyword? (Program.keyword?_of_marks here)
  | endBranch here => exact Program.lt_size_of_keyword? (Program.keyword?_of_marks here)
  | endLoop here => exact Program.lt_size_of_keyword? (Program.keyword?_of_marks here)
  | lambda here => exact Program.lt_size_of_keyword? (Program.keyword?_of_marks here)

/-- Inside a list no function begins, and no body ends. -/
theorem Flow.keyword?_ne {p : Program} {place : Nat → Nat → Prop} (h : Flow p Plain place n k)
    {key : Keyword} (hkey : key ∈ [Keyword.func, .endFunc, .endLambda]) :
    p.keyword? n ≠ some key := by
  intro hk
  have hne : ∀ {key' : Keyword}, p.keyword? n = some key' → key' = key := fun hk' =>
    Option.some.inj (hk'.symm.trans hk)
  cases h with
  | blank _ empty =>
    rw [Program.not_isBlank_of_keyword? hk] at empty
    cases empty
  | line kind here =>
    rw [← hne here.keyword?] at hkey
    rcases kind with rfl | rfl | rfl | rfl <;> simp at hkey
  | branch here => simp [← hne here.keyword?] at hkey
  | loop here => simp [← hne here.keyword?] at hkey
  | otherwise here => simp [← hne (Program.keyword?_of_marks here)] at hkey
  | endBranch here => simp [← hne (Program.keyword?_of_marks here)] at hkey
  | endLoop here => simp [← hne (Program.keyword?_of_marks here)] at hkey
  | lambda here => simp [← hne (Program.keyword?_of_marks here)] at hkey

/-- An end marker in a body is its last line. -/
theorem Program.BodyOf.last_of_keyword? {p : Program} (h : p.BodyOf sig t)
    (hin : Inside sig.start t n k) {key : Keyword} (hk : p.keyword? n = some key)
    (hkey : key ∈ [Keyword.func, .endFunc, .endLambda]) : n = sig.start + t.size := by
  obtain ⟨depth, hlaid⟩ := h.laid
  rcases hlaid.flow hin with ⟨hn, -⟩ | hflow
  · exact hn
  · exact absurd hk (hflow.keyword?_ne hkey)

/-- What is recorded for a line of a body. A line that declares a lambda has the result
type of that lambda. -/
theorem Program.BodyOf.recorded (hload : img.Loaded) (hp : img.program.WellNested)
    (hsig : img.functions.signature? id = some sig) (h : img.program.BodyOf sig t)
    (hin : Inside sig.start t n k) :
    (img.program.keyword? sig.definition = some .func →
      img.functions.functionResult? n = some sig.result) ∧
    (img.program.keyword? sig.definition = some .lambda → img.program.keyword? n ≠ some .lambda →
      img.functions.lambdaResult? n = some sig.result) ∧
    (img.program.keyword? n ≠ some .lambda →
      (img.functions.lambdaResult? n).or (img.functions.functionResult? n) = some sig.result) := by
  obtain ⟨⟨depth, hlaid⟩, hclose⟩ := h
  have hheader := hload.header_of_signature hsig
  have hline : n < img.program.size ∧ img.program.keyword? n ≠ some .func := by
    rcases hlaid.flow hin with ⟨rfl, -⟩ | hflow
    · rcases hclose with ⟨-, hk⟩ | ⟨-, hk⟩
      · exact ⟨Program.lt_size_of_keyword? hk, by rw [hk]; decide⟩
      · exact ⟨Program.lt_size_of_keyword? hk, by rw [hk]; decide⟩
    · exact ⟨hflow.lt_size, hflow.keyword?_ne (by decide)⟩
  -- What is recorded at the line is what is open there, that is, open after the header.
  obtain ⟨hfunction, hlambda⟩ := hload.recorded hline.1
  obtain ⟨hf, hl⟩ := Prod.mk.inj (opened_of_inside hload hp hlaid hin)
  rw [if_neg hline.2, hf] at hfunction
  rcases hclose with ⟨hk, -⟩ | ⟨hk, -⟩
  · obtain ⟨hopen, -⟩ := hp.functions.body hload hp rfl hk (Nat.zero_le _)
    obtain ⟨-, hl₀⟩ := Prod.mk.inj hopen
    obtain ⟨hf', hl'⟩ := hload.open_succ_of_func hk hheader
    have hresult : img.functions.functionResult? n = some sig.result := by
      rw [hfunction, Signature.start, hf', List.head?_cons]
    refine ⟨fun _ => hresult, fun hk' => by simp [hk] at hk', fun hne => ?_⟩
    rw [hlambda, if_neg hne, hl, Signature.start, hl', hl₀, hresult]
    rfl
  · obtain ⟨-, hl'⟩ := hload.open_succ_of_lambda hk hheader
    have hresult : img.program.keyword? n ≠ some .lambda →
        img.functions.lambdaResult? n = some sig.result := fun hne => by
      rw [hlambda, if_neg hne, hl, Signature.start, hl', List.head?_cons]
    refine ⟨fun hk' => by simp [hk] at hk', fun _ => hresult, fun hne => ?_⟩
    rw [hresult hne]
    rfl

end

end LineScript
