/-
Blocks, as the text has them and as the machine opens them.

The text of a body says how many conditions and loops are around each of its lines
(`Statements.around`). The machine knows nothing of this: it opens a block when it takes
a body, and drops one at each of three markers. In a well-nested program the two agree,
in all active frames at once. So whatever a line looks for is there, and no run of such
a program fails because lines do not belong together (`well_nested_runs`).
-/
import LineScript.Proofs.Activations
import LineScript.Proofs.Failures

namespace LineScript

/-! ### Blocks of a list -/

namespace Statements

/-- The blocks of the conditions and loops in a list that stands from `start` on, each
with its first line and its last, which is the marker that ends it. The bodies of lambdas
are left out. -/
def blocks (start : Nat) : Statements → List (Nat × Nat)
  | done => []
  | blank rest => rest.blocks (start + 1)
  | line _ _ rest => rest.blocks (start + 1)
  | branch _ body rest =>
    (start + 1, start + 1 + body.size) :: body.blocks (start + 1) ++
      rest.blocks (start + body.size + 2)
  | fork _ body other rest =>
    (start + 1, start + 1 + body.size) :: body.blocks (start + 1) ++
      ((start + body.size + 2, start + body.size + 2 + other.size) ::
        other.blocks (start + body.size + 2) ++ rest.blocks (start + body.size + other.size + 3))
  | loop _ body rest =>
    (start + 1, start + 1 + body.size) :: body.blocks (start + 1) ++
      rest.blocks (start + body.size + 2)
  | lambda body rest => rest.blocks (start + body + 2)

/-- The number of blocks around a line. -/
def around (start : Nat) (t : Statements) (n : Nat) : Nat :=
  (t.blocks start).countP fun b => b.1 ≤ n ∧ n ≤ b.2

/-- The blocks of a list come after its first line and end before the line after it. -/
theorem range_blocks {start : Nat} {t : Statements} {b : Nat × Nat} (h : b ∈ t.blocks start) :
    start < b.1 ∧ b.2 < start + t.size := by
  induction t generalizing start with
  | done => cases h
  | blank rest ih =>
    have := ih h
    simp only [size]
    omega
  | line _ _ rest ih =>
    have := ih h
    simp only [size]
    omega
  | branch _ body rest ihbody ih =>
    simp only [blocks, List.cons_append, List.mem_cons, List.mem_append] at h
    simp only [size]
    rcases h with rfl | h | h
    · exact ⟨Nat.lt_succ_self _, by omega⟩
    · have := ihbody h
      omega
    · have := ih h
      omega
  | fork _ body other rest ihbody ihother ih =>
    simp only [blocks, List.cons_append, List.mem_cons, List.mem_append] at h
    simp only [size]
    rcases h with rfl | h | rfl | h | h
    · exact ⟨Nat.lt_succ_self _, by omega⟩
    · have := ihbody h
      omega
    · exact ⟨by omega, by omega⟩
    · have := ihother h
      omega
    · have := ih h
      omega
  | loop _ body rest ihbody ih =>
    simp only [blocks, List.cons_append, List.mem_cons, List.mem_append] at h
    simp only [size]
    rcases h with rfl | h | h
    · exact ⟨Nat.lt_succ_self _, by omega⟩
    · have := ihbody h
      omega
    · have := ih h
      omega
  | lambda body rest ih =>
    have := ih h
    simp only [size]
    omega

/-- No block is around the first line of a list, nor around a line that is not in it. -/
theorem around_eq_zero {start n : Nat} {t : Statements} (h : n ≤ start ∨ start + t.size ≤ n) :
    t.around start n = 0 := by
  rw [around, List.countP_eq_zero]
  intro b hb
  have := range_blocks hb
  simp only [decide_eq_true_eq]
  omega

section
variable {start n : Nat} {args : List String} {body other rest : Statements}

theorem around_branch : (branch args body rest).around start n =
    (if start + 1 ≤ n ∧ n ≤ start + 1 + body.size then 1 else 0) + body.around (start + 1) n +
      rest.around (start + body.size + 2) n := by
  simp only [around, blocks, List.countP_append, List.countP_cons, decide_eq_true_eq]
  omega

theorem around_loop : (loop args body rest).around start n =
    (if start + 1 ≤ n ∧ n ≤ start + 1 + body.size then 1 else 0) + body.around (start + 1) n +
      rest.around (start + body.size + 2) n :=
  @around_branch start n args body rest

theorem around_fork : (fork args body other rest).around start n =
    (if start + 1 ≤ n ∧ n ≤ start + 1 + body.size then 1 else 0) + body.around (start + 1) n +
      ((if start + body.size + 2 ≤ n ∧ n ≤ start + body.size + 2 + other.size then 1 else 0) +
        other.around (start + body.size + 2) n +
          rest.around (start + body.size + other.size + 3) n) := by
  simp only [around, blocks, List.countP_append, List.countP_cons, decide_eq_true_eq]
  omega

end

end Statements

theorem Inside.range {start n k : Nat} {t : Statements} (h : Inside start t n k) :
    start ≤ n ∧ n ≤ start + t.size := by
  induction h with
  | first => exact ⟨Nat.le_refl _, Nat.le_add_right _ _⟩
  | blank _ ih => simp only [Statements.size]; omega
  | line _ ih => simp only [Statements.size]; omega
  | branchBody _ ih => simp only [Statements.size]; omega
  | branchRest _ ih => simp only [Statements.size]; omega
  | forkBody _ ih => simp only [Statements.size]; omega
  | forkOther _ ih => simp only [Statements.size]; omega
  | forkRest _ ih => simp only [Statements.size]; omega
  | loopBody _ ih => simp only [Statements.size]; omega
  | loopRest _ ih => simp only [Statements.size]; omega
  | lambdaRest _ ih => simp only [Statements.size]; omega

open Statements in
/-- At a place in a list the blocks around it are open. -/
theorem Inside.eq_around {start n k : Nat} {t : Statements} (h : Inside start t n k) :
    k = t.around start n := by
  -- The place is in one of the parts of a statement; no block of the others is around it.
  induction h with
  | first => exact (around_eq_zero (.inl (Nat.le_refl _))).symm
  | blank _ ih => exact ih
  | line _ ih => exact ih
  | branchBody there ih =>
    have := there.range
    rw [around_branch, if_pos (by omega), ← ih, around_eq_zero (.inl (by omega))]
    omega
  | branchRest there ih =>
    have := there.range
    rw [around_branch, if_neg (by omega), ← ih, around_eq_zero (.inr (by omega))]
    omega
  | forkBody there ih =>
    have := there.range
    rw [around_fork, if_pos (by omega), if_neg (by omega), ← ih, around_eq_zero (.inl (by omega)),
      around_eq_zero (.inl (by omega))]
    omega
  | forkOther there ih =>
    have := there.range
    rw [around_fork, if_neg (by omega), if_pos (by omega), ← ih, around_eq_zero (.inr (by omega)),
      around_eq_zero (.inl (by omega))]
    omega
  | forkRest there ih =>
    have := there.range
    rw [around_fork, if_neg (by omega), if_neg (by omega), ← ih, around_eq_zero (.inr (by omega)),
      around_eq_zero (.inr (by omega))]
    omega
  | loopBody there ih =>
    have := there.range
    rw [around_loop, if_pos (by omega), ← ih, around_eq_zero (.inl (by omega))]
    omega
  | loopRest there ih =>
    have := there.range
    rw [around_loop, if_neg (by omega), ← ih, around_eq_zero (.inr (by omega))]
    omega
  | lambdaRest _ ih => exact ih

/-! ### Bodies are unique -/

/-- What a list begins with. -/
inductive Shape
  | nothing
  | blank
  | line
  | branch
  | loop
  | lambda

/-- What the list begins with. -/
def Statements.shape : Statements → Shape
  | .done => .nothing
  | .blank _ => .blank
  | .line .. => .line
  | .branch .. | .fork .. => .branch
  | .loop .. => .loop
  | .lambda .. => .lambda

/-- What a list begins with if this is the keyword of its first line, or of the marker
after an empty list. -/
def Shape.ofKeyword : Option Keyword → Shape
  | none => .blank
  | some .branch => .branch
  | some .loop => .loop
  | some .lambda => .lambda
  | some .var | some .assign | some .call | some .ret | some .func => .line
  | some .otherwise | some .endBranch | some .endLoop | some .endFunc | some .endLambda => .nothing

/-- The line is a marker that ends a list. -/
def Program.Ends (p : Program) (n : Nat) : Prop :=
  ∃ k, p.keyword? n = some k ∧ Shape.ofKeyword (some k) = .nothing

section
variable {p : Program} {depth depth' start : Nat} {t t' : Statements}

theorem Program.Ends.of_marks {k : Keyword} {n : Nat} (h : (p.line n).marks k depth = true)
    (hk : Shape.ofKeyword (some k) = .nothing) : p.Ends n :=
  ⟨k, keyword?_of_marks h, hk⟩

theorem Program.Ends.of_eq {m n : Nat} (h : p.Ends m) (hmn : m = n) : p.Ends n := hmn ▸ h

theorem Program.Says.inj {k k' : Keyword} {args args' : List String} {n : Nat}
    (h : p.Says n k args depth) (h' : p.Says n k' args' depth') : k = k' ∧ args = args' :=
  ⟨Option.some.inj (h.keyword?.symm.trans h'.keyword?),
    (List.cons.inj (h.1.symm.trans h'.1)).2⟩

/-- The first line of a list, or the marker after it, tells what it begins with. -/
theorem Laid.shape_eq (h : Laid p Plain depth start t) (hend : p.Ends (start + t.size)) :
    t.shape = .ofKeyword (p.keyword? start) := by
  cases h with
  | done =>
    obtain ⟨k, hk, hnothing⟩ := hend
    have hk : p.keyword? start = some k := hk
    rw [hk, hnothing]
    rfl
  | blank inProgram empty =>
    cases hk : p.keyword? start with
    | none => rfl
    | some k =>
      rw [Program.not_isBlank_of_keyword? hk] at empty
      cases empty
  | line kind here =>
    rw [here.keyword?]
    rcases kind with rfl | rfl | rfl | rfl <;> rfl
  | branch head => rw [head.keyword?]; rfl
  | fork head => rw [head.keyword?]; rfl
  | loop head => rw [head.keyword?]; rfl
  | lambda head => rw [Program.keyword?_of_marks head]; rfl

theorem Laid.unique (h : Laid p Plain depth start t) (h' : Laid p Plain depth' start t')
    (hend : p.Ends (start + t.size)) (hend' : p.Ends (start + t'.size)) : t = t' := by
  -- The first line tells what both lists begin with, and markers tell where bodies end.
  induction t generalizing depth depth' start t' with
  | done =>
    have hshape := (h.shape_eq hend).trans (h'.shape_eq hend').symm
    cases h' with
    | done => rfl
    | blank | line | branch | fork | loop | lambda => cases hshape
  | blank rest ih =>
    have hshape := (h.shape_eq hend).trans (h'.shape_eq hend').symm
    cases h with
    | blank _ _ next =>
      cases h' with
      | blank _ _ next' =>
        rw [ih next next' (hend.of_eq (by simp; omega)) (hend'.of_eq (by simp; omega))]
      | done | line | branch | fork | loop | lambda => cases hshape
  | line key args rest ih =>
    have hshape := (h.shape_eq hend).trans (h'.shape_eq hend').symm
    cases h with
    | line _ here next =>
      cases h' with
      | line _ here' next' =>
        obtain ⟨rfl, rfl⟩ := here.inj here'
        rw [ih next next' (hend.of_eq (by simp; omega)) (hend'.of_eq (by simp; omega))]
      | done | blank | branch | fork | loop | lambda => cases hshape
  | branch args body rest ihbody ih =>
    have hshape := (h.shape_eq hend).trans (h'.shape_eq hend').symm
    cases h with
    | branch head _ inside close next =>
      cases h' with
      | branch head' _ inside' close' next' =>
        obtain rfl := ihbody inside inside' (.of_marks close rfl) (.of_marks close' rfl)
        obtain ⟨-, rfl⟩ := head.inj head'
        rw [ih next next' (hend.of_eq (by simp; omega)) (hend'.of_eq (by simp; omega))]
      | fork _ _ inside' middle' =>
        -- The marker after the body cannot be both.
        obtain rfl := ihbody inside inside' (.of_marks close rfl) (.of_marks middle' rfl)
        cases (Program.keyword?_of_marks close).symm.trans (Program.keyword?_of_marks middle')
      | done | blank | line | loop | lambda => cases hshape
  | fork args body other rest ihbody ihother ih =>
    have hshape := (h.shape_eq hend).trans (h'.shape_eq hend').symm
    cases h with
    | fork head _ inside middle _ second close next =>
      cases h' with
      | fork head' _ inside' middle' _ second' close' next' =>
        obtain rfl := ihbody inside inside' (.of_marks middle rfl) (.of_marks middle' rfl)
        obtain rfl := ihother second second' (.of_marks close rfl) (.of_marks close' rfl)
        obtain ⟨-, rfl⟩ := head.inj head'
        rw [ih next next' (hend.of_eq (by simp; omega)) (hend'.of_eq (by simp; omega))]
      | branch _ _ inside' close' =>
        obtain rfl := ihbody inside inside' (.of_marks middle rfl) (.of_marks close' rfl)
        cases (Program.keyword?_of_marks middle).symm.trans (Program.keyword?_of_marks close')
      | done | blank | line | loop | lambda => cases hshape
  | loop args body rest ihbody ih =>
    have hshape := (h.shape_eq hend).trans (h'.shape_eq hend').symm
    cases h with
    | loop head _ inside close next =>
      cases h' with
      | loop head' _ inside' close' next' =>
        obtain rfl := ihbody inside inside' (.of_marks close rfl) (.of_marks close' rfl)
        obtain ⟨-, rfl⟩ := head.inj head'
        rw [ih next next' (hend.of_eq (by simp; omega)) (hend'.of_eq (by simp; omega))]
      | done | blank | line | branch | fork | lambda => cases hshape
  | lambda body rest ih =>
    have hshape := (h.shape_eq hend).trans (h'.shape_eq hend').symm
    cases h with
    | lambda head deeper close next =>
      cases h' with
      | @lambda _ _ body' _ head' deeper' close' next' =>
        -- Both markers are what the search for the end of the lambda finds.
        have hlast := (lambdaEnd?_eq head deeper close).symm.trans
          (lambdaEnd?_eq head' deeper' close')
        obtain rfl : body = body' := by
          have := Option.some.inj hlast
          omega
        rw [ih next next' (hend.of_eq (by simp; omega)) (hend'.of_eq (by simp; omega))]
      | done | blank | line | branch | fork | loop => cases hshape

/-- A signature has one body. -/
theorem Program.BodyOf.unique {sig : Signature} (h : p.BodyOf sig t) (h' : p.BodyOf sig t') :
    t = t' := by
  have hends : ∀ {t : Statements}, p.BodyOf sig t → p.Ends (sig.start + t.size) := by
    intro t hbody
    rcases hbody.close with ⟨-, hk⟩ | ⟨-, hk⟩
    · exact ⟨_, hk, rfl⟩
    · exact ⟨_, hk, rfl⟩
  obtain ⟨depth, hlaid⟩ := h.laid
  obtain ⟨depth', hlaid'⟩ := h'.laid
  exact hlaid.unique hlaid' (hends h) (hends h')

end

/-! ### Frames -/

section
variable {img : Image} {cfg : Config} {s s' : State} {calls callers : List Signature}
  {sig : Signature} {lines : List Nat} {frames : List Frame}

/-- The frame of a signature that is active at a line has its root block, and one block for
each of those that are around the line in the body. -/
def Program.FrameAt (p : Program) (sig : Signature) (line : Nat) (frame : Frame) : Prop :=
  ∃ t, (∀ t', p.BodyOf sig t' ↔ t' = t) ∧ frame.depth = 1 + t.around sig.start line

theorem Program.InBody.frameAt {p : Program} {n : Nat} {frame : Frame}
    (h : p.InBody sig n frame.inner.length) : p.FrameAt sig n frame := by
  obtain ⟨t, hbody, hin⟩ := h
  refine ⟨t, fun t' => ⟨fun h' => h'.unique hbody, fun heq => heq ▸ hbody⟩, ?_⟩
  rw [Frame.depth, hin.eq_around, Nat.add_comm]

theorem Active.frameAt (h : Active img calls lines frames) :
    frames.length = lines.length ∧
      List.Forall₂ (fun sig place => img.program.FrameAt sig place.1 place.2) calls
        (lines.zip frames) := by
  induction h with
  | nil => exact ⟨rfl, .nil⟩
  | cons _ body _ ih => exact ⟨congrArg Nat.succ ih.1, .cons body.frameAt ih.2⟩

/-! ### Failures -/

/-- A line that stands for itself does not fail structurally, if a return finds its result
type. -/
theorem not_structural_of_plain {σ : Type} {con : Console σ} {w w' : σ} {key : Keyword}
    {args : List String} {depth : Nat} {cause : Cause} (kind : Plain key args)
    (here : img.program.Says s.ip key args depth) (hresult : Plan.resultType? img s ≠ none)
    (hstep : (step img cfg s).run con w = (⟨s', some cause⟩, w')) :
    cause.isStructural = false := by
  have hk := here.keyword?
  have hkey : ∀ {k : Keyword}, img.program.keyword? s.ip = some k → k = key := fun hk' =>
    Option.some.inj (hk'.symm.trans hk)
  rcases outcome_cases hstep with
    ⟨e, hplan, happly⟩ | ⟨_, hfail, hnone | ⟨plan, error, -, -, rfl⟩⟩ | ⟨-, hread | ⟨line, hread⟩⟩
  · refine Effect.local_apply ?_ ?_ (congrArg Outcome.error happly).symm
    · rintro next rfl
      cases planned_of_next hplan with
      | closing here' ends =>
        obtain rfl := hkey here'
        rcases ends with rfl | rfl | rfl <;> rcases kind with h | h | h | h <;> cases h
    · rintro id next rfl
      cases planned_of_next hplan with
      | capture here' =>
        obtain rfl := hkey here'
        rcases kind with h | h | h | h <;> cases h
  · cases hfail
    rw [next_of_keyword hk] at hnone
    rcases kind with rfl | rfl | rfl | rfl
    · exact Cause.isStructural_eq_false (Plan.local_declaration _ _ hnone)
    · exact Cause.isStructural_eq_false (Plan.local_assignment _ _ _ _ hnone)
    · exact Cause.isStructural_eq_false (Plan.local_invocation _ _ _ _ _ hnone)
    · exact Cause.isStructural_eq_false (Plan.local_giveBack _ hresult _ hnone)
  · cases hfail
    rfl
  · cases hread
  · cases hread

/-- In a body of a well-nested program no line fails structurally. -/
theorem not_structural_of_activated {σ : Type} {con : Console σ} {w w' : σ} {cause : Cause}
    (hload : img.Loaded) (hp : img.program.WellNested) (h : Activated img calls s)
    (hstep : (step img cfg s).run con w = (⟨s', some cause⟩, w')) :
    cause.isStructural = false := by
  rw [Activated] at h
  cases h with
  | cons known body _ =>
    obtain ⟨t, hbody, hin⟩ := body
    obtain ⟨depth, hlaid⟩ := hbody.laid
    rcases hlaid.flow hin with ⟨hip, -⟩ | hflow
    · -- The marker that ends the body leads back and does not fail.
      rcases hbody.close with ⟨-, hk⟩ | ⟨-, hk⟩
      · rw [step_of_keyword (hip ▸ hk), perform_of_effect rfl] at hstep
        cases hstep
      · rw [step_of_keyword (hip ▸ hk), perform_of_effect rfl] at hstep
        cases hstep
    · cases hflow with
      | blank inProgram empty _ =>
        rw [step_of_blank inProgram empty] at hstep
        cases hstep
      | line kind here _ =>
        -- A return looks for the signature of the body it is in, and that is recorded.
        refine not_structural_of_plain kind here ?_ hstep
        have hlambda : img.program.keyword? s.ip ≠ some .lambda := by
          rw [here.keyword?]
          exact fun h => kind.ne (by decide) (Option.some.inj h)
        rw [Plan.resultType?, (hbody.recorded hload hp known hin).2.2 hlambda]
        exact Option.some_ne_none _
      | branch here past _ _ =>
        rw [run_step_branch cfg con w here past] at hstep
        split at hstep
        · next cause' hcondition =>
          cases hstep
          exact Cause.isStructural_eq_false (Plan.local_condition _ _ _ _ _ hcondition)
        · cases hstep
        · cases hstep
      | otherwise here inside past _ =>
        rw [run_step_closing cfg con w (Program.keyword?_of_marks here) (.inl rfl)
          (by rw [Plan.blockExit, past]; rfl) inside] at hstep
        cases hstep
      | endBranch here inside _ =>
        rw [run_step_closing cfg con w (Program.keyword?_of_marks here) (.inr (.inl rfl)) rfl
          inside] at hstep
        cases hstep
      | loop here past _ _ =>
        rw [run_step_loop cfg con w here past] at hstep
        split at hstep
        · next cause' hcondition =>
          cases hstep
          exact Cause.isStructural_eq_false (Plan.local_condition _ _ _ _ _ hcondition)
        · cases hstep
        · cases hstep
      | endLoop here inside back _ =>
        rw [run_step_closing cfg con w (Program.keyword?_of_marks here) (.inr (.inr rfl))
          (by rw [Plan.blockExit, back]) inside] at hstep
        cases hstep
      | lambda here past _ =>
        rw [run_step_capture cfg con w hload (Program.keyword?_of_marks here) past] at hstep
        cases hstep

end

/-- In every state of a run of a well-nested program, each frame has one block and one more
for each condition and loop of its own body around the line it is at: the current line,
or the line at which its call will resume. And whatever goes wrong in a run, it is not
that a marker is missing, that a block is not open, that the program ends within a body,
or that a statement stands where none is expected. -/
theorem well_nested_runs {σ : Type} {p : Program} {cfg : Config} {m : Machine} (con : Console σ)
    (w₀ : σ) (hload : Machine.load p cfg = .ok m) (hp : p.WellNested) :
    (∀ s w, m.Reached con w₀ s w → s.scopes.suspended.length = s.returns.size ∧
      ∃ calls, m.Traced con w₀ calls s w ∧
        List.Forall₂ (fun sig place => p.FrameAt sig place.1 place.2) calls
          ((s.ip :: s.returns.toList.reverse).zip (s.scopes.current :: s.scopes.suspended))) ∧
    ∀ fuel failure, (m.run con fuel w₀).ending = .failed failure →
      failure.cause.isStructural = false := by
  obtain ⟨rfl, hloaded, rfl⟩ := Machine.load_eq_ok hload
  have hactivated : ∀ {s w}, m.Reached con w₀ s w →
      ∃ calls, m.Traced con w₀ calls s w ∧ Activated m.image calls s := by
    intro s w h
    obtain ⟨calls, htraced⟩ := h.traced
    exact ⟨calls, htraced, (htraced.activated hloaded hp).1⟩
  constructor
  · intro s w h
    obtain ⟨calls, htraced, hactive⟩ := hactivated h
    obtain ⟨hlength, hframes⟩ := Active.frameAt hactive
    exact ⟨by simpa using hlength, calls, htraced, hframes⟩
  · intro fuel failure hfailure
    rw [Machine.run] at hfailure
    cases hentry : m.entry with
    | error failure' =>
      rw [hentry] at hfailure
      cases hfailure
      rw [Machine.entry] at hentry
      split at hentry <;> cases hentry
      rfl
    | ok s₀ =>
      rw [hentry] at hfailure
      obtain ⟨s, w, hrow, ⟨-, hnone⟩ | ⟨cause, -, hstep, hending⟩⟩ :=
        Machine.steps_drive m.image m.config con fuel s₀ w₀
      · simp only at hfailure
        rw [hfailure] at hnone
        cases hnone
      · obtain ⟨calls, -, hactive⟩ := hactivated ⟨s₀, hentry, hrow⟩
        cases hending.symm.trans hfailure
        exact not_structural_of_activated hloaded hp hactive hstep

/-- A function that calls another one from a condition in a loop. -/
def nestingProgram : Program := .ofLines [
  "func main void",
  "  var int n",
  "  while < n 2",
  "    if == n 0",
  "      funccall count n",
  "    else",
  "      assign n 2",
  "    endif",
  "  endwhile",
  "endfunc",
  "func count k:refint void",
  "  assign k + k 1",
  "endfunc"]

theorem wellNested_nestingProgram : nestingProgram.WellNested := by
  have hfork : Laid nestingProgram Plain 4 3 (.fork ["==", "n", "0"]
      (.line .call ["count", "n"] .done) (.line .assign ["n", "2"] .done) .done) :=
    .fork (by decide +kernel) (by decide : 4 < 6)
      (.line (.inr (.inr (.inl rfl))) (by decide +kernel) .done) (by decide +kernel)
      (by decide : 4 < 6) (.line (.inr (.inl rfl)) (by decide +kernel) .done)
      (by decide +kernel) .done
  have hmain : Laid nestingProgram Plain 2 1 (.line .var ["int", "n"] (.loop ["<", "n", "2"]
      (.fork ["==", "n", "0"] (.line .call ["count", "n"] .done) (.line .assign ["n", "2"] .done)
        .done) .done)) :=
    .line (.inl rfl) (by decide +kernel)
      (.loop (by decide +kernel) (by decide : 2 < 4) hfork (by decide +kernel) .done)
  have hcount : Laid nestingProgram Plain 2 11 (.line .assign ["k", "+", "k", "1"] .done) :=
    .line (.inr (.inl rfl)) (by decide +kernel) .done
  refine ⟨.func (by decide +kernel) hmain (by decide +kernel)
    (.func (by decide +kernel) hcount (by decide +kernel) .done), fun {n} hk => ?_⟩
  have hnone : ∀ n < 13, nestingProgram.keyword? n ≠ some .lambda := by decide +kernel
  exact absurd hk (hnone n (Program.lt_size_of_keyword? hk))

/-- While the second function runs, the first one is at the `else` of a condition in a loop:
its frame has three blocks. -/
theorem well_nested_runs_nestingProgram :
    Machine.load nestingProgram {} = .ok { image := .ofProgram nestingProgram } ∧
    nestingProgram.WellNested ∧
    (∃ s w, Machine.Reached { image := .ofProgram nestingProgram } Buffer.console {} s w ∧
      s.ip = 11 ∧ s.returns = #[5] ∧ s.scopes.suspended.map Frame.depth = [3] ∧
      ∃ caller frame, s.scopes.suspended = [frame] ∧ nestingProgram.FrameAt caller 5 frame) ∧
    ∀ fuel failure, (Machine.run { image := .ofProgram nestingProgram } Buffer.console fuel
      {}).ending = .failed failure → failure.cause.isStructural = false := by
  have hload := Machine.load_eq_ofProgram (p := nestingProgram) (by decide +kernel) {}
  obtain ⟨hframes, hfailures⟩ := well_nested_runs Buffer.console {} hload wellNested_nestingProgram
  refine ⟨hload, wellNested_nestingProgram, ?_, hfailures⟩
  have hstate : (stateAfter (.ofProgram nestingProgram) {} Buffer.console 4 (.start 1) {}).map
      (fun x => (x.1.ip, x.1.returns, x.1.scopes.suspended.map Frame.depth)) =
      some (11, #[5], [3]) := by decide +kernel
  obtain ⟨⟨s, w⟩, hstate, hx⟩ := Option.map_eq_some_iff.mp hstate
  simp only [Prod.mk.injEq] at hx
  obtain ⟨hip, hreturns, hdepths⟩ := hx
  have hreached := Machine.reached_of_stateAfter (m := { image := .ofProgram nestingProgram })
    (by decide +kernel) hstate
  obtain ⟨-, calls, -, hplaces⟩ := hframes s w hreached
  obtain ⟨frame, hframe, -⟩ := List.map_eq_singleton_iff.mp hdepths
  rw [hip, hreturns, hframe] at hplaces
  cases hplaces with
  | cons _ hcallers =>
    cases hcallers with
    | cons hcaller _ => exact ⟨s, w, hreached, hip, hreturns, hdepths, _, frame, hframe, hcaller⟩

end LineScript
