/-
What can go wrong within a line.

Some errors are about how lines belong together: a marker that is missing, a block that
was never opened, a line where no statement is expected. They are structural, and they
come from the few places that look beyond the current line. All evaluation of operands
and expressions, and all statements that stand for themselves, raise errors about what
the line itself says (`Local`); a line fails structurally only where a search fails, a
block is not open, or a result type is not recorded.

None of these errors names a line, so each is given the line that fails; only a console may
come with a line of its own (`line?_of_failing_step`).
-/
import LineScript.Proofs.Planned

namespace LineScript

/-- The error is about how lines belong together, not about what one line says. -/
def Cause.isStructural : Cause → Bool
  | .pastEnd | .nestedFunction | .unknownStatement _ | .missingMarker _ | .noOpenBlock _
  | .lambdaForm | .returnOutside => true
  | _ => false

/-- The error is about what one line says. It does not name the line. -/
def Cause.isLocal (c : Cause) : Bool := !c.isStructural && c.line?.isNone

theorem Cause.isLocal_iff {c : Cause} :
    c.isLocal = true ↔ c.isStructural = false ∧ c.line? = none := by
  simp [isLocal]

theorem Cause.isStructural_eq_false {c : Cause} (h : c.isLocal = true) : c.isStructural = false :=
  (isLocal_iff.mp h).1

theorem Cause.line?_eq_none {c : Cause} (h : c.isLocal = true) : c.line? = none :=
  (isLocal_iff.mp h).2

/-- All errors that may come of this are about what the line says. -/
def Local {α : Type} (x : Except Cause α) : Prop :=
  ∀ cause, x = .error cause → cause.isLocal = true

namespace Local

variable {α β : Type} {x : Except Cause α} {cause : Cause}

theorem ok (a : α) : Local (.ok a : Except Cause α) := nofun

theorem error (h : cause.isLocal = true) : Local (.error cause : Except Cause α) := by
  rintro _ ⟨⟩
  exact h

theorem bind {f : α → Except Cause β} (hx : Local x) (hf : ∀ a, Local (f a)) :
    Local (x.bind f) := by
  cases x with
  | ok a => exact hf a
  | error cause => exact .error (hx cause rfl)

theorem map (f : α → β) (hx : Local x) : Local (x.map f) := by
  cases x with
  | ok a => exact .ok (f a)
  | error cause => exact .error (hx cause rfl)

end Local

variable {img : Image} {cfg : Config} {s s' : State}

/-! ### Operands -/

namespace Operand

theorem local_literal? {token : String} {x : Except Cause Value} (h : literal? token = some x) :
    Local x := by
  rw [literal?] at h
  split at h
  · cases h
    exact .ok _
  · split at h
    · cases h
      refine .map _ ?_
      rw [integer]
      split
      · exact .ok _
      · exact .error rfl
      · exact .error rfl
    · split at h
      · cases h
        exact .ok _
      · split at h <;> cases h
        exact .ok _

theorem local_ofName (img : Image) (s : State) (name : String) : Local (ofName img s name) := by
  rw [ofName]
  split
  · exact .ok _
  · split
    · exact .ok _
    · exact .error rfl

theorem local_asObject (token : String) (v : Value) : Local (asObject token v) := by
  rw [asObject.eq_def]
  split
  · exact .ok _
  · exact .error rfl

theorem local_resolveWithin (img : Image) (s : State) (dots : Nat) (token : String) :
    Local (resolveWithin img s dots token) := by
  induction dots generalizing token with
  | zero =>
    rw [resolveWithin]
    split
    · next h => exact local_literal? h
    · exact local_ofName img s token
  | succ dots ih =>
    rw [resolveWithin]
    split
    · next h => exact local_literal? h
    · split
      · exact local_ofName img s token
      · next owner field _ =>
        -- A path fails with its owner, or at its field.
        have howner := (ih owner).bind (local_asObject owner)
        split
        · next cause h => exact .error (howner cause h)
        · split
          · exact .ok _
          · exact .error rfl

theorem local_resolve (img : Image) (s : State) (token : String) : Local (resolve img s token) :=
  local_resolveWithin img s (dots token) token

theorem local_resolveObject (img : Image) (s : State) (token : String) :
    Local (resolveObject img s token) :=
  (local_resolve img s token).bind (local_asObject token)

theorem local_render (img : Image) (s : State) (tokens : List String) :
    Local (render img s tokens) := by
  induction tokens with
  | nil => exact .ok _
  | cons token rest ih => exact (local_resolve img s token).bind fun _ => ih.bind fun _ => .ok _

theorem local_asFunction (name : String) (v : Value) : Local (asFunction name v) := by
  rw [asFunction.eq_def]
  split
  · exact .ok _
  · exact .error rfl
  · exact .error rfl

theorem local_callee (img : Image) (s : State) (name : String) : Local (callee img s name) := by
  rw [callee]
  split
  · next owner method _ =>
    refine (local_resolveObject img s owner).bind fun o => ?_
    split
    · exact .error rfl
    · exact (local_asFunction name _).bind fun _ => .ok _
  · split
    · exact (local_asFunction name _).bind fun _ => .ok _
    · split
      · exact .ok _
      · exact .error rfl

theorem local_functionValue (img : Image) (s : State) (token : String) :
    Local (functionValue img s token) := by
  rw [functionValue]
  split
  · exact .ok _
  · exact .error rfl

end Operand

/-! ### Expressions -/

theorem Arithmetic.local_fit (op : BinaryOp) (n : Int) : Local (fit op n) := by
  rw [fit]
  split
  · exact .ok _
  · exact .error rfl

theorem Arithmetic.local_onInts (op : BinaryOp) (a b : Int64) : Local (onInts op a b) := by
  rw [onInts.eq_def]
  split
  · exact (local_fit _ _).map _
  · exact (local_fit _ _).map _
  · exact (local_fit _ _).map _
  · refine .map _ ?_
    rw [floorDiv]
    split
    · exact .error rfl
    · split
      · exact .error rfl
      · exact .ok _
  · refine .map _ ?_
    rw [floorRem]
    split
    · exact .error rfl
    · exact .ok _
  · exact .ok _

theorem Arithmetic.local_binary (op : BinaryOp) (left right : Value) :
    Local (binary op left right) := by
  rw [binary.eq_def]
  split
  · exact .error rfl
  · split
    · exact .error rfl
    · split
      · exact local_onInts _ _ _
      · exact .ok _
      · exact .ok _
      · exact .error rfl

theorem Expression.local_push (img : Image) (s : State) (token : String) (stack : List Value) :
    Local (push img s token stack) := by
  rw [push.eq_def]
  split
  · split
    · exact (Arithmetic.local_binary _ _ _).map _
    · exact .error rfl
  · split
    · split
      · refine .map _ ?_
        rw [Arithmetic.negate.eq_def]
        split
        · exact .ok _
        · exact .error rfl
      · exact .error rfl
    · exact (Operand.local_resolve img s token).map _

theorem Expression.local_stack (img : Image) (s : State) (tokens : List String) :
    Local (stack img s tokens) := by
  induction tokens with
  | nil => exact .ok _
  | cons token rest ih => exact ih.bind (local_push img s token)

theorem Expression.local_eval (img : Image) (s : State) (tokens : List String) :
    Local (eval img s tokens) := by
  rw [eval]
  split
  · next cause h => exact .error (local_stack img s tokens cause h)
  · exact .ok _
  · exact .error rfl

/-! ### Statements -/

namespace Plan

theorem local_declaration (args : List String) : Local (declaration args) := by
  rw [declaration.eq_def]
  split
  · split
    · exact .error rfl
    · split
      · exact .error rfl
      · exact .ok _
  · exact .error rfl

theorem local_assignment (img : Image) (s : State) (args : List String) :
    Local (assignment img s args) := by
  rw [assignment.eq_def]
  split
  · next token tokens =>
    split
    · exact (Operand.local_resolveObject img s _).bind fun _ =>
        (Expression.local_eval img s _).bind fun _ => .ok _
    · refine (Expression.local_eval img s _).bind fun v => ?_
      dsimp only
      split
      · exact .error rfl
      · split
        · exact .error rfl
        · exact .ok _
  · exact .error rfl

theorem local_condition (img : Image) (s : State) (statement : Keyword) (args : List String) :
    Local (condition img s statement args) := by
  rw [condition.eq_def]
  split
  · exact .error rfl
  · refine (Expression.local_eval img s _).bind fun v => ?_
    split
    · exact .ok _
    · exact .error rfl

theorem local_argument (img : Image) (s : State) (callee : String) (param : Param)
    (actual : String) : Local (argument img s callee param actual) := by
  refine (Operand.local_resolve img s actual).bind fun v => ?_
  split
  · exact .error rfl
  · split
    · split
      · exact .ok _
      · exact .ok _
    · exact .ok _

theorem local_arguments (img : Image) (s : State) (callee : String) (params : List Param)
    (actuals : List String) : Local (arguments img s callee params actuals) := by
  induction params generalizing actuals with
  | nil => exact .ok _
  | cons param params ih =>
    cases actuals with
    | nil => exact .ok _
    | cons actual actuals =>
      exact (local_argument img s callee param actual).bind fun _ => (ih actuals).bind fun _ => .ok _

theorem local_call (img : Image) (cfg : Config) (s : State) (name : String)
    (actuals : List String) : Local (call img cfg s name actuals) := by
  refine (Operand.local_callee img s name).bind fun callee => ?_
  dsimp only
  split
  · exact .error rfl
  · split
    · exact .error rfl
    · refine (local_arguments img s name _ actuals).bind fun _ => ?_
      split
      · exact .error rfl
      · exact .ok _

theorem local_builtin (img : Image) (s : State) (b : Builtin) (actuals : List String) :
    Local (builtin img s b actuals) := by
  rw [builtin.eq_def]
  split
  · exact .error rfl
  · exact (Operand.local_render img s _).bind fun _ => .ok _
  · exact .ok _
  · exact (Operand.local_render img s _).bind fun _ => .ok _
  · refine (Operand.local_resolve img s _).bind fun v => ?_
    split
    · refine Local.bind ?_ fun _ => .ok _
      rw [conversion]
      split
      · exact .ok _
      · exact .error rfl
    · exact .error rfl
  · exact .error rfl

theorem local_invocation (img : Image) (cfg : Config) (s : State) (args : List String) :
    Local (invocation img cfg s args) := by
  rw [invocation.eq_def]
  split
  · exact .error rfl
  · split
    · exact local_builtin img s _ _
    · exact local_call img cfg s _ _

theorem local_returnValue (img : Image) (s : State) (type : DeclaredType) (args : List String) :
    Local (returnValue img s type args) := by
  have hchecked : ∀ v : Value, Local (if v.kind ≠ type.kind then
      .error (.mismatch .result type v.kind) else pure v : Except Cause Value) := by
    intro v
    split
    · exact .error rfl
    · exact .ok _
  rw [returnValue.eq_def]
  dsimp only
  split
  · exact (Operand.local_functionValue img s _).bind hchecked
  · exact .bind (.error rfl) hchecked
  · exact (Expression.local_eval img s args).bind hchecked

/-- A return fails structurally only where no result type is recorded. -/
theorem local_giveBack (args : List String) (h : resultType? img s ≠ none) :
    Local (giveBack img s args) := by
  rw [giveBack]
  split
  · next hnone => exact absurd hnone h
  · split
    · exact .ok _
    · split
      · exact .error rfl
      · exact (local_returnValue img s _ _).bind fun _ => .ok _

end Plan

/-! ### Effects -/

theorem State.local_declare {type : DeclaredType} {names : List String} {cause : Cause}
    (h : (s.declare type names).error = some cause) : cause.isStructural = false := by
  obtain ⟨name, rfl⟩ := State.redefinition_of_declare h
  rfl

theorem State.local_goOn {next : Except Cause Nat} {cause : Cause} (hnext : Local next)
    (h : (s.goOn next).error = some cause) : cause.isStructural = false := by
  cases next with
  | ok line => cases h
  | error cause' =>
    cases h
    exact Cause.isStructural_eq_false (hnext _ rfl)

/-- An effect fails structurally only where the end of a body was looked for. -/
theorem Effect.local_apply {functions : FunctionTable} {e : Effect} {cause : Cause}
    (hclose : ∀ next, e = .closeBlock next → Local next)
    (hcapture : ∀ id next, e = .capture id next → Local next)
    (h : (e.apply functions s).error = some cause) : cause.isStructural = false := by
  cases e with
  | declare type names =>
    rw [apply] at h
    split at h
    · exact State.local_declare h
    · cases h
  | closeBlock next => exact State.local_goOn (hclose next rfl) h
  | capture id next => exact State.local_goOn (hcapture id next rfl) h
  | goto | store | storeField | publish | openBlock | enter | leave => cases h

/-! ### Lines of errors -/

section
variable {cause : Cause} {args : List String}

theorem Local.line?_eq_none {α : Type} {x : Except Cause α} (hx : Local x) (h : x = .error cause) :
    cause.line? = none :=
  Cause.line?_eq_none (hx cause h)

namespace Plan

/-- A statement with a condition names no line if it does not once the condition is evaluated. -/
theorem line?_of_condition {statement : Keyword} {next : Bool → Except Cause Plan}
    (hnext : ∀ taken, next taken = .error cause → cause.line? = none)
    (h : (condition img s statement args).bind next = .error cause) : cause.line? = none := by
  cases hcond : condition img s statement args with
  | error reason =>
    rw [hcond] at h
    cases h
    exact (local_condition img s statement args).line?_eq_none hcond
  | ok taken =>
    rw [hcond] at h
    exact hnext taken h

theorem line?_of_branch (h : branch img s args = .error cause) : cause.line? = none := by
  refine line?_of_condition (fun taken h => ?_) h
  split at h
  · cases h
  · split at h
    · cases h
      rfl
    · split at h <;> cases h

theorem line?_of_loop (h : loop img s args = .error cause) : cause.line? = none := by
  refine line?_of_condition (fun taken h => ?_) h
  split at h
  · cases h
  · split at h <;> cases h
    rfl

theorem line?_of_giveBack (h : giveBack img s args = .error cause) : cause.line? = none := by
  cases htype : resultType? img s with
  | none =>
    rw [giveBack, htype] at h
    cases h
    rfl
  | some type => exact (local_giveBack args (by simp [htype])).line?_eq_none h

theorem line?_of_statement {k : Keyword} (h : statement img cfg s k args = .error cause) :
    cause.line? = none := by
  cases k with
  | var => exact (local_declaration args).line?_eq_none h
  | assign => exact (local_assignment img s args).line?_eq_none h
  | call => exact (local_invocation img cfg s args).line?_eq_none h
  | branch => exact line?_of_branch h
  | loop => exact line?_of_loop h
  | ret => exact line?_of_giveBack h
  | otherwise | endBranch | endLoop =>
    rw [statement, closing] at h
    split at h <;> cases h
    rfl
  | lambda =>
    rw [statement, lambda] at h
    split at h <;> cases h
    rfl
  | func =>
    cases h
    rfl
  | endFunc | endLambda => cases h

/-- A line that has no plan says why, and not where. -/
theorem line?_of_next (h : next img cfg s = .error cause) : cause.line? = none := by
  rw [next] at h
  split at h
  · cases h
    rfl
  · split at h
    · cases h
    · split at h
      · exact line?_of_statement h
      · cases h
        rfl

end Plan

/-- An error that names a line is one of a console that refuses what the line asks for. -/
theorem line?_of_failing_step {σ : Type} {con : Console σ} {w w' : σ}
    (h : (step img cfg s).run con w = (⟨s', some cause⟩, w')) :
    cause.line? = none ∨ ∃ plan error, Plan.next img cfg s = .ok plan ∧
      con.Refuses w plan error ∧ cause = .console error := by
  rcases outcome_cases h with ⟨e, hplan, ho⟩ | ⟨_, ho, hnone | hconsole⟩ | ⟨-, ho | ⟨line, ho⟩⟩
  · left
    obtain ⟨name, rfl⟩ | ⟨marker, rfl⟩ :=
      (planned_of_next hplan).error_cases (congrArg Outcome.error ho).symm
    · rfl
    · rfl
  · cases ho
    exact .inl (Plan.line?_of_next hnone)
  · cases ho
    exact .inr hconsole
  · cases ho
  · cases ho

end
end LineScript
