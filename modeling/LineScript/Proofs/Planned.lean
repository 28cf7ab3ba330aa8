/-
What a line can ask for.

Each statement is taken apart once: if it has a plan, then the plan is one of these, and
this was found out about the state on the way. `Planned` puts the statements together:
it lists all plans of a line, each with all that was checked, so an invariant of the
machine is a case analysis over `Planned` (`planned_of_next`, `step_eq_ok`).
-/
import LineScript.Proofs.Step
import Mathlib.Data.List.Forall2

namespace LineScript

variable {img : Image} {cfg : Config} {s : State} {plan : Plan} {args : List String}

namespace Plan

theorem declaration_eq_ok (h : declaration args = .ok plan) :
    ∃ type names, plan = .effect (.declare type names) := by
  rw [declaration.eq_def] at h
  split at h
  · split at h
    · cases h
    · split at h
      · cases h
      · cases h
        exact ⟨_, _, rfl⟩
  · cases h

theorem assignment_eq_ok (h : assignment img s args = .ok plan) :
    (∃ owner field tokens o v, Operand.resolveObject img s owner = .ok o ∧
      Expression.eval img s tokens = .ok v ∧ plan = .effect (.storeField o field v)) ∨
    ∃ target tokens cell v, s.scopes.cell? target = some cell ∧
      Expression.eval img s tokens = .ok v ∧ (s.scopes.read cell).kind = v.kind ∧
      plan = .effect (.store cell v) := by
  rw [assignment.eq_def] at h
  split at h
  · split at h
    · obtain ⟨o, ho, h⟩ := Except.bind_eq_ok_iff.mp h
      obtain ⟨v, hv, h⟩ := Except.bind_eq_ok_iff.mp h
      cases h
      exact .inl ⟨_, _, _, o, v, ho, hv, rfl⟩
    · obtain ⟨v, hv, h⟩ := Except.bind_eq_ok_iff.mp h
      split at h
      · cases h
      · next cell hcell =>
        dsimp only at h
        split at h
        · cases h
        · next hkind =>
          cases h
          exact .inr ⟨_, _, cell, v, hcell, hv, Decidable.not_not.mp hkind, rfl⟩
  · cases h

/-- A condition that holds opens a block; one that fails goes on after its body, in a
new block if that is a second body. -/
theorem branch_eq_ok (h : branch img s args = .ok plan) :
    plan = .effect (.openBlock (s.ip + 1)) ∨
    ∃ last, img.program.branchEnd? s.ip = some last ∧
      plan = .effect (if img.program.keyword? last = some .otherwise then .openBlock (last + 1)
        else .goto (last + 1)) := by
  obtain ⟨taken, -, h⟩ := Except.bind_eq_ok_iff.mp h
  split at h
  · cases h
    exact .inl rfl
  · split at h
    · cases h
    · next last hlast =>
      refine .inr ⟨last, hlast, ?_⟩
      split at h <;> cases h
      · next hk => rw [if_pos hk]
      · next hk => rw [if_neg hk]

theorem loop_eq_ok (h : loop img s args = .ok plan) :
    plan = .effect (.openBlock (s.ip + 1)) ∨
    ∃ last, img.program.loopEnd? s.ip = some last ∧ plan = .effect (.goto (last + 1)) := by
  obtain ⟨taken, -, h⟩ := Except.bind_eq_ok_iff.mp h
  split at h
  · cases h
    exact .inl rfl
  · split at h
    · cases h
    · next last hlast =>
      cases h
      exact .inr ⟨last, hlast, rfl⟩

theorem closing_eq_ok {k : Keyword} (h : closing img s k = .ok plan) :
    s.scopes.current.inner ≠ [] ∧ plan = .effect (.closeBlock (blockExit img s k)) := by
  rw [closing] at h
  split at h
  · cases h
  · next hopen =>
    cases h
    exact ⟨fun hnil => hopen (by rw [hnil]; rfl), rfl⟩

theorem call_eq_ok {name : String} {actuals : List String}
    (h : call img cfg s name actuals = .ok plan) :
    ∃ callee sig bindings, Operand.callee img s name = .ok callee ∧
      img.functions.signature? callee.id = some sig ∧ sig.params.length = actuals.length ∧
      arguments img s name sig.params actuals = .ok bindings ∧ s.depth < cfg.maxCallDepth ∧
      plan = .effect (.enter sig
        (callee.receiver.toList.map (fun b => (receiverName, b)) ++ bindings)) := by
  obtain ⟨callee, hcallee, h⟩ := Except.bind_eq_ok_iff.mp h
  split at h
  · cases h
  · next sig hsig =>
    split at h
    · cases h
    · next harity =>
      obtain ⟨bindings, hbindings, h⟩ := Except.bind_eq_ok_iff.mp h
      split at h
      · cases h
      · next hroom =>
        cases h
        exact ⟨callee, sig, bindings, hcallee, hsig, Decidable.not_not.mp harity, hbindings,
          Nat.lt_of_not_le hroom, rfl⟩

theorem giveBack_eq_ok (h : giveBack img s args = .ok plan) :
    ∃ type, resultType? img s = some type ∧
      (plan = .effect (.leave none (some type)) ∨
        ∃ v, type ≠ .void ∧ returnValue img s type args = .ok v ∧
          plan = .effect (.leave (some v) (some type))) := by
  rw [giveBack] at h
  split at h
  · cases h
  · next type htype =>
    refine ⟨type, htype, ?_⟩
    split at h
    · cases h
      exact .inl rfl
    · split at h
      · cases h
      · next hvoid =>
        obtain ⟨v, hv, h⟩ := Except.bind_eq_ok_iff.mp h
        cases h
        exact .inr ⟨v, hvoid, hv, rfl⟩

theorem lambda_eq_ok (h : lambda img s = .ok plan) :
    ∃ id, img.functions.lookup? (lambdaName s.ip) = some id ∧
      plan = .effect (.capture id (after .endLambda (img.program.blockEnd? .endLambda s.ip))) := by
  rw [lambda] at h
  split at h
  · cases h
  · next id hid =>
    cases h
    exact ⟨id, hid, rfl⟩

/-- A call of a name that is not built in, or a plan that goes on with the next line. -/
theorem invocation_eq_ok (h : invocation img cfg s args = .ok plan) :
    (∃ name actuals, call img cfg s name actuals = .ok plan ∧
      args = name :: actuals ∧ Builtin.ofText? name = none) ∨
    ∃ b actuals, builtin img s b actuals = .ok plan := by
  rw [invocation.eq_def] at h
  split at h
  · cases h
  · split at h
    · exact .inr ⟨_, _, h⟩
    · next hname => exact .inl ⟨_, _, h, rfl, hname⟩

theorem builtin_eq_ok {b : Builtin} (h : builtin img s b args = .ok plan) :
    (∃ text, plan = .print text) ∨ (∃ prompt, plan = .input prompt) ∨
      ∃ n, plan = .effect (.publish (.int n)) := by
  rw [builtin.eq_def] at h
  split at h
  · cases h
  · obtain ⟨text, -, h⟩ := Except.bind_eq_ok_iff.mp h
    cases h
    exact .inl ⟨text, rfl⟩
  · cases h
    exact .inr (.inl ⟨none, rfl⟩)
  · obtain ⟨text, -, h⟩ := Except.bind_eq_ok_iff.mp h
    cases h
    exact .inr (.inl ⟨some text, rfl⟩)
  · obtain ⟨v, -, h⟩ := Except.bind_eq_ok_iff.mp h
    split at h
    · obtain ⟨n, -, h⟩ := Except.bind_eq_ok_iff.mp h
      cases h
      exact .inr (.inr ⟨n, rfl⟩)
    · cases h
  · cases h

theorem straight_declaration (h : declaration args = .ok plan) : plan.Straight := by
  obtain ⟨type, names, rfl⟩ := declaration_eq_ok h
  exact .declare type names

theorem straight_assignment (h : assignment img s args = .ok plan) : plan.Straight := by
  rcases assignment_eq_ok h with ⟨_, field, _, o, v, -, -, rfl⟩ | ⟨_, _, cell, v, -, -, -, rfl⟩
  · exact .storeField o field v
  · exact .store cell v

theorem straight_builtin {b : Builtin} (h : builtin img s b args = .ok plan) : plan.Straight := by
  rcases builtin_eq_ok h with ⟨text, rfl⟩ | ⟨prompt, rfl⟩ | ⟨n, rfl⟩
  · exact .print text
  · exact .input prompt
  · exact .publish (.int n)

end Plan

/-! ### What a call passes -/

/-- The cell of the caller that a parameter shares, if it shares one. -/
def State.shared? (s : State) (param : Param) (actual : String) : Option CellId :=
  if param.type.isReference then s.scopes.cell? actual else none

theorem State.shared?_eq_some {param : Param} {actual : String} {c : CellId} :
    s.shared? param actual = some c ↔
      param.type.isReference = true ∧ s.scopes.cell? actual = some c := by
  rw [shared?]
  split
  · next h => simp [h]
  · next h => simp [h]

/-- The binding to a cell that is shared, else to a new one. -/
def Binding.shareOr (v : Value) : Option CellId → Binding
  | some cell => .shared cell
  | none => .fresh v

/-- An argument has the kind of its parameter, and the parameter is bound to the variable
it shares or to the value. -/
theorem Plan.argument_eq_ok {callee actual : String} {param : Param} {b : Binding}
    (h : Plan.argument img s callee param actual = .ok b) :
    ∃ v, Operand.resolve img s actual = .ok v ∧ v.kind = param.type.kind ∧
      b = .shareOr v (s.shared? param actual) := by
  obtain ⟨v, hv, h⟩ := Except.bind_eq_ok_iff.mp h
  refine ⟨v, hv, ?_⟩
  split at h
  · cases h
  · next hkind =>
    refine ⟨Decidable.not_not.mp hkind, ?_⟩
    rw [State.shared?]
    split at h
    · next hreference =>
      rw [if_pos hreference]
      split at h
      · next hcell =>
        cases h
        rw [hcell]
        rfl
      · next hcell =>
        cases h
        rw [hcell]
        rfl
    · next hvalue =>
      cases h
      rw [if_neg hvalue]
      rfl

/-- The bindings of the parameters, one after the other. -/
theorem Plan.arguments_eq_ok {callee : String} {params : List Param} {actuals : List String}
    {bindings : List (String × Binding)}
    (h : Plan.arguments img s callee params actuals = .ok bindings) :
    List.Forall₂ (fun q b => b.1 = q.1.name ∧ Plan.argument img s callee q.1 q.2 = .ok b.2)
      (params.zip actuals) bindings := by
  induction params generalizing actuals bindings with
  | nil =>
    cases h
    exact .nil
  | cons param params ih =>
    cases actuals with
    | nil =>
      cases h
      exact .nil
    | cons actual actuals =>
      obtain ⟨b, hb, h⟩ := Except.bind_eq_ok_iff.mp h
      obtain ⟨rest, hrest, h⟩ := Except.bind_eq_ok_iff.mp h
      cases h
      exact .cons ⟨rfl, hb⟩ (ih hrest)

theorem Operand.receiver_eq (s : State) (owner : String) (o : ObjId) :
    Operand.receiver s owner o = .shareOr (.object o) (s.scopes.cell? owner) := by
  rw [receiver]
  split
  · next hcell =>
    rw [hcell]
    rfl
  · next hcell =>
    rw [hcell]
    rfl

/-- A method is called on the object that its owner denotes, and other functions on none. -/
theorem Operand.receiver_of_callee {target : String} {callee : Operand.Callee}
    (h : Operand.callee img s target = .ok callee) :
    (path? target = none ∧ callee.receiver = none) ∨
    ∃ owner method o, path? target = some (owner, method) ∧
      resolveObject img s owner = .ok o ∧ callee.receiver = some (receiver s owner o) := by
  rw [Operand.callee] at h
  split at h
  · next owner method hpath =>
    obtain ⟨o, ho, h⟩ := Except.bind_eq_ok_iff.mp h
    split at h
    · cases h
    · obtain ⟨id, -, h⟩ := Except.bind_eq_ok_iff.mp h
      cases h
      exact .inr ⟨owner, method, o, hpath, ho, rfl⟩
  · next hpath =>
    refine .inl ⟨hpath, ?_⟩
    split at h
    · obtain ⟨id, -, h⟩ := Except.bind_eq_ok_iff.mp h
      cases h
      rfl
    · split at h <;> cases h
      rfl

/-! ### All plans -/

/-- The plans a line can have, each with what was found out about the state. -/
inductive Planned (img : Image) (cfg : Config) (s : State) : Plan → Prop
  | blank : Planned img cfg s (.effect (.goto (s.ip + 1)))
  | declare {type : DeclaredType} {names : List String}
      (here : img.program.keyword? s.ip = some .var) :
      Planned img cfg s (.effect (.declare type names))
  | store {target : String} {tokens : List String} {cell : CellId} {v : Value}
      (here : img.program.keyword? s.ip = some .assign)
      (bound : s.scopes.cell? target = some cell)
      (value : Expression.eval img s tokens = .ok v)
      (kind : (s.scopes.read cell).kind = v.kind) : Planned img cfg s (.effect (.store cell v))
  | storeField {owner field : String} {tokens : List String} {o : ObjId} {v : Value}
      (here : img.program.keyword? s.ip = some .assign)
      (object : Operand.resolveObject img s owner = .ok o)
      (value : Expression.eval img s tokens = .ok v) :
      Planned img cfg s (.effect (.storeField o field v))
  | convert {n : Int64} (here : img.program.keyword? s.ip = some .call) :
      Planned img cfg s (.effect (.publish (.int n)))
  | print {text : String} (here : img.program.keyword? s.ip = some .call) :
      Planned img cfg s (.print text)
  | input {prompt : Option String} (here : img.program.keyword? s.ip = some .call) :
      Planned img cfg s (.input prompt)
  | call {name : String} {actuals : List String} {callee : Operand.Callee} {sig : Signature}
      {bindings : List (String × Binding)} (here : img.program.keyword? s.ip = some .call)
      (target : (img.program.line s.ip).tokens.tail = name :: actuals)
      (user : Builtin.ofText? name = none) (resolved : Operand.callee img s name = .ok callee)
      (found : img.functions.signature? callee.id = some sig)
      (arity : sig.params.length = actuals.length)
      (passed : Plan.arguments img s name sig.params actuals = .ok bindings)
      (room : s.depth < cfg.maxCallDepth) :
      Planned img cfg s (.effect (.enter sig
        (callee.receiver.toList.map (fun b => (receiverName, b)) ++ bindings)))
  | taken (here : img.program.keyword? s.ip = some .branch ∨
        img.program.keyword? s.ip = some .loop) :
      Planned img cfg s (.effect (.openBlock (s.ip + 1)))
  | other {last : Nat} (here : img.program.keyword? s.ip = some .branch)
      (past : img.program.branchEnd? s.ip = some last)
      (second : img.program.keyword? last = some .otherwise) :
      Planned img cfg s (.effect (.openBlock (last + 1)))
  | skipped {last : Nat} (here : img.program.keyword? s.ip = some .branch)
      (past : img.program.branchEnd? s.ip = some last)
      (single : img.program.keyword? last ≠ some .otherwise) :
      Planned img cfg s (.effect (.goto (last + 1)))
  | finished {last : Nat} (here : img.program.keyword? s.ip = some .loop)
      (past : img.program.loopEnd? s.ip = some last) :
      Planned img cfg s (.effect (.goto (last + 1)))
  | closing {k : Keyword} (here : img.program.keyword? s.ip = some k)
      (kind : k = .otherwise ∨ k = .endBranch ∨ k = .endLoop)
      (inside : s.scopes.current.inner ≠ []) :
      Planned img cfg s (.effect (.closeBlock (Plan.blockExit img s k)))
  | capture {id : FuncId} (here : img.program.keyword? s.ip = some .lambda)
      (found : img.functions.lookup? (lambdaName s.ip) = some id) :
      Planned img cfg s (.effect (.capture id
        (Plan.after .endLambda (img.program.blockEnd? .endLambda s.ip))))
  | leave {type : DeclaredType} (here : img.program.keyword? s.ip = some .ret)
      (inside : Plan.resultType? img s = some type) :
      Planned img cfg s (.effect (.leave none (some type)))
  | giveBack {type : DeclaredType} {v : Value} (here : img.program.keyword? s.ip = some .ret)
      (inside : Plan.resultType? img s = some type) (nonvoid : type ≠ .void)
      (value : Plan.returnValue img s type (img.program.line s.ip).tokens.tail = .ok v) :
      Planned img cfg s (.effect (.leave (some v) (some type)))
  | endFunc (here : img.program.keyword? s.ip = some .endFunc) :
      Planned img cfg s (.effect (.leave none (img.functions.functionResult? s.ip)))
  | endLambda (here : img.program.keyword? s.ip = some .endLambda) :
      Planned img cfg s (.effect (.leave none (img.functions.lambdaResult? s.ip)))

/-- There are no other plans. -/
theorem planned_of_next (h : Plan.next img cfg s = .ok plan) : Planned img cfg s plan := by
  obtain ⟨-, ⟨-, rfl⟩ | ⟨key, here, h⟩⟩ := next_eq_ok h
  · exact .blank
  cases key with
  | var =>
    obtain ⟨type, names, rfl⟩ := Plan.declaration_eq_ok h
    exact .declare here
  | assign =>
    rcases Plan.assignment_eq_ok h with ⟨_, _, _, _, _, ho, hv, rfl⟩ | ⟨_, _, _, _, hc, hv, hk, rfl⟩
    · exact .storeField here ho hv
    · exact .store here hc hv hk
  | call =>
    rcases Plan.invocation_eq_ok h with ⟨_, _, hcall, htarget, huser⟩ | ⟨_, _, hbuiltin⟩
    · obtain ⟨_, _, _, hcallee, hsig, harity, hpassed, hroom, rfl⟩ := Plan.call_eq_ok hcall
      exact .call here htarget huser hcallee hsig harity hpassed hroom
    · rcases Plan.builtin_eq_ok hbuiltin with ⟨text, rfl⟩ | ⟨prompt, rfl⟩ | ⟨n, rfl⟩
      · exact .print here
      · exact .input here
      · exact .convert here
  | branch =>
    rcases Plan.branch_eq_ok h with rfl | ⟨last, hlast, rfl⟩
    · exact .taken (.inl here)
    · split
      · next hk => exact .other here hlast hk
      · next hk => exact .skipped here hlast hk
  | loop =>
    rcases Plan.loop_eq_ok h with rfl | ⟨last, hlast, rfl⟩
    · exact .taken (.inr here)
    · exact .finished here hlast
  | otherwise =>
    obtain ⟨hinside, rfl⟩ := Plan.closing_eq_ok h
    exact .closing here (.inl rfl) hinside
  | endBranch =>
    obtain ⟨hinside, rfl⟩ := Plan.closing_eq_ok h
    exact .closing here (.inr (.inl rfl)) hinside
  | endLoop =>
    obtain ⟨hinside, rfl⟩ := Plan.closing_eq_ok h
    exact .closing here (.inr (.inr rfl)) hinside
  | ret =>
    obtain ⟨type, htype, rfl | ⟨v, hvoid, hv, rfl⟩⟩ := Plan.giveBack_eq_ok h
    · exact .leave here htype
    · exact .giveBack here htype hvoid hv
  | endFunc =>
    cases h
    exact .endFunc here
  | lambda =>
    obtain ⟨id, hid, rfl⟩ := Plan.lambda_eq_ok h
    exact .capture here hid
  | endLambda =>
    cases h
    exact .endLambda here
  | func => cases h

/-! ### Effects that fail -/

section
variable {cause : Cause}

theorem Plan.missing_of_after {marker : Keyword} {found : Option Nat}
    (h : Plan.after marker found = .error cause) : cause = .missingMarker marker := by
  cases found with
  | none =>
    cases h
    rfl
  | some line => cases h

theorem Plan.missing_of_blockExit {k : Keyword} (h : Plan.blockExit img s k = .error cause) :
    ∃ marker, cause = .missingMarker marker := by
  rw [Plan.blockExit.eq_def] at h
  split at h
  · exact ⟨_, Plan.missing_of_after h⟩
  · split at h
    · cases h
    · cases h
      exact ⟨_, rfl⟩
  · cases h

theorem State.redefinition_of_declare {type : DeclaredType} {names : List String}
    (h : (s.declare type names).error = some cause) : ∃ name, cause = .redefinition name := by
  induction names generalizing s with
  | nil => cases h
  | cons name rest ih =>
    rw [declare_cons] at h
    split at h
    · cases h
      exact ⟨name, rfl⟩
    · exact ih h

theorem State.error_of_goOn {next : Except Cause Nat} (h : (s.goOn next).error = some cause) :
    next = .error cause := by
  cases next with
  | ok line => cases h
  | error cause' =>
    cases h
    rfl

/-- What was planned fails only for a name that is taken or a marker that is missing. -/
theorem Planned.error_cases {e : Effect} (hplan : Planned img cfg s (.effect e))
    (h : (e.apply img.functions s).error = some cause) :
    (∃ name, cause = .redefinition name) ∨ ∃ marker, cause = .missingMarker marker := by
  cases hplan with
  | declare =>
    rw [Effect.apply] at h
    split at h
    · exact .inl (State.redefinition_of_declare h)
    · cases h
  | closing => exact .inr (Plan.missing_of_blockExit (State.error_of_goOn h))
  | capture => exact .inr ⟨_, Plan.missing_of_after (State.error_of_goOn h)⟩
  | _ => cases h

end

/-! ### Steps -/

/-- The console refuses what a plan asks for: to write a text or a prompt, or to read once the
prompt is written. It does so with the error. -/
inductive Console.Refuses {σ : Type} (con : Console σ) (w : σ) : Plan → Diagnostic → Prop
  | print {text : String} {error : Diagnostic} (failed : (con.write w text).1 = .error error) :
      Refuses con w (.print text) error
  | prompt {text : String} {error : Diagnostic} (failed : (con.write w text).1 = .error error) :
      Refuses con w (.input (some text)) error
  | read {error : Diagnostic} (failed : (con.read w).1 = .error error) :
      Refuses con w (.input none) error
  | answer {text : String} {w₁ : σ} {error : Diagnostic}
      (written : con.write w text = (.ok (), w₁)) (failed : (con.read w₁).1 = .error error) :
      Refuses con w (.input (some text)) error

/-- A step that succeeds carries out a plan. -/
theorem step_eq_ok {σ : Type} {con : Console σ} {s' : State} {w w' : σ}
    (h : (step img cfg s).run con w = (⟨s', none⟩, w')) :
    ∃ plan, Plan.next img cfg s = .ok plan ∧
      (plan.dialogue img.functions s).run con w = (⟨s', none⟩, w') := by
  rw [step] at h
  split at h
  · cases h
  · next plan hplan => exact ⟨plan, hplan, h⟩

/-- Input that was asked for arrives, or the console refuses it. -/
theorem State.receive_cases {σ : Type} {con : Console σ} {o : Outcome} {w w' : σ}
    (h : (s.receive (con.read w).1, (con.read w).2) = (o, w')) :
    (∃ error, (con.read w).1 = .error error ∧ o = ⟨s, some (.console error)⟩) ∨
    ∃ line, o = { state := (s.publish (.str line)).advance } := by
  cases hanswer : (con.read w).1 with
  | ok line =>
    rw [hanswer] at h
    cases h
    exact .inr ⟨line, rfl⟩
  | error error =>
    rw [hanswer] at h
    cases h
    exact .inl ⟨error, rfl, rfl⟩

/-- What a line leaves, whether it succeeds or fails: the outcome of an effect; the state
it found, with the reason why it has no plan or with the error of a console that refused;
or that state after a line was written or read. -/
theorem outcome_cases {σ : Type} {con : Console σ} {o : Outcome} {w w' : σ}
    (h : (step img cfg s).run con w = (o, w')) :
    (∃ e, Plan.next img cfg s = .ok (.effect e) ∧ o = e.apply img.functions s) ∨
    (∃ cause, o = ⟨s, some cause⟩ ∧ (Plan.next img cfg s = .error cause ∨
      ∃ plan error, Plan.next img cfg s = .ok plan ∧ con.Refuses w plan error ∧
        cause = .console error)) ∨
    s.ip < img.program.size ∧ (o = { state := s.advance } ∨
      ∃ line, o = { state := (s.publish (.str line)).advance }) := by
  rw [step] at h
  split at h
  · next cause hplan =>
    cases h
    exact .inr (.inl ⟨cause, rfl, .inl hplan⟩)
  · next plan hplan =>
    have hip := (next_eq_ok hplan).1
    cases plan with
    | effect e => exact .inl ⟨e, hplan, (Prod.mk.inj h).1.symm⟩
    | print text =>
      simp only [Plan.dialogue, Dialogue.run] at h
      split at h <;> cases h
      · exact .inr (.inr ⟨hip, .inl rfl⟩)
      · next error hanswer =>
        exact .inr (.inl ⟨_, rfl, .inr ⟨_, error, hplan, .print hanswer, rfl⟩⟩)
    | input prompt =>
      -- A prompt that could be written makes no difference to the state.
      refine .inr ?_
      cases prompt with
      | none =>
        rcases State.receive_cases h with ⟨error, hanswer, rfl⟩ | hline
        · exact .inl ⟨_, rfl, .inr ⟨_, error, hplan, .read hanswer, rfl⟩⟩
        · exact .inr ⟨hip, .inr hline⟩
      | some text =>
        simp only [Plan.dialogue, Dialogue.run] at h
        split at h
        · next hwritten =>
          rcases State.receive_cases h with ⟨error, hanswer, rfl⟩ | hline
          · have hwrite : con.write w text = (.ok (), (con.write w text).2) :=
              Prod.ext hwritten rfl
            exact .inl ⟨_, rfl, .inr ⟨_, error, hplan, .answer hwrite hanswer, rfl⟩⟩
          · exact .inr ⟨hip, .inr hline⟩
        · next error hanswer =>
          cases h
          exact .inl ⟨_, rfl, .inr ⟨_, error, hplan, .prompt hanswer, rfl⟩⟩

/-- What a step that succeeds may have done: applied an effect, written a line, or read
one. -/
theorem step_cases {σ : Type} {con : Console σ} {s' : State} {w w' : σ}
    (h : (step img cfg s).run con w = (⟨s', none⟩, w')) :
    (∃ e, Plan.next img cfg s = .ok (.effect e) ∧ e.apply img.functions s = ⟨s', none⟩) ∨
    s' = s.advance ∨ ∃ line, s' = (s.publish (.str line)).advance := by
  rcases outcome_cases h with ⟨e, hplan, happly⟩ | ⟨cause, hfail, -⟩ | ⟨-, hadvance | ⟨line, hread⟩⟩
  · exact .inl ⟨e, hplan, happly.symm⟩
  · cases hfail
  · exact .inr (.inl (Outcome.mk.inj hadvance).1)
  · exact .inr (.inr ⟨line, (Outcome.mk.inj hread).1⟩)

end LineScript
