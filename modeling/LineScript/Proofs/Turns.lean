/-
What one line can do to the calls and to the variables.

A line works in the current frame, or it opens a frame for a call, or it leaves one.
`Turn` says so once, for lines that fail as well as for lines that succeed; whatever
holds of frames, cells and lines to resume at is a case analysis over it
(`turn_of_step`). Work in the current frame is a row of single changes
(`ScopeStack.Edit`), and a cell is only ever written through a name that the frame has.
-/
import LineScript.Proofs.Planned
import Mathlib.Logic.Relation

namespace LineScript

/-! ### Changes to the current frame -/

namespace ScopeStack

/-- One change to the variables of the current frame. -/
inductive Edit : ScopeStack → ScopeStack → Prop
  | nestBlock (c : ScopeStack) : Edit c c.nestBlock
  | unnestBlock {c c' : ScopeStack} (h : c.unnestBlock? = some c') : Edit c c'
  | define (c : ScopeStack) (name : String) (v : Value) : Edit c (c.define name v)
  | publish (c : ScopeStack) (name : String) (v : Value) : Edit c (c.publish name v)
  | write {c : ScopeStack} {name : String} {cell : CellId} (bound : c.cell? name = some cell)
      (v : Value) : Edit c (c.write cell v)

/-- The second stack comes from the first in a row of such changes. -/
def Edits : ScopeStack → ScopeStack → Prop := Relation.ReflTransGen Edit

theorem Edit.suspended {c c' : ScopeStack} (h : Edit c c') : c'.suspended = c.suspended := by
  cases h with
  | nestBlock => rfl
  | unnestBlock h =>
    rw [unnestBlock?] at h
    split at h <;> cases h
    rfl
  | define => rfl
  | publish name v => exact c.suspended_publish name v
  | write => rfl

theorem Edits.suspended {c c' : ScopeStack} (h : Edits c c') : c'.suspended = c.suspended := by
  induction h with
  | refl => rfl
  | tail _ edit ih => exact edit.suspended.trans ih

/-- The second stack has at most one result more than the first, under the name for
results of its kind. -/
inductive Published (c : ScopeStack) : ScopeStack → Prop
  | nothing : Published c c
  | result {kind : Kind} {name : String} (v : Value) (named : kind.resultName? = some name) :
      Published c (c.publish name v)

theorem Published.edits {c c' : ScopeStack} (h : Published c c') : Edits c c' := by
  cases h with
  | nothing => exact .refl
  | result v => exact .single (.publish _ _ v)

end ScopeStack

section
open ScopeStack (Edits Published)

variable {img : Image} {cfg : Config} {s : State}

/-- Publishing changes the variables by the result at most. -/
theorem State.published_publish (s : State) (v : Value) :
    Published s.scopes (s.publish v).scopes := by
  rw [publish]
  split
  · exact .nothing
  · next named =>
    split
    · exact .result _ named
    · exact .result _ named

theorem State.published_publishResult (s : State) (v : Option Value)
    (declared : Option DeclaredType) :
    Published s.scopes (s.publishResult v declared).scopes := by
  cases v with
  | some v => exact s.published_publish v
  | none =>
    cases declared with
    | none => exact .nothing
    | some type =>
      rw [publishResult_none]
      split
      · exact .nothing
      · exact (s.withDefault type).published_publish _

/-- A call notes the next line to resume at. -/
theorem State.returns_enter (s : State) (functions : FunctionTable) (sig : Signature)
    (bindings : List (String × Binding)) :
    (s.enter functions sig bindings).returns = s.returns.push (s.ip + 1) :=
  (s.settled_enter functions sig bindings).1.returns

/-- The way back drops the line at which the machine resumes. -/
theorem State.returns_leave (s : State) (v : Option Value) (declared : Option DeclaredType) :
    (s.leave v declared).returns = s.returns.pop := by
  cases hback : s.returns.back? with
  | none =>
    have hempty : s.returns = #[] := by simpa using hback
    rw [leave_of_none hback, hempty]
    rfl
  | some resume =>
    rw [leave_of_some hback]
    exact (s.unwound.settled_publishResult v declared).returns

theorem State.edits_publish (s : State) (v : Value) : Edits s.scopes (s.publish v).scopes :=
  (s.published_publish v).edits

theorem State.edits_declare (s : State) (type : DeclaredType) (names : List String) :
    Edits s.scopes (s.declare type names).state.scopes := by
  induction names generalizing s with
  | nil => exact .refl
  | cons name rest ih =>
    rw [declare_cons]
    split
    · exact .refl
    · have hone : Edits s.scopes (s.withVariable type name).scopes := .single (.define _ _ _)
      exact hone.trans (ih (s.withVariable type name))

theorem State.edits_unnestBlock (s : State) :
    Edits s.scopes (s.scopes.unnestBlock?.getD s.scopes) := by
  cases hunnest : s.scopes.unnestBlock? with
  | none => exact .refl
  | some scopes => exact .single (.unnestBlock hunnest)

/-! ### Turns -/

/-- What a line can do: it stays in its frame, or it calls, or it goes back. -/
inductive Turn (img : Image) (cfg : Config) (s : State) : State → Prop
  | stay {s' : State} (returns : s'.returns = s.returns) (edits : Edits s.scopes s'.scopes)
      (ip : s'.ip = s.ip ∨ s'.ip ≤ img.program.size) : Turn img cfg s s'
  | enter {sig : Signature} {bindings : List (String × Binding)}
      (call : Plan.next img cfg s = .ok (.effect (.enter sig bindings))) :
      Turn img cfg s (s.enter img.functions sig bindings)
  | leave (v : Option Value) (declared : Option DeclaredType) : Turn img cfg s (s.leave v declared)

theorem Plan.after_le {p : Program} {judge : SourceLine → Program.Verdict} {marker : Keyword}
    {n line : Nat} (h : Plan.after marker (p.searchAfter judge n) = .ok line) : line ≤ p.size := by
  cases hsearch : p.searchAfter judge n with
  | none =>
    rw [hsearch] at h
    cases h
  | some last =>
    rw [hsearch] at h
    cases h
    exact (Program.searchAfter_range hsearch).2

/-- The end of a block leads to a line of the program, or just past the last one. -/
theorem Plan.blockExit_le {k : Keyword} {line : Nat} (hip : s.ip < img.program.size)
    (h : Plan.blockExit img s k = .ok line) : line ≤ img.program.size := by
  rw [Plan.blockExit.eq_def] at h
  split at h
  · exact Plan.after_le h
  · split at h
    · next hstart =>
      cases h
      have hlt := Program.searchBefore_lt hstart
      omega
    · cases h
  · cases h
    omega

/-- A state goes on at a line of the program, or stays with an error. -/
theorem Turn.goOn {s' : State} {next : Except Cause Nat} (returns : s'.returns = s.returns)
    (edits : Edits s.scopes s'.scopes) (ip : s'.ip = s.ip)
    (hnext : ∀ line, next = .ok line → line ≤ img.program.size) :
    Turn img cfg s (s'.goOn next).state := by
  cases next with
  | ok line => exact .stay returns edits (.inr (hnext line rfl))
  | error cause => exact .stay returns edits (.inl ip)

theorem turn_of_effect {e : Effect} (h : Plan.next img cfg s = .ok (.effect e)) :
    Turn img cfg s (e.apply img.functions s).state := by
  have hip := (next_eq_ok h).1
  cases planned_of_next h with
  | blank => exact .stay rfl .refl (.inr hip)
  | @declare type names =>
    obtain ⟨hsettled, hsame⟩ := s.settled_declare type names
    have hedits := s.edits_declare type names
    rw [Effect.apply]
    split
    · exact .stay hsettled.returns hedits (.inl hsame)
    · exact .stay hsettled.returns hedits (.inr (by rw [State.advance, hsame]; exact hip))
  | store _ bound => exact .stay rfl (.single (.write bound _)) (.inr hip)
  | storeField => exact .stay rfl .refl (.inr hip)
  | @convert n =>
    refine .stay (s.settled_publish (.int n)).returns (s.edits_publish (.int n)) (.inr ?_)
    show (s.publish (.int n)).ip + 1 ≤ img.program.size
    rw [s.ip_publish]
    exact hip
  | call => exact .enter h
  | taken => exact .stay rfl (.single (.nestBlock _)) (.inr hip)
  | other _ past => exact .stay rfl (.single (.nestBlock _)) (.inr (Program.searchAfter_range past).2)
  | skipped _ past => exact .stay rfl .refl (.inr (Program.searchAfter_range past).2)
  | finished _ past => exact .stay rfl .refl (.inr (Program.searchAfter_range past).2)
  | closing => exact .goOn rfl s.edits_unnestBlock rfl fun _ => Plan.blockExit_le hip
  | @capture id =>
    exact .goOn (s.settled_captureFor id).returns (s.withCapture.edits_publish _)
      (by rw [State.captureFor_eq, State.ip_publish]; rfl) fun _ => Plan.after_le
  | leave => exact .leave _ _
  | giveBack => exact .leave _ _
  | endFunc => exact .leave _ _
  | endLambda => exact .leave _ _

/-- Every line takes such a turn. -/
theorem turn_of_step {σ : Type} {con : Console σ} {w w' : σ} {o : Outcome}
    (h : (step img cfg s).run con w = (o, w')) : Turn img cfg s o.state := by
  rcases outcome_cases h with ⟨e, hplan, rfl⟩ | ⟨_, rfl, -⟩ | ⟨hip, rfl | ⟨line, rfl⟩⟩
  · exact turn_of_effect hplan
  · exact .stay rfl .refl (.inl rfl)
  · exact .stay rfl .refl (.inr hip)
  · refine .stay (s.settled_publish (.str line)).returns (s.edits_publish (.str line)) (.inr ?_)
    show (s.publish (.str line)).ip + 1 ≤ img.program.size
    rw [s.ip_publish]
    exact hip

end

end LineScript
