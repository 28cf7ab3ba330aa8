/-
One line, and lines one after the other.

`perform` carries out a statement that is already scanned; a step is `perform` of
what stands at the instruction pointer (`step_of_keyword`), or one line further on
(`step_of_blank`). `Steps during` is a row of steps that all succeed, each taken in
a state of the kind `during`. A run goes on while it is not terminated; so
`Machine.Reached`, the states of a run, is the row of steps from its first state.

Most lines leave the calls and the blocks as they are; `Settled` collects what they
have in common.
-/
import LineScript.Machine.Run
import LineScript.Proofs.Loading
import LineScript.Proofs.Statements

namespace LineScript

variable {img : Image} {cfg : Config} {s s' : State} {k : Keyword} {args : List String}

/-! ### A statement -/

/-- Carries out a statement. -/
def perform (img : Image) (cfg : Config) (k : Keyword) (args : List String) (s : State) :
    Dialogue Outcome :=
  match Plan.statement img cfg s k args with
  | .error cause => .done { state := s, error := some cause }
  | .ok plan => plan.dialogue img.functions s

theorem perform_of_effect {e : Effect}
    (h : Plan.statement img cfg s k args = .ok (.effect e)) :
    perform img cfg k args s = .done (e.apply img.functions s) := by
  rw [perform, h]
  rfl

theorem Keyword.text_of_ofText? {word : String} (h : Keyword.ofText? word = some k) :
    word = k.text := by
  rw [Keyword.ofText?.eq_def] at h
  split at h <;> cases h <;> rfl

/-- The tokens of a line with a keyword. -/
theorem Program.tokens_of_keyword? {p : Program} {n : Nat} (h : p.keyword? n = some k) :
    (p.line n).tokens = k.text :: (p.line n).tokens.tail := by
  rw [keyword?, SourceLine.keyword?, SourceLine.word?] at h
  cases ht : (p.line n).tokens with
  | nil =>
    rw [ht] at h
    cases h
  | cons word rest =>
    rw [ht] at h
    rw [Keyword.text_of_ofText? h, List.tail_cons]

theorem next_of_keyword (h : img.program.keyword? s.ip = some k) :
    Plan.next img cfg s = Plan.statement img cfg s k (img.program.line s.ip).tokens.tail := by
  have hlt := Program.lt_size_of_keyword? h
  rw [Plan.next, if_neg (by omega), Program.tokens_of_keyword? h]
  simp only [Keyword.ofText?_text, List.tail_cons]

theorem next_of_blank (hlt : s.ip < img.program.size)
    (h : (img.program.line s.ip).isBlank = true) :
    Plan.next img cfg s = .ok (.effect (.goto (s.ip + 1))) := by
  rw [SourceLine.isBlank, List.isEmpty_iff] at h
  rw [Plan.next, if_neg (by omega), h]

/-- A step at a line with a keyword carries out its statement. -/
theorem step_of_keyword (h : img.program.keyword? s.ip = some k) :
    step img cfg s = perform img cfg k (img.program.line s.ip).tokens.tail s := by
  cases hplan : Plan.statement img cfg s k (img.program.line s.ip).tokens.tail with
  | error cause => simp only [step, perform, next_of_keyword h, hplan]
  | ok plan => simp only [step, perform, next_of_keyword h, hplan]

theorem step_of_blank (hlt : s.ip < img.program.size)
    (h : (img.program.line s.ip).isBlank = true) :
    step img cfg s = .done { state := s.advance } := by
  rw [step, next_of_blank hlt h]
  rfl

/-- Every plan is that of an empty line or of a statement. -/
theorem next_eq_ok {plan : Plan} (h : Plan.next img cfg s = .ok plan) :
    s.ip < img.program.size ∧
      (((img.program.line s.ip).isBlank = true ∧ plan = .effect (.goto (s.ip + 1))) ∨
        ∃ k, img.program.keyword? s.ip = some k ∧
          Plan.statement img cfg s k (img.program.line s.ip).tokens.tail = .ok plan) := by
  rw [Plan.next] at h
  split at h
  · cases h
  · next hlt =>
    refine ⟨by omega, ?_⟩
    split at h
    · next htokens =>
      cases h
      exact .inl ⟨by rw [SourceLine.isBlank, htokens]; rfl, rfl⟩
    · next word rest htokens =>
      split at h
      · next k hk =>
        refine .inr ⟨k, ?_, by rw [htokens]; exact h⟩
        rw [Program.keyword?, SourceLine.keyword?, SourceLine.word?, htokens]
        exact hk
      · cases h

/-! ### Rows of steps -/

section
variable {σ : Type} (img : Image) (cfg : Config) (con : Console σ)

/-- A row of steps that succeed, each from a state of the kind `during`. -/
inductive Steps (during : State → Prop) (s : State) (w : σ) : State → σ → Prop
  | refl : Steps during s w s w
  | tail {s' s'' : State} {w' w'' : σ} (row : Steps during s w s' w') (here : during s')
      (last : (step img cfg s').run con w' = (⟨s'', none⟩, w'')) : Steps during s w s'' w''

end

namespace Steps

variable {σ : Type} {con : Console σ} {during during' : State → Prop} {s s' s'' : State}
  {w w' w'' : σ}

theorem one (here : during s) (h : (step img cfg s).run con w = (⟨s', none⟩, w')) :
    Steps img cfg con during s w s' w' :=
  .tail .refl here h

theorem trans (h₁ : Steps img cfg con during s w s' w')
    (h₂ : Steps img cfg con during s' w' s'' w'') : Steps img cfg con during s w s'' w'' := by
  induction h₂ with
  | refl => exact h₁
  | tail _ here last ih => exact .tail ih here last

theorem mono (h : Steps img cfg con during s w s' w') (hsub : ∀ s, during s → during' s) :
    Steps img cfg con during' s w s' w' := by
  induction h with
  | refl => exact .refl
  | tail _ here last ih => exact .tail ih (hsub _ here) last

/-- What every step keeps, a row of steps keeps. -/
theorem invariant {P : State → Prop} (h : Steps img cfg con during s w s' w') (hs : P s)
    (hstep : ∀ {s s' : State} {w w' : σ}, during s → P s →
      (step img cfg s).run con w = (⟨s', none⟩, w') → P s') : P s' := by
  induction h with
  | refl => exact hs
  | tail _ here last ih => exact hstep here ih last

end Steps

/-! ### Lines that go on with the next one -/

/-- Neither the calls nor the number of blocks differ. -/
structure Settled (s s' : State) : Prop where
  returns : s'.returns = s.returns
  terminated : s'.terminated = s.terminated
  suspended : s'.scopes.suspended = s.scopes.suspended
  blocks : s'.scopes.current.inner.length = s.scopes.current.inner.length

theorem Settled.refl (s : State) : Settled s s := ⟨rfl, rfl, rfl, rfl⟩

theorem Settled.trans {s s' s'' : State} (h : Settled s s') (h' : Settled s' s'') :
    Settled s s'' :=
  ⟨h'.returns.trans h.returns, h'.terminated.trans h.terminated,
    h'.suspended.trans h.suspended, h'.blocks.trans h.blocks⟩

/-- Where a state goes on has no part in this. -/
theorem Settled.goto {s s' : State} (h : Settled s s') (next : Nat) :
    Settled s { s' with ip := next } :=
  ⟨h.returns, h.terminated, h.suspended, h.blocks⟩

namespace Frame

@[simp]
theorem length_inner_setInnermost (f : Frame) (block : Block) :
    (f.setInnermost block).inner.length = f.inner.length := by
  rw [setInnermost]
  split
  · next h => simp [h]
  · next h => simp [h]

end Frame

namespace ScopeStack

@[simp]
theorem suspended_publish (c : ScopeStack) (name : String) (v : Value) :
    (c.publish name v).suspended = c.suspended := by
  rw [publish]
  split <;> rfl

@[simp]
theorem inner_publish (c : ScopeStack) (name : String) (v : Value) :
    (c.publish name v).current.inner = c.current.inner := by
  rw [publish]
  split <;> rfl

/-- Bindings change the innermost block and the cells, nothing else. -/
theorem bindAll_eq (c : ScopeStack) (bindings : List (String × Binding)) :
    (c.bindAll bindings).suspended = c.suspended ∧
      (c.bindAll bindings).current.inner.length = c.current.inner.length := by
  induction bindings generalizing c with
  | nil => exact ⟨rfl, rfl⟩
  | cons b rest ih =>
    have hone : (c.bind b.1 b.2).suspended = c.suspended ∧
        (c.bind b.1 b.2).current.inner.length = c.current.inner.length := by
      cases b.2 with
      | fresh v => exact ⟨rfl, c.current.length_inner_setInnermost _⟩
      | shared cell => exact ⟨rfl, c.current.length_inner_setInnermost _⟩
    obtain ⟨hsuspended, hinner⟩ := ih (c.bind b.1 b.2)
    exact ⟨hsuspended.trans hone.1, hinner.trans hone.2⟩

end ScopeStack

namespace State

/-- Publishing changes objects and cells and, at most, the root block. -/
theorem publish_eq (s : State) (v : Value) :
    ∃ heap scopes, s.publish v = { s with heap, scopes } ∧
      scopes.suspended = s.scopes.suspended ∧ scopes.current.inner = s.scopes.current.inner := by
  rw [publish]
  split
  · exact ⟨s.heap, s.scopes, rfl, rfl, rfl⟩
  · split
    · exact ⟨_, _, rfl, by simp, by simp⟩
    · exact ⟨s.heap, _, rfl, by simp, by simp⟩

theorem settled_publish (s : State) (v : Value) : Settled s (s.publish v) := by
  obtain ⟨heap, scopes, hs, hsuspended, hinner⟩ := s.publish_eq v
  rw [hs]
  exact ⟨rfl, rfl, hsuspended, by rw [hinner]⟩

@[simp]
theorem ip_publish (s : State) (v : Value) : (s.publish v).ip = s.ip := by
  obtain ⟨heap, scopes, hs, -, -⟩ := s.publish_eq v
  rw [hs]

/-- The state with the variables captured. -/
def withCapture (s : State) : State :=
  { s with heap := (s.scopes.snapshot s.heap).2, capture := some (s.scopes.snapshot s.heap).1 }

theorem captureFor_eq (s : State) (id : FuncId) :
    s.captureFor id = s.withCapture.publish (.func (some id)) := rfl

theorem settled_captureFor (s : State) (id : FuncId) : Settled s (s.captureFor id) := by
  have h : Settled s s.withCapture := ⟨rfl, rfl, rfl, rfl⟩
  rw [captureFor_eq]
  exact h.trans (settled_publish _ _)

/-- The state with one more variable in the innermost block. -/
def withVariable (s : State) (type : DeclaredType) (name : String) : State :=
  { s with
    heap := (s.heap.default type).2, scopes := s.scopes.define name (s.heap.default type).1 }

theorem declare_cons (s : State) (type : DeclaredType) (name : String) (rest : List String) :
    s.declare type (name :: rest) =
      if s.scopes.current.innermost.contains name then
        { state := s, error := some (.redefinition name) }
      else (s.withVariable type name).declare type rest := rfl

theorem settled_declare (s : State) (type : DeclaredType) (names : List String) :
    Settled s (s.declare type names).state ∧ (s.declare type names).state.ip = s.ip := by
  induction names generalizing s with
  | nil => exact ⟨.refl s, rfl⟩
  | cons name rest ih =>
    rw [declare_cons]
    split
    · exact ⟨.refl s, rfl⟩
    · obtain ⟨hsettled, hip⟩ := ih (s.withVariable type name)
      have hone : Settled s (s.withVariable type name) :=
        ⟨rfl, rfl, rfl, by simp [withVariable, ScopeStack.define]⟩
      exact ⟨hone.trans hsettled, hip⟩

end State

/-- What goes on with the next line when it succeeds, and changes no call and no
block. -/
inductive Plan.Straight : Plan → Prop
  | declare (type : DeclaredType) (names : List String) : Straight (.effect (.declare type names))
  | store (cell : CellId) (v : Value) : Straight (.effect (.store cell v))
  | storeField (o : ObjId) (field : String) (v : Value) :
      Straight (.effect (.storeField o field v))
  | publish (v : Value) : Straight (.effect (.publish v))
  | print (text : String) : Straight (.print text)
  | input (prompt : Option String) : Straight (.input prompt)

/-- A straight plan that succeeds ends at the next line; one that fails stays at its
line. -/
theorem Plan.Straight.run_dialogue {σ : Type} {con : Console σ} {plan : Plan} (h : plan.Straight)
    {o : Outcome} {w w' : σ} (hrun : (plan.dialogue img.functions s).run con w = (o, w')) :
    Settled s o.state ∧ o.state.ip = (if o.error = none then s.ip + 1 else s.ip) := by
  have hreceive : ∀ answer : Except Diagnostic String,
      Settled s (s.receive answer).state ∧ (s.receive answer).state.ip =
        (if (s.receive answer).error = none then s.ip + 1 else s.ip) := by
    intro answer
    cases answer with
    | ok line => exact ⟨(s.settled_publish _).goto _, by simp [State.receive, State.advance]⟩
    | error reason => exact ⟨.refl s, by simp [State.receive]⟩
  cases h with
  | declare type names =>
    -- Variables that were made before a name was taken stay, but open no block.
    obtain ⟨hsettled, hip⟩ := s.settled_declare type names
    cases hrun
    rw [Effect.apply]
    split
    · next herror => exact ⟨hsettled, by rw [hip, if_neg (Option.isSome_iff_ne_none.mp herror)]⟩
    · exact ⟨hsettled.goto _, by simp [State.advance, hip]⟩
  | store cell v =>
    cases hrun
    exact ⟨⟨rfl, rfl, rfl, rfl⟩, rfl⟩
  | storeField o field v =>
    cases hrun
    exact ⟨⟨rfl, rfl, rfl, rfl⟩, rfl⟩
  | publish v =>
    cases hrun
    exact ⟨(s.settled_publish v).goto _, by simp [Effect.apply, State.advance]⟩
  | print text =>
    simp only [dialogue, Dialogue.run] at hrun
    split at hrun <;> cases hrun
    · exact ⟨⟨rfl, rfl, rfl, rfl⟩, rfl⟩
    · exact ⟨.refl s, rfl⟩
  | input prompt =>
    cases prompt with
    | none =>
      simp only [dialogue, Dialogue.run] at hrun
      cases hrun
      exact hreceive _
    | some text =>
      simp only [dialogue, Dialogue.run] at hrun
      split at hrun <;> cases hrun
      · exact hreceive _
      · exact ⟨.refl s, rfl⟩

/-! ### Lines that go elsewhere -/

namespace State

/-- Goes on at a line. -/
def goto (s : State) (line : Nat) : State := { s with ip := line }

/-- Opens a block and goes on at a line. -/
def openAt (s : State) (line : Nat) : State := { s with scopes := s.scopes.nestBlock, ip := line }

/-- Drops the innermost block and goes on at a line. -/
def closeAt (s : State) (line : Nat) : State :=
  { s with scopes := s.scopes.unnestBlock?.getD s.scopes, ip := line }

@[simp]
theorem length_inner_closeAt (s : State) (line : Nat) :
    (s.closeAt line).scopes.current.inner.length = s.scopes.current.inner.length - 1 := by
  cases hinner : s.scopes.current.inner with
  | nil => simp [closeAt, ScopeStack.unnestBlock?, hinner]
  | cons block outer => simp [closeAt, ScopeStack.unnestBlock?, hinner]

/-- Captures the variables for the lambda that is declared at the current line. -/
def defineLambda (s : State) (functions : FunctionTable) : State :=
  match functions.lookup? (lambdaName s.ip) with
  | some id => s.captureFor id
  | none => s

@[simp]
theorem length_inner_defineLambda (s : State) (functions : FunctionTable) :
    (s.defineLambda functions).scopes.current.inner.length = s.scopes.current.inner.length := by
  rw [defineLambda]
  split
  · exact (s.settled_captureFor _).blocks
  · rfl

end State

section
variable {σ : Type} {depth line : Nat} (cfg) (con : Console σ) (w : σ)

theorem step_of_statement (h : img.program.Says s.ip k args depth) :
    step img cfg s = perform img cfg k args s := by
  rw [step_of_keyword h.keyword?, h.1, List.tail_cons]

/-- The head of a condition, when it is known where its body ends. -/
theorem run_step_branch (head : img.program.Says s.ip .branch args depth)
    (hend : img.program.branchEnd? s.ip = some line) :
    (step img cfg s).run con w =
      match Plan.condition img s .branch args with
      | .error cause => (⟨s, some cause⟩, w)
      | .ok true => (⟨s.openAt (s.ip + 1), none⟩, w)
      | .ok false =>
        (⟨if img.program.keyword? line = some .otherwise then s.openAt (line + 1)
          else s.goto (line + 1), none⟩, w) := by
  rw [step_of_statement cfg head, perform, Plan.statement, Plan.branch]
  cases Plan.condition img s .branch args with
  | error cause => rfl
  | ok taken =>
    cases taken with
    | true => rfl
    | false =>
      simp only [bind, Except.bind, hend, Bool.false_eq_true, if_false]
      by_cases hk : img.program.keyword? line = some .otherwise
      · rw [if_pos hk, if_pos hk]
        rfl
      · rw [if_neg hk, if_neg hk]
        rfl

/-- The head of a loop, when it is known where it ends. -/
theorem run_step_loop (head : img.program.Says s.ip .loop args depth)
    (hend : img.program.loopEnd? s.ip = some line) :
    (step img cfg s).run con w =
      match Plan.condition img s .loop args with
      | .error cause => (⟨s, some cause⟩, w)
      | .ok true => (⟨s.openAt (s.ip + 1), none⟩, w)
      | .ok false => (⟨s.goto (line + 1), none⟩, w) := by
  rw [step_of_statement cfg head, perform, Plan.statement, Plan.loop]
  cases Plan.condition img s .loop args with
  | error cause => rfl
  | ok taken =>
    cases taken with
    | true => rfl
    | false =>
      simp only [bind, Except.bind, hend, Bool.false_eq_true, if_false]
      rfl

/-- The line that ends a block drops it, if one is open. -/
theorem run_step_closing (hk : img.program.keyword? s.ip = some k)
    (hkind : k = .otherwise ∨ k = .endBranch ∨ k = .endLoop)
    (hexit : Plan.blockExit img s k = .ok line) (hopen : 0 < s.scopes.current.inner.length) :
    (step img cfg s).run con w = (⟨s.closeAt line, none⟩, w) := by
  have hplan : Plan.closing img s k = .ok (.effect (.closeBlock (.ok line))) := by
    rw [Plan.closing, if_neg (by rw [List.isEmpty_iff, ← List.length_eq_zero_iff]; omega), hexit]
  have hstatement : Plan.statement img cfg s k (img.program.line s.ip).tokens.tail =
      .ok (.effect (.closeBlock (.ok line))) := by
    rcases hkind with rfl | rfl | rfl <;> exact hplan
  rw [step_of_keyword hk, perform_of_effect hstatement]
  rfl

/-- A lambda captures and is passed over. -/
theorem run_step_capture (hload : img.Loaded) (hk : img.program.keyword? s.ip = some .lambda)
    (hend : img.program.blockEnd? .endLambda s.ip = some line) :
    (step img cfg s).run con w = (⟨(s.defineLambda img.functions).goto (line + 1), none⟩, w) := by
  obtain ⟨id, -, hlookup, -, -⟩ := hload.lookup?_lambdaName hk
  have hdefine : s.defineLambda img.functions = s.captureFor id := by
    rw [State.defineLambda, hlookup]
  have hplan : Plan.statement img cfg s .lambda (img.program.line s.ip).tokens.tail =
      .ok (.effect (.capture id (.ok (line + 1)))) := by
    rw [Plan.statement, Plan.lambda, hlookup, hend]
    rfl
  rw [step_of_keyword hk, hdefine, perform_of_effect hplan]
  rfl

end

/-! ### Calls and the way back -/

namespace State

/-- The state in which a call binds its parameters: at the first line of the body, in a
frame that has no variable yet. -/
def called (s : State) (sig : Signature) : State :=
  { s with
    returns := s.returns.push (s.ip + 1), scopes := s.scopes.pushFrame, ip := sig.start }

/-- The state with names bound in the innermost block. -/
def withBindings (s : State) (bindings : List (String × Binding)) : State :=
  { s with scopes := s.scopes.bindAll bindings }

theorem enter_eq (s : State) (functions : FunctionTable) (sig : Signature)
    (bindings : List (String × Binding)) :
    s.enter functions sig bindings =
      (if (functions.lambdaResult? sig.start).isSome then (s.called sig).restoreCapture
        else s.called sig).withBindings bindings := rfl

theorem settled_withBindings (s : State) (bindings : List (String × Binding)) :
    Settled s (s.withBindings bindings) := by
  obtain ⟨hsuspended, hinner⟩ := s.scopes.bindAll_eq bindings
  exact ⟨rfl, rfl, hsuspended, hinner⟩

theorem settled_restoreCapture (s : State) :
    Settled s s.restoreCapture ∧ s.restoreCapture.ip = s.ip := by
  rw [restoreCapture]
  split
  · exact ⟨.refl s, rfl⟩
  · obtain ⟨hsuspended, hinner⟩ := s.scopes.bindAll_eq
      ((s.heap.deepCopyAll _).1.map fun e => (e.1, .fresh e.2))
    exact ⟨⟨rfl, rfl, hsuspended, hinner⟩, rfl⟩

/-- A call binds names in its own frame and nowhere else. -/
theorem settled_enter (s : State) (functions : FunctionTable) (sig : Signature)
    (bindings : List (String × Binding)) :
    Settled (s.called sig) (s.enter functions sig bindings) ∧
      (s.enter functions sig bindings).ip = sig.start := by
  rw [enter_eq]
  split
  · obtain ⟨hsettled, hip⟩ := (s.called sig).settled_restoreCapture
    exact ⟨hsettled.trans (settled_withBindings _ _), hip⟩
  · exact ⟨settled_withBindings _ _, rfl⟩

theorem leave_of_none {s : State} (h : s.returns.back? = none) (v : Option Value)
    (declared : Option DeclaredType) : s.leave v declared = { s with terminated := true } := by
  rw [leave, h]

/-- The state in which a result is published: back in the frame of the caller. -/
def unwound (s : State) : State :=
  { s with returns := s.returns.pop, scopes := s.scopes.popFrame?.getD s.scopes }

theorem leave_of_some {s : State} {resume : Nat} (h : s.returns.back? = some resume)
    (v : Option Value) (declared : Option DeclaredType) :
    s.leave v declared = (s.unwound.publishResult v declared).goto resume := by
  rw [leave, h]
  rfl

/-- The state with the heap in which a value of the type was made. -/
def withDefault (s : State) (type : DeclaredType) : State :=
  { s with heap := (s.heap.default type).2 }

theorem publishResult_none (s : State) (type : DeclaredType) :
    s.publishResult none (some type) =
      if type = .void then s else (s.withDefault type).publish (s.heap.default type).1 := rfl

theorem settled_publishResult (s : State) (v : Option Value) (declared : Option DeclaredType) :
    Settled s (s.publishResult v declared) := by
  have hdefault : ∀ type, Settled s (s.withDefault type) := fun type => ⟨rfl, rfl, rfl, rfl⟩
  cases v with
  | some v => exact settled_publish s v
  | none =>
    cases declared with
    | none => exact .refl s
    | some type =>
      rw [publishResult_none]
      split
      · exact .refl s
      · exact (hdefault type).trans (settled_publish _ _)

end State

/-! ### Runs -/

theorem Machine.load_eq_ok {p : Program} {cfg : Config} {m : Machine}
    (h : Machine.load p cfg = .ok m) :
    m.image.program = p ∧ m.image.Loaded ∧ m.config = cfg := by
  rw [Machine.load] at h
  cases hload : Image.load p with
  | error failure =>
    rw [hload] at h
    cases h
  | ok image =>
    rw [hload] at h
    cases h
    obtain ⟨hprogram, hloaded⟩ := Image.loaded_of_load hload
    exact ⟨hprogram, hloaded, rfl⟩

/-- A machine that was never run is at rest. -/
theorem Machine.state_of_load {p : Program} {cfg : Config} {m : Machine}
    (h : Machine.load p cfg = .ok m) : m.state = .start 0 := by
  obtain ⟨image, -, rfl⟩ := Except.map_eq_ok_iff.mp h
  rfl

theorem Machine.load_eq_ofProgram {p : Program} (h : (Image.load p).isOk = true) (cfg : Config) :
    Machine.load p cfg = .ok { image := .ofProgram p, config := cfg } := by
  rw [Machine.load, Image.load_eq_ofProgram h]
  rfl

/-- The states of a run of the machine, with those of the console. -/
def Machine.Reached {σ : Type} (m : Machine) (con : Console σ) (w₀ : σ) (s : State) (w : σ) :
    Prop :=
  ∃ s₀, m.entry = .ok s₀ ∧
    Steps m.image m.config con (fun s => s.terminated = false) s₀ w₀ s w

theorem Machine.exists_of_entry {m : Machine} (h : m.entry = .ok s) :
    ∃ id sig, m.image.functions.named? m.config.entry = some id ∧
      m.image.functions.signature? id = some sig ∧ s = .start sig.start := by
  rw [Machine.entry] at h
  split at h
  · next sig hsig =>
    cases h
    obtain ⟨id, hnamed, hfound⟩ := Option.bind_eq_some_iff.mp hsig
    exact ⟨id, sig, hnamed, hfound, rfl⟩
  · cases h

/-- What holds at the start of every run and is kept by every step holds in all states of
a run. -/
theorem Machine.Reached.invariant {σ : Type} {m : Machine} {con : Console σ} {w₀ w : σ}
    {P : State → Prop} (h : m.Reached con w₀ s w) (hstart : ∀ line, P (.start line))
    (hstep : ∀ {s s' : State} {w w' : σ}, P s →
      (step m.image m.config s).run con w = (⟨s', none⟩, w') → P s') : P s := by
  obtain ⟨s₀, hentry, hrow⟩ := h
  obtain ⟨-, sig, -, -, rfl⟩ := Machine.exists_of_entry hentry
  exact Steps.invariant hrow (hstart _) fun _ hs last => hstep hs last

theorem Machine.run_cycle_of_ok {σ : Type} {con : Console σ} {w w' : σ} {s' : State}
    (hgoing : ¬ s.terminated = true) (h : (step img cfg s).run con w = (⟨s', none⟩, w')) :
    (cycle img cfg s).run con w = (.going s', w') := by
  rw [cycle, if_neg hgoing, Dialogue.run_map, h]

theorem Machine.run_cycle_of_error {σ : Type} {con : Console σ} {w w' : σ} {s' : State}
    {cause : Cause} (hgoing : ¬ s.terminated = true)
    (h : (step img cfg s).run con w = (⟨s', some cause⟩, w')) :
    (cycle img cfg s).run con w = (.ended (.failed ⟨cause, some s.ip⟩) s', w') := by
  rw [cycle, if_neg hgoing, Dialogue.run_map, h]

theorem Machine.drive_of_terminated {σ : Type} {con : Console σ} {w : σ}
    (h : s.terminated = true) (fuel : Nat) :
    drive img cfg con fuel s w = ⟨.finished, s, w⟩ := by
  cases fuel with
  | zero => rw [drive, if_pos h]
  | succ fuel =>
    rw [drive, cycle, if_pos h]
    rfl

theorem Machine.drive_succ_of_ok {σ : Type} {con : Console σ} {w w' : σ} {s' : State}
    (hgoing : ¬ s.terminated = true) (h : (step img cfg s).run con w = (⟨s', none⟩, w'))
    (fuel : Nat) : drive img cfg con (fuel + 1) s w = drive img cfg con fuel s' w' := by
  simp only [drive, run_cycle_of_ok hgoing h]

theorem Machine.drive_succ_of_error {σ : Type} {con : Console σ} {w w' : σ} {s' : State}
    {cause : Cause} (hgoing : ¬ s.terminated = true)
    (h : (step img cfg s).run con w = (⟨s', some cause⟩, w')) (fuel : Nat) :
    drive img cfg con (fuel + 1) s w = ⟨.failed ⟨cause, some s.ip⟩, s', w'⟩ := by
  simp only [drive, run_cycle_of_error hgoing h]

theorem Machine.run_of_entry {σ : Type} {m : Machine} (h : m.entry = .ok s) (con : Console σ)
    (fuel : Nat) (w : σ) : m.run con fuel w = drive m.image m.config con fuel s w := by
  rw [run, h]

theorem Machine.run_of_no_entry {σ : Type} {m : Machine} {failure : Failure}
    (h : m.entry = .error failure) (con : Console σ) (fuel : Nat) (w : σ) :
    m.run con fuel w = ⟨.failed failure, m.state, w⟩ := by
  rw [run, h]

/-- Lines are executed in a row, and then the run stops; or the next line fails, and its
cause is that of the run. -/
theorem Machine.steps_drive {σ : Type} (img : Image) (cfg : Config) (con : Console σ) (fuel : Nat)
    (s : State) (w : σ) :
    ∃ s' w', Steps img cfg con (fun s => s.terminated = false) s w s' w' ∧
      (((drive img cfg con fuel s w).state = s' ∧
          (drive img cfg con fuel s w).ending.failure? = none) ∨
        ∃ cause, s'.terminated = false ∧ (step img cfg s').run con w' =
            (⟨(drive img cfg con fuel s w).state, some cause⟩,
              (drive img cfg con fuel s w).console) ∧
          (drive img cfg con fuel s w).ending = .failed ⟨cause, some s'.ip⟩) := by
  induction fuel generalizing s w with
  | zero =>
    refine ⟨s, w, .refl, .inl ⟨rfl, ?_⟩⟩
    rw [drive]
    cases s.terminated <;> rfl
  | succ fuel ih =>
    cases hend : s.terminated with
    | true =>
      refine ⟨s, w, .refl, .inl ?_⟩
      rw [drive_of_terminated hend]
      exact ⟨rfl, rfl⟩
    | false =>
      have hgoing : ¬ s.terminated = true := by simp [hend]
      rcases hstep : (step img cfg s).run con w with ⟨⟨s₁, _ | cause⟩, w₁⟩
      · -- The rest of the run is one of less fuel from the next state.
        obtain ⟨s', w', hrow, hlast⟩ := ih s₁ w₁
        refine ⟨s', w', (Steps.one hend hstep).trans hrow, ?_⟩
        rw [drive_succ_of_ok hgoing hstep]
        exact hlast
      · refine ⟨s, w, .refl, .inr ⟨cause, hend, ?_⟩⟩
        rw [drive_succ_of_error hgoing hstep]
        exact ⟨hstep, rfl⟩

/-- The state after some steps, if all of them succeed. -/
def stateAfter {σ : Type} (img : Image) (cfg : Config) (con : Console σ) :
    (steps : Nat) → State → σ → Option (State × σ)
  | 0, s, w => some (s, w)
  | steps + 1, s, w =>
    if s.terminated then none
    else match (step img cfg s).run con w with
      | (⟨s, none⟩, w) => stateAfter img cfg con steps s w
      | (⟨_, some _⟩, _) => none

theorem stateAfter_succ_eq_some {σ : Type} {con : Console σ} {n : Nat} {s : State} {w : σ}
    {x : State × σ} : stateAfter img cfg con (n + 1) s w = some x ↔
      s.terminated = false ∧ ∃ s₁ w₁, (step img cfg s).run con w = (⟨s₁, none⟩, w₁) ∧
        stateAfter img cfg con n s₁ w₁ = some x := by
  rw [stateAfter]
  cases s.terminated with
  | true => simp
  | false =>
    rcases hstep : (step img cfg s).run con w with ⟨⟨s₁, _ | cause⟩, w₁⟩
    · simp
    · simp

theorem stateAfter_add {σ : Type} {con : Console σ} {m n : Nat} {s : State} {w : σ}
    {x : State × σ} : stateAfter img cfg con (m + n) s w = some x ↔
      ∃ y, stateAfter img cfg con m s w = some y ∧ stateAfter img cfg con n y.1 y.2 = some x := by
  induction m generalizing s w with
  | zero => simp [stateAfter]
  | succ m ih =>
    rw [Nat.succ_add, stateAfter_succ_eq_some]
    simp only [ih, stateAfter_succ_eq_some]
    grind

/-- Such states form a row, and what holds in all of them but the last holds along it. -/
theorem steps_of_forall_stateAfter {σ : Type} {con : Console σ} {Q : State → Prop} {n : Nat}
    {s s' : State} {w w' : σ} (h : stateAfter img cfg con n s w = some (s', w'))
    (hQ : ∀ k < n, ∀ x, stateAfter img cfg con k s w = some x → Q x.1) :
    Steps img cfg con (fun s => s.terminated = false ∧ Q s) s w s' w' := by
  induction n generalizing s w with
  | zero =>
    cases h
    exact .refl
  | succ n ih =>
    have hfirst : Q s := hQ 0 n.succ_pos (s, w) rfl
    obtain ⟨hgoing, s₁, w₁, hstep, h⟩ := stateAfter_succ_eq_some.mp h
    refine (Steps.one ⟨hgoing, hfirst⟩ hstep).trans (ih h fun k hk x hx => ?_)
    exact hQ (k + 1) (Nat.succ_lt_succ hk) x
      (stateAfter_succ_eq_some.mpr ⟨hgoing, s₁, w₁, hstep, hx⟩)

theorem steps_of_stateAfter {σ : Type} {con : Console σ} {n : Nat} {s s' : State} {w w' : σ}
    (h : stateAfter img cfg con n s w = some (s', w')) :
    Steps img cfg con (fun s => s.terminated = false) s w s' w' :=
  (steps_of_forall_stateAfter (Q := fun _ => True) h fun _ _ _ _ => trivial).mono fun _ => And.left

theorem Machine.reached_of_stateAfter {σ : Type} {m : Machine} {con : Console σ} {w₀ : σ}
    {n line : Nat} {x : State × σ} (hentry : m.entry = .ok (.start line))
    (h : stateAfter m.image m.config con n (.start line) w₀ = some x) :
    m.Reached con w₀ x.1 x.2 :=
  ⟨_, hentry, steps_of_stateAfter h⟩

end LineScript
