/-
Activations: whose body the machine is in.

The machine keeps the lines at which it will resume, but not which functions are
active. `Machine.Traced` follows a run and notes the signature of every call until the
machine comes back from it. In a well-nested program the lines agree with this list:
the current line is in the body of the innermost signature, and each line to resume at
is in the body of the signature that made the call (`Activated.step`). So the result
type that is recorded for a line, by counting headers and end markers at load time, is
the one of the function that is running.

* `Activated`: the active signatures, the lines they are at and their frames agree;
* `exists_active_signatures`: they do so in every state of a run, and every way back
  out of a body has the result type of the innermost signature.
-/
import LineScript.Proofs.Planned
import LineScript.Proofs.WellNested

namespace LineScript

/-- The active signatures after a step, innermost first: a call adds its own, and the way
back to a caller drops one. -/
def callsAfter (img : Image) (cfg : Config) (s : State) (calls : List Signature) :
    List Signature :=
  match Plan.next img cfg s with
  | .ok (.effect (.enter sig _)) => sig :: calls
  | .ok (.effect (.leave _ _)) => if s.returns.isEmpty then calls else calls.tail
  | _ => calls

/-- The states of a run, with the signatures that are active in them. -/
inductive Machine.Traced {σ : Type} (m : Machine) (con : Console σ) (w₀ : σ) :
    List Signature → State → σ → Prop
  | start {id : FuncId} {sig : Signature}
      (named : m.image.functions.named? m.config.entry = some id)
      (found : m.image.functions.signature? id = some sig) :
      Traced m con w₀ [sig] (.start sig.start) w₀
  | tail {calls : List Signature} {s s' : State} {w w' : σ} (row : Traced m con w₀ calls s w)
      (here : s.terminated = false)
      (last : (step m.image m.config s).run con w = (⟨s', none⟩, w')) :
      Traced m con w₀ (callsAfter m.image m.config s calls) s' w'

/-- Every run can be followed. -/
theorem Machine.Reached.traced {σ : Type} {m : Machine} {con : Console σ} {w₀ w : σ} {s : State}
    (h : m.Reached con w₀ s w) : ∃ calls, m.Traced con w₀ calls s w := by
  obtain ⟨s₀, hentry, hrow⟩ := h
  induction hrow with
  | refl =>
    obtain ⟨id, sig, hnamed, hfound, rfl⟩ := Machine.exists_of_entry hentry
    exact ⟨[sig], .start hnamed hfound⟩
  | tail _ here last ih =>
    obtain ⟨calls, hcalls⟩ := ih
    exact ⟨_, .tail hcalls here last⟩

/-- The line is in the body of the signature, with this many blocks of the body open. The
marker that ends the body belongs to it, the bodies of lambdas inside it do not. -/
def Program.InBody (p : Program) (sig : Signature) (n k : Nat) : Prop :=
  ∃ t, p.BodyOf sig t ∧ Inside sig.start t n k

/-- Active signatures with the line that each is at and its frame. -/
inductive Active (img : Image) : List Signature → List Nat → List Frame → Prop
  | nil : Active img [] [] []
  | cons {sig : Signature} {id : FuncId} {n : Nat} {frame : Frame} {calls : List Signature}
      {lines : List Nat} {frames : List Frame} (known : img.functions.signature? id = some sig)
      (body : img.program.InBody sig n frame.inner.length)
      (callers : Active img calls lines frames) :
      Active img (sig :: calls) (n :: lines) (frame :: frames)

/-- The signatures are those that are active in the state: the innermost is at the
current line, the others are where their calls will resume. -/
def Activated (img : Image) (calls : List Signature) (s : State) : Prop :=
  Active img calls (s.ip :: s.returns.toList.reverse) (s.scopes.current :: s.scopes.suspended)

section
variable {img : Image} {cfg : Config} {s s' : State} {calls callers : List Signature}
  {sig : Signature} {id : FuncId} {plan : Plan} {n k : Nat} {t : Statements}

theorem callsAfter_of_straight (hplan : Plan.next img cfg s = .ok plan) (h : plan.Straight) :
    callsAfter img cfg s calls = calls := by
  rw [callsAfter, hplan]
  cases h <;> rfl

/-- A place further on in the same body, the callers being left as they are. -/
theorem Activated.move (h : Activated img (sig :: callers) s) (hreturns : s'.returns = s.returns)
    (hsuspended : s'.scopes.suspended = s.scopes.suspended)
    (hplace : img.program.InBody sig s'.ip s'.scopes.current.inner.length) :
    Activated img (sig :: callers) s' := by
  rw [Activated] at h ⊢
  rw [hreturns, hsuspended]
  cases h with
  | cons known _ callers => exact .cons known hplace callers

/-- A call leaves its caller at the next line and begins at the first line of a body. -/
theorem Activated.enter (hload : img.Loaded) (hp : img.program.WellNested)
    (h : Activated img (sig :: callers) s)
    (hresume : img.program.InBody sig (s.ip + 1) s.scopes.current.inner.length)
    {callee : Signature} (hcallee : img.functions.signature? id = some callee)
    (bindings : List (String × Binding)) :
    Activated img (callee :: sig :: callers) (s.enter img.functions callee bindings) := by
  obtain ⟨hsettled, hip⟩ := s.settled_enter img.functions callee bindings
  have hreturns : (s.called callee).returns.toList.reverse =
      (s.ip + 1) :: s.returns.toList.reverse := by
    simp [State.called]
  have hsuspended : (s.called callee).scopes.suspended =
      s.scopes.current :: s.scopes.suspended := rfl
  have hblocks : (s.called callee).scopes.current.inner.length = 0 := rfl
  rw [Activated] at h ⊢
  rw [hip, hsettled.returns, hreturns, hsettled.suspended, hsuspended]
  cases h with
  | cons known _ callers =>
    obtain ⟨t, hbody⟩ := exists_body hload hp hcallee
    exact .cons hcallee ⟨t, hbody, by rw [hsettled.blocks, hblocks]; exact .first⟩
      (.cons known hresume callers)

/-- The way back leads to where the caller resumes. -/
theorem Activated.leave (h : Activated img calls s) (v : Option Value)
    (declared : Option DeclaredType) :
    Activated img (if s.returns.isEmpty then calls else calls.tail) (s.leave v declared) := by
  cases hback : s.returns.back? with
  | none =>
    have hempty : s.returns.isEmpty = true := by simpa using hback
    rw [State.leave_of_none hback, if_pos hempty]
    exact h
  | some resume =>
    obtain ⟨rest, hrest⟩ := Array.back?_eq_some_iff.mp hback
    rw [State.leave_of_some hback, if_neg (by simp [hrest])]
    rw [Activated, hrest, Array.toList_push, List.reverse_concat] at h
    cases h with
    | cons _ _ callers =>
      -- The caller's line and its frame are the next ones on their stacks.
      generalize hframes : s.scopes.suspended = frames at callers
      cases callers with
      | @cons _ _ _ caller _ _ frames known body callers =>
        have hsettled := s.unwound.settled_publishResult v declared
        have hscopes : s.unwound.scopes.current = caller ∧ s.unwound.scopes.suspended = frames := by
          rw [State.unwound, ScopeStack.popFrame?, hframes]
          exact ⟨rfl, rfl⟩
        have hblocks := hsettled.blocks
        rw [hscopes.1] at hblocks
        have hreturns : s.unwound.returns = rest := by simp [State.unwound, hrest]
        simp only [Activated, State.goto, hsettled.returns, hreturns, hsettled.suspended, hscopes.2]
        exact .cons known (hblocks ▸ body) callers

/-- A plan that goes on with the next line. -/
theorem Activated.straight {σ : Type} {con : Console σ} {w w' : σ}
    (h : Activated img (sig :: callers) s) (hplan : Plan.next img cfg s = .ok plan)
    (hstraight : plan.Straight)
    (hrun : (plan.dialogue img.functions s).run con w = (⟨s', none⟩, w'))
    (hnext : img.program.InBody sig (s.ip + 1) s.scopes.current.inner.length) :
    Activated img (callsAfter img cfg s (sig :: callers)) s' := by
  obtain ⟨hsettled, hip⟩ := hstraight.run_dialogue hrun
  rw [callsAfter_of_straight hplan hstraight]
  refine h.move hsettled.returns hsettled.suspended ?_
  rw [hip, if_pos rfl, hsettled.blocks]
  exact hnext

/-- A line of a body that stands for itself: it goes on with the next line, or calls, or
goes back. -/
theorem Activated.step_line {σ : Type} {con : Console σ} {w w' : σ} {key : Keyword}
    {args : List String} {depth : Nat} (hload : img.Loaded) (hp : img.program.WellNested)
    (h : Activated img (sig :: callers) s) (kind : Plain key args)
    (here : img.program.Says s.ip key args depth) (hplan : Plan.next img cfg s = .ok plan)
    (hrun : (plan.dialogue img.functions s).run con w = (⟨s', none⟩, w'))
    (hnext : img.program.InBody sig (s.ip + 1) s.scopes.current.inner.length) :
    Activated img (callsAfter img cfg s (sig :: callers)) s' := by
  have hstatement := hplan
  rw [next_of_keyword here.keyword?] at hstatement
  rcases kind with rfl | rfl | rfl | rfl
  · exact h.straight hplan (Plan.straight_declaration hstatement) hrun hnext
  · exact h.straight hplan (Plan.straight_assignment hstatement) hrun hnext
  · rcases Plan.invocation_eq_ok hstatement with ⟨name, actuals, hcall, -⟩ | ⟨b, actuals, hbuiltin⟩
    · -- Whatever the name stands for, what is called is in the table and has a body.
      obtain ⟨callee, sig', bindings, -, hsig', -, -, -, rfl⟩ := Plan.call_eq_ok hcall
      rw [callsAfter, hplan]
      cases hrun
      exact h.enter hload hp hnext hsig' _
    · exact h.straight hplan (Plan.straight_builtin hbuiltin) hrun hnext
  · obtain ⟨type, -, rfl | ⟨v, -, -, rfl⟩⟩ := Plan.giveBack_eq_ok hstatement
    · rw [callsAfter, hplan]
      cases hrun
      exact h.leave _ _
    · rw [callsAfter, hplan]
      cases hrun
      exact h.leave _ _

/-- The line that ends a block drops it and goes on where it leads. -/
theorem Activated.step_closing {σ : Type} {con : Console σ} {w w' : σ} {key : Keyword} {line : Nat}
    (h : Activated img (sig :: callers) s) (hk : img.program.keyword? s.ip = some key)
    (hkind : key = .otherwise ∨ key = .endBranch ∨ key = .endLoop)
    (hexit : Plan.blockExit img s key = .ok line)
    (hnext : img.program.InBody sig line (s.scopes.current.inner.length - 1))
    (hplan : Plan.next img cfg s = .ok plan)
    (hrun : (plan.dialogue img.functions s).run con w = (⟨s', none⟩, w')) :
    Activated img (callsAfter img cfg s (sig :: callers)) s' := by
  have hclosing : Plan.closing img s key = .ok plan := by
    rw [next_of_keyword hk] at hplan
    rcases hkind with rfl | rfl | rfl <;> exact hplan
  obtain ⟨hopen, rfl⟩ := Plan.closing_eq_ok hclosing
  rw [callsAfter, hplan]
  rw [hexit] at hrun
  cases hrun
  refine h.move rfl ?_ ?_
  · obtain ⟨block, outer, hinner⟩ := List.exists_cons_of_ne_nil hopen
    rw [ScopeStack.unnestBlock?, hinner]
    rfl
  · rw [← s.length_inner_closeAt line] at hnext
    exact hnext

/-- From a place in the body of the innermost signature, other than its last line. -/
theorem Activated.step_flow {σ : Type} {con : Console σ} {w w' : σ} (hload : img.Loaded)
    (hp : img.program.WellNested) (h : Activated img (sig :: callers) s)
    (hflow : Flow img.program Plain (img.program.InBody sig) s.ip s.scopes.current.inner.length)
    (hplan : Plan.next img cfg s = .ok plan)
    (hrun : (plan.dialogue img.functions s).run con w = (⟨s', none⟩, w')) :
    Activated img (callsAfter img cfg s (sig :: callers)) s' := by
  have hstatement := fun key hk => (next_of_keyword (k := key) hk).symm.trans hplan
  -- Each kind of line says where it may lead; the plan decides which of these it is.
  cases hflow with
  | blank inProgram empty next =>
    rw [callsAfter, hplan]
    rw [next_of_blank inProgram empty] at hplan
    cases hplan
    cases hrun
    exact h.move rfl rfl next
  | line kind here next => exact h.step_line hload hp kind here hplan hrun next
  | branch here past taken other =>
    rw [callsAfter, hplan]
    rcases Plan.branch_eq_ok (hstatement .branch here.keyword?) with rfl | ⟨last, hlast, rfl⟩
    · cases hrun
      exact h.move rfl rfl taken
    · rw [past] at hlast
      cases hlast
      split at other
      · next hk =>
        rw [if_pos hk] at hrun ⊢
        cases hrun
        exact h.move rfl rfl other
      · next hk =>
        rw [if_neg hk] at hrun ⊢
        cases hrun
        exact h.move rfl rfl other
  | otherwise here inside past next =>
    refine h.step_closing (Program.keyword?_of_marks here) (.inl rfl) ?_ next hplan hrun
    rw [Plan.blockExit, past]
    rfl
  | endBranch here inside next =>
    exact h.step_closing (Program.keyword?_of_marks here) (.inr (.inl rfl)) rfl next hplan hrun
  | loop here past taken next =>
    rw [callsAfter, hplan]
    rcases Plan.loop_eq_ok (hstatement .loop here.keyword?) with rfl | ⟨last, hlast, rfl⟩
    · cases hrun
      exact h.move rfl rfl taken
    · rw [past] at hlast
      cases hlast
      cases hrun
      exact h.move rfl rfl next
  | endLoop here inside back next =>
    refine h.step_closing (Program.keyword?_of_marks here) (.inr (.inr rfl)) ?_ next hplan hrun
    rw [Plan.blockExit, back]
  | lambda here past next =>
    rw [callsAfter, hplan]
    obtain ⟨id, -, rfl⟩ := Plan.lambda_eq_ok (hstatement .lambda (Program.keyword?_of_marks here))
    rw [past] at hrun
    cases hrun
    have hsettled := s.settled_captureFor id
    exact h.move hsettled.returns hsettled.suspended (hsettled.blocks ▸ next)

/-- A step keeps track of the active signatures. -/
theorem Activated.step {σ : Type} {con : Console σ} {w w' : σ} (hload : img.Loaded)
    (hp : img.program.WellNested) (h : Activated img calls s)
    (hstep : (step img cfg s).run con w = (⟨s', none⟩, w')) :
    Activated img (callsAfter img cfg s calls) s' := by
  obtain ⟨plan, hplan, hrun⟩ := step_eq_ok hstep
  have hactive := h
  rw [Activated] at hactive
  cases hactive with
  | cons known body _ =>
    obtain ⟨t, hbody, hin⟩ := body
    obtain ⟨depth, hlaid⟩ := hbody.laid
    rcases hlaid.flow hin with ⟨hip, -⟩ | hflow
    · -- The line is the marker that ends the body, and leads back whatever the body is.
      have hleave : ∃ declared, plan = .effect (.leave none declared) := by
        rcases hbody.close with ⟨-, hk⟩ | ⟨-, hk⟩
        · rw [next_of_keyword (hip ▸ hk)] at hplan
          exact ⟨_, (Except.ok.inj hplan).symm⟩
        · rw [next_of_keyword (hip ▸ hk)] at hplan
          exact ⟨_, (Except.ok.inj hplan).symm⟩
      obtain ⟨declared, rfl⟩ := hleave
      rw [callsAfter, hplan]
      cases hrun
      exact h.leave _ _
    · exact h.step_flow hload hp (hflow.mono fun hin => ⟨t, hbody, hin⟩) hplan hrun

/-! ### All states of a run -/

theorem Active.length_eq {lines : List Nat} {frames : List Frame}
    (h : Active img calls lines frames) : calls.length = lines.length := by
  induction h with
  | nil => rfl
  | cons _ _ _ ih => simp [ih]

/-- The entry function stays at the bottom. -/
theorem Activated.getLast?_callsAfter (h : Activated img calls s) :
    (callsAfter img cfg s calls).getLast? = calls.getLast? := by
  have hlength : calls.length = s.returns.size + 1 := by simpa using h.length_eq
  rw [callsAfter]
  split
  · obtain ⟨top, callers, rfl⟩ := List.exists_cons_of_length_eq_add_one hlength
    exact List.getLast?_cons_cons
  · split
    · rfl
    · next hreturns =>
      have hsize : s.returns.size ≠ 0 := by simpa using hreturns
      -- A call is active, so what is dropped is not the entry function.
      match calls, hlength with
      | top :: caller :: callers, _ => exact List.getLast?_cons_cons.symm
      | [_], hlength =>
        rw [List.length_singleton] at hlength
        omega
  · rfl

theorem Machine.Traced.activated {σ : Type} {m : Machine} {con : Console σ} {w₀ w : σ}
    (hload : m.image.Loaded) (hp : m.image.program.WellNested)
    (h : m.Traced con w₀ calls s w) :
    Activated m.image calls s ∧ ∃ id, m.image.functions.named? m.config.entry = some id ∧
      m.image.functions.signature? id = calls.getLast? := by
  induction h with
  | start named found =>
    obtain ⟨t, hbody⟩ := exists_body hload hp found
    exact ⟨.cons found ⟨t, hbody, .first⟩ .nil, _, named, found⟩
  | tail _ _ last ih =>
    obtain ⟨hactive, id, hnamed, hfound⟩ := ih
    exact ⟨hactive.step hload hp last, id, hnamed, hfound.trans hactive.getLast?_callsAfter.symm⟩

/-- The way back has the result type recorded for its line. -/
theorem declared_of_leave {v : Option Value} {declared : Option DeclaredType}
    (h : Plan.next img cfg s = .ok (.effect (.leave v declared))) :
    (img.program.keyword? s.ip = some .ret ∧ declared = Plan.resultType? img s) ∨
    (img.program.keyword? s.ip = some .endFunc ∧
      declared = img.functions.functionResult? s.ip) ∨
    (img.program.keyword? s.ip = some .endLambda ∧
      declared = img.functions.lambdaResult? s.ip) := by
  cases planned_of_next h with
  | leave here inside => exact .inl ⟨here, inside.symm⟩
  | giveBack here inside => exact .inl ⟨here, inside.symm⟩
  | endFunc here => exact .inr (.inl ⟨here, rfl⟩)
  | endLambda here => exact .inr (.inr ⟨here, rfl⟩)

/-- The result type recorded for the current line is that of the innermost signature, if
the line does not declare a lambda; it is the one with which the line leads back. -/
theorem Activated.result (hload : img.Loaded) (hp : img.program.WellNested)
    (h : Activated img (sig :: callers) s) :
    (img.program.keyword? s.ip ≠ some .lambda → Plan.resultType? img s = some sig.result) ∧
    ∀ v declared, Plan.next img cfg s = .ok (.effect (.leave v declared)) →
      declared = some sig.result := by
  rw [Activated] at h
  cases h with
  | cons known body _ =>
    obtain ⟨t, hbody, hin⟩ := body
    obtain ⟨hfunction, hlambda, hresult⟩ := hbody.recorded hload hp known hin
    refine ⟨hresult, ?_⟩
    intro v declared hleave
    rcases declared_of_leave hleave with ⟨hk, rfl⟩ | ⟨hk, rfl⟩ | ⟨hk, rfl⟩
    · exact hresult (by rw [hk]; decide)
    · have hlast := hbody.last_of_keyword? hin hk (by decide)
      rcases hbody.close with ⟨hhead, -⟩ | ⟨-, hclose⟩
      · exact hfunction hhead
      · rw [← hlast, hk] at hclose
        cases hclose
    · have hlast := hbody.last_of_keyword? hin hk (by decide)
      rcases hbody.close with ⟨-, hclose⟩ | ⟨hhead, -⟩
      · rw [← hlast, hk] at hclose
        cases hclose
      · exact hlambda hhead (by rw [hk]; decide)

theorem Active.forall₂ {lines : List Nat} {frames : List Frame}
    (h : Active img calls lines frames) :
    List.Forall₂ (fun sig n => ∃ k, img.program.InBody sig n k) calls lines := by
  induction h with
  | nil => exact .nil
  | cons _ body _ ih => exact .cons ⟨_, body⟩ ih

end

/-- In every state of a run of a well-nested program the active signatures are known: the
entry function at the bottom and one for each call that is active. The current line is
in the body of the innermost, and each line to resume at in the body of the caller. The
result type recorded for the current line is the one of the innermost signature, unless
the line declares a lambda, and so is every result type with which the machine goes
back. -/
theorem exists_active_signatures {σ : Type} {p : Program} {cfg : Config} {m : Machine}
    {con : Console σ} {w₀ w : σ} {s : State} (hload : Machine.load p cfg = .ok m)
    (hp : p.WellNested) (h : m.Reached con w₀ s w) :
    ∃ top callers, m.Traced con w₀ (top :: callers) s w ∧
      (∃ id, m.image.functions.named? cfg.entry = some id ∧
        m.image.functions.signature? id = (top :: callers).getLast?) ∧
      (∃ k, p.InBody top s.ip k) ∧
      List.Forall₂ (fun caller resume => ∃ k, p.InBody caller resume k) callers
        s.returns.toList.reverse ∧
      (p.keyword? s.ip ≠ some .lambda → Plan.resultType? m.image s = some top.result) ∧
      (p.keyword? s.ip = some .lambda →
        Plan.resultType? m.image s = (p.header? s.ip).map Signature.result) ∧
      ∀ v declared, Plan.next m.image cfg s = .ok (.effect (.leave v declared)) →
        declared = some top.result := by
  obtain ⟨rfl, hloaded, rfl⟩ := Machine.load_eq_ok hload
  obtain ⟨calls, htraced⟩ := h.traced
  obtain ⟨hactive, hentry⟩ := htraced.activated hloaded hp
  have hbodies := hactive.forall₂
  cases hbodies with
  | @cons top _ callers _ hbody hcallers =>
    obtain ⟨hresult, hleave⟩ := hactive.result hloaded hp
    refine ⟨top, callers, htraced, hentry, hbody, hcallers, hresult, ?_, hleave⟩
    intro hk
    have hrecorded := (hloaded.recorded (Program.lt_size_of_keyword? hk)).2
    obtain ⟨sig, hsig⟩ := hloaded.exists_header (.inr hk)
    rw [Plan.resultType?, hrecorded, if_pos hk, hsig]
    rfl

/-- A function that calls a lambda with a condition in its body. -/
def callingProgram : Program := .ofLines [
  "func main void",
  "  var func f",
  "  lambda n:int int",
  "    if > n 0",
  "      return n",
  "    endif",
  "  endlambda",
  "  assign f resultf",
  "  funccall f 3",
  "",
  "endfunc"]

theorem wellNested_callingProgram : callingProgram.WellNested := by
  have hbody : Laid callingProgram Plain 4 3 (.branch [">", "n", "0"] (.line .ret ["n"] .done)
      .done) :=
    .branch (by decide +kernel) (by decide : 4 < 6)
      (.line (.inr (.inr (.inr rfl))) (by decide +kernel) .done) (by decide +kernel) .done
  have hmain : Laid callingProgram Plain 2 1 (.line .var ["func", "f"] (.lambda 3
      (.line .assign ["f", "resultf"] (.line .call ["f", "3"] (.blank .done))))) :=
    .line (.inl rfl) (by decide +kernel) <|
    .lambda (by decide +kernel) (hbody.between (by decide : 2 < 4)) (by decide +kernel) <|
    .line (.inr (.inl rfl)) (by decide +kernel) <|
    .line (.inr (.inr (.inl rfl))) (by decide +kernel) <|
    .blank (by decide +kernel) (by decide +kernel) .done
  refine ⟨.func (by decide +kernel) hmain (by decide +kernel) .done, fun {n} hk => ?_⟩
  -- There is one lambda.
  have honly : ∀ n < 11, callingProgram.keyword? n = some .lambda → n = 2 := by decide +kernel
  obtain rfl := honly n (Program.lt_size_of_keyword? hk) hk
  exact ⟨4, _, by decide +kernel, hbody, by decide +kernel⟩

/-- After five steps the machine is in the body of the lambda. -/
theorem exists_active_signatures_callingProgram :
    Machine.load callingProgram {} = .ok { image := .ofProgram callingProgram } ∧
    callingProgram.WellNested ∧
    ∃ s w, Machine.Reached { image := .ofProgram callingProgram } Buffer.console {} s w ∧
      s.ip = 4 ∧ s.returns = #[9] ∧
      ∃ top caller, (∃ k, callingProgram.InBody top 4 k) ∧ (∃ k, callingProgram.InBody caller 9 k) ∧
        Plan.resultType? (.ofProgram callingProgram) s = some top.result := by
  have hload := Machine.load_eq_ofProgram (p := callingProgram) (by decide +kernel) {}
  refine ⟨hload, wellNested_callingProgram, ?_⟩
  have hstate : (stateAfter (.ofProgram callingProgram) {} Buffer.console 5 (.start 1) {}).map
      (fun x => (x.1.ip, x.1.returns)) = some (4, #[9]) := by decide +kernel
  obtain ⟨⟨s, w⟩, hstate, hx⟩ := Option.map_eq_some_iff.mp hstate
  obtain ⟨hip, hreturns⟩ := Prod.mk.inj hx
  have hreached := Machine.reached_of_stateAfter (m := { image := .ofProgram callingProgram })
    (by decide +kernel) hstate
  obtain ⟨top, callers, -, -, hbody, hcallers, hresult, -⟩ :=
    exists_active_signatures hload wellNested_callingProgram hreached
  simp only at hip hreturns hbody hcallers hresult
  rw [hip] at hbody hresult
  rw [hreturns] at hcallers
  cases hcallers with
  | cons hcaller _ =>
    exact ⟨s, w, hreached, hip, hreturns, top, _, hbody, hcaller, hresult (by decide +kernel)⟩

end LineScript
