/-
What a call leaves of its caller.

While a call is active its caller's frame lies below those of the call and of all that
it calls in turn (`ScopeStack.Above`). None of these frames ever binds one of the
caller's cells, except for those that were passed by reference; so all other cells keep
their values, and the caller's frame comes back as it was. Then one result is
published, and that is the only other trace (`caller_after_call`).
-/
import LineScript.Proofs.CallFrames
import LineScript.Proofs.Sharing

namespace LineScript

/-! ### Frames above a caller -/

namespace ScopeStack

/-- The current frame and the frames `upper` below it were opened on top of those of
`base`. They bind cells of the kind and cells made since, and no other cell of `base` has
changed. -/
structure Above (base : ScopeStack) (P : CellId → Prop) (upper : List Frame) (c : ScopeStack) :
    Prop where
  suspended : c.suspended = upper ++ base.current :: base.suspended
  confined : ∀ f ∈ c.current :: upper, f.Confined fun d => P d ∨ base.cells.size ≤ d.index
  size_le : base.cells.size ≤ c.cells.size
  read_eq : ∀ {d : CellId}, d.index < base.cells.size → ¬ P d → c.read d = base.read d

namespace Above

variable {base c c' : ScopeStack} {P : CellId → Prop} {upper : List Frame} {f : Frame}

/-- Work in the current frame keeps to its cells. -/
theorem touches (h : Above base P upper c)
    (ht : Touches (fun d => P d ∨ base.cells.size ≤ d.index) c c') : Above base P upper c' := by
  have hsize := h.size_le
  refine ⟨ht.suspended.trans h.suspended, ?_, Nat.le_trans hsize ht.size_le, ?_⟩
  · refine List.forall_mem_cons.mpr ⟨ht.confined.mono ?_, (List.forall_mem_cons.mp h.confined).2⟩
    rintro d (hd | hd)
    · exact hd
    · exact .inr (Nat.le_trans hsize hd.1)
  · intro d hd hP
    have hother : ¬ (P d ∨ base.cells.size ≤ d.index) := not_or.mpr ⟨hP, Nat.not_le_of_lt hd⟩
    rw [ht.read_eq (Nat.lt_of_lt_of_le hd hsize) hother, h.read_eq hd hP]

theorem edits (h : Above base P upper c) (he : Edits c c') : Above base P upper c' :=
  h.touches (he.touches (h.confined _ List.mem_cons_self))

theorem pushFrame (h : Above base P upper c) : Above base P (c.current :: upper) c.pushFrame :=
  ⟨congrArg (c.current :: ·) h.suspended, List.forall_mem_cons.mpr ⟨.empty, h.confined⟩, h.size_le,
    h.read_eq⟩

theorem popFrame (h : Above base P (f :: upper) c) :
    Above base P upper (c.popFrame?.getD c) := by
  rw [popFrame?, h.suspended]
  exact ⟨rfl, (List.forall_mem_cons.mp h.confined).2, h.size_le, h.read_eq⟩

/-- The first frame above the caller is the last to go. -/
theorem popFrame_nil (h : Above base P [] c) :
    c.popFrame?.getD c = { base with cells := c.cells } := by
  rw [popFrame?, h.suspended]
  rfl

end Above

/-- Apart from the cells of the kind, the second stack differs from the first in a result
at most: a new variable in the root block, or a new value for the one that is there. -/
structure Regained (base : ScopeStack) (P : CellId → Prop) (result : Option String)
    (c : ScopeStack) : Prop where
  suspended : c.suspended = base.suspended
  inner : c.current.inner = base.current.inner
  root : c.current.root = base.current.root ∨
    ∃ name cell, result = some name ∧ base.current.root.find? name = none ∧
      base.cells.size ≤ cell.index ∧ c.current.root = base.current.root.insert name cell
  read_eq : ∀ {d : CellId}, d.index < base.cells.size → ¬ P d →
    (∀ name, result = some name → base.current.root.find? name ≠ some d) → c.read d = base.read d

/-- Publishing in the caller's frame, the cells being those of its callees. -/
theorem Above.regained {base c c' : ScopeStack} {P : CellId → Prop} (h : Above base P [] c)
    (hc : Published { base with cells := c.cells } c') :
    ∃ result, (∀ name, result = some name → ∃ kind : Kind, kind.resultName? = some name) ∧
      Regained base P result c' := by
  cases hc with
  | nothing => exact ⟨none, nofun, rfl, rfl, .inl rfl, fun hd hP _ => h.read_eq hd hP⟩
  | @result kind name v named =>
    refine ⟨some name, fun _ heq => ⟨kind, heq ▸ named⟩, ?_⟩
    rw [publish]
    split
    · next cell hcell =>
      refine ⟨rfl, rfl, .inl rfl, fun {d} hd hP hname => ?_⟩
      rw [read_write, if_neg]
      · exact h.read_eq hd hP
      · rintro ⟨rfl, -⟩
        exact hname name rfl hcell
    · next hnone =>
      -- The cell of the new variable comes after all that the callees made.
      refine ⟨rfl, rfl, .inr ⟨name, _, rfl, hnone, h.size_le, rfl⟩, fun {d} hd hP _ => ?_⟩
      have hread := h.read_eq hd hP
      have hold : d.index ≠ c.cells.size := Nat.ne_of_lt (Nat.lt_of_lt_of_le hd h.size_le)
      simpa [read, Array.getElem?_push, hold] using hread

end ScopeStack

/-! ### Steps and rows of steps -/

section
open ScopeStack (Above Regained)

variable {img : Image} {cfg : Config} {s₀ s s' : State} {sig : Signature}

/-- The call that the line of `s₀` made of the signature is active, and `later` are the
lines at which the calls inside of it will resume. -/
structure During (img : Image) (s₀ : State) (sig : Signature) (later : List Nat) (s : State) :
    Prop where
  returns : s.returns.toList.reverse = later ++ (s₀.ip + 1) :: s₀.returns.toList.reverse
  scopes : ∃ upper : List Frame, upper.length = later.length ∧
    Above s₀.scopes (Passed img s₀ sig) upper s.scopes

/-- The call is over, and its caller goes on at the next line. -/
structure Resumed (img : Image) (s₀ : State) (sig : Signature) (s : State) : Prop where
  ip : s.ip = s₀.ip + 1
  returns : s.returns = s₀.returns
  scopes : ∃ result, (∀ name, result = some name → ∃ kind : Kind, kind.resultName? = some name) ∧
    Regained s₀.scopes (Passed img s₀ sig) result s.scopes

theorem During.enter {later : List Nat} {callee : Signature} {bindings : List (String × Binding)}
    (h : During img s₀ sig later s)
    (call : Plan.next img cfg s = .ok (.effect (.enter callee bindings))) :
    During img s₀ sig ((s.ip + 1) :: later) (s.enter img.functions callee bindings) := by
  obtain ⟨upper, hlength, habove⟩ := h.scopes
  constructor
  · rw [s.returns_enter]
    simp [h.returns]
  · -- What is passed on is a cell that the current frame has.
    refine ⟨s.scopes.current :: upper, congrArg Nat.succ hlength, ?_⟩
    refine habove.pushFrame.touches (touches_enter call fun d hd => ?_)
    obtain ⟨name, hname⟩ := hd.exists_cell?
    exact (habove.confined _ List.mem_cons_self).cell? hname

/-- The way back ends the call itself or one that was made inside of it. -/
theorem During.leave {later : List Nat} (h : During img s₀ sig later s) (v : Option Value)
    (declared : Option DeclaredType) :
    (∃ later, During img s₀ sig later (s.leave v declared)) ∨
      Resumed img s₀ sig (s.leave v declared) := by
  obtain ⟨upper, hlength, habove⟩ := h.scopes
  have hreturns := h.returns
  cases hback : s.returns.back? with
  | none =>
    have hempty : s.returns = #[] := by simpa using hback
    simp [hempty] at hreturns
  | some resume =>
    obtain ⟨rest, hrest⟩ := Array.back?_eq_some_iff.mp hback
    have hpop : (s.leave v declared).returns = rest := by rw [s.returns_leave, hrest, Array.pop_push]
    have hpublished := s.unwound.published_publishResult v declared
    rw [hrest, Array.toList_push, List.reverse_concat] at hreturns
    cases later with
    | nil =>
      -- No call is left inside, so the line to resume at is the caller's.
      obtain rfl := List.length_eq_zero_iff.mp hlength
      obtain ⟨hresume, hold⟩ := List.cons.inj hreturns
      refine .inr ⟨?_, ?_, ?_⟩
      · rw [State.leave_of_some hback]
        exact hresume
      · rw [hpop]
        exact Array.toList_inj.mp (List.reverse_injective hold)
      · rw [State.leave_of_some hback]
        rw [show s.unwound.scopes = _ from habove.popFrame_nil] at hpublished
        exact habove.regained hpublished
    | cons line later =>
      obtain ⟨frame, upper, rfl⟩ := List.exists_cons_of_length_eq_add_one hlength
      obtain ⟨-, hold⟩ := List.cons.inj hreturns
      refine .inl ⟨later, ?_, upper, Nat.succ.inj hlength, ?_⟩
      · rw [hpop]
        exact hold
      · rw [State.leave_of_some hback]
        exact habove.popFrame.edits hpublished.edits

theorem During.turn {later : List Nat} (h : During img s₀ sig later s) (ht : Turn img cfg s s') :
    (∃ later, During img s₀ sig later s') ∨ Resumed img s₀ sig s' := by
  cases ht with
  | stay returns edits =>
    obtain ⟨upper, hlength, habove⟩ := h.scopes
    exact .inl ⟨later, by rw [returns, h.returns], upper, hlength, habove.edits edits⟩
  | enter call => exact .inl ⟨_, h.enter call⟩
  | leave v declared => exact h.leave v declared

/-- A line that makes the stack of calls higher is a call. -/
theorem exists_call_of_depth (ht : Turn img cfg s s') (h : s'.depth = s.depth + 1) :
    ∃ sig bindings, Plan.next img cfg s = .ok (.effect (.enter sig bindings)) ∧
      s' = s.enter img.functions sig bindings := by
  cases ht with
  | stay returns _ =>
    rw [State.depth, returns, State.depth] at h
    omega
  | enter call => exact ⟨_, _, call, rfl⟩
  | leave v declared =>
    rw [State.depth, s.returns_leave, Array.size_pop, State.depth] at h
    omega

theorem during_of_call {bindings : List (String × Binding)}
    (call : Plan.next img cfg s = .ok (.effect (.enter sig bindings))) :
    During img s sig [] (s.enter img.functions sig bindings) := by
  have hstart : Above s.scopes (Passed img s sig) [] s.scopes.pushFrame :=
    ⟨rfl, List.forall_mem_cons.mpr ⟨.empty, nofun⟩, Nat.le_refl _, fun _ _ => rfl⟩
  refine ⟨?_, [], rfl, hstart.touches (touches_enter call fun d => .inl)⟩
  rw [s.returns_enter]
  simp

theorem During.depth {later : List Nat} (h : During img s₀ sig later s) :
    s.depth = s₀.depth + 1 + later.length := by
  have hlength := congrArg List.length h.returns
  simp only [List.length_reverse, Array.length_toList, List.length_append, List.length_cons]
    at hlength
  rw [State.depth, State.depth, hlength]
  omega

end

/-- Take a line that makes a call, and the first state after it in which no more calls are
active than before. There the caller goes on at the next line, with the frames it had.
Its root block may have one variable more, for the result; and all cells hold what they
held, except those that the call passed by reference and the one that the root block had
for the result. -/
theorem caller_after_call {σ : Type} {img : Image} {cfg : Config} {con : Console σ}
    {s s₁ s₂ : State} {w w₁ w₂ : σ} (hcall : (step img cfg s).run con w = (⟨s₁, none⟩, w₁))
    (hdeeper : s₁.depth = s.depth + 1)
    (hrow : Steps img cfg con (fun t => t.terminated = false ∧ t.depth ≠ s.depth) s₁ w₁ s₂ w₂)
    (hback : s₂.depth = s.depth) :
    ∃ sig bindings, call? img cfg s = some (sig, bindings) ∧ Resumed img s sig s₂ := by
  obtain ⟨sig, bindings, hplan, rfl⟩ := exists_call_of_depth (turn_of_step hcall) hdeeper
  refine ⟨sig, bindings, by rw [call?, hplan], ?_⟩
  have hend : (∃ later, During img s sig later s₂) ∨ Resumed img s sig s₂ := by
    refine hrow.invariant (P := fun t => (∃ later, During img s sig later t) ∨ Resumed img s sig t)
      (.inl ⟨[], during_of_call hplan⟩) ?_
    rintro t t' w w' ⟨-, hdepth⟩ (⟨later, hduring⟩ | hresumed) hstep
    · exact hduring.turn (turn_of_step hstep)
    · -- The row ends where the caller is back.
      exact absurd (congrArg Array.size hresumed.returns) hdepth
  rcases hend with ⟨later, hduring⟩ | hresumed
  · have hdepth := hduring.depth
    omega
  · exact hresumed

/-- A function that is given one variable by reference and another by value, and passes the
first one on. -/
def raisingProgram : Program := .ofLines [
  "func main void",
  "  var int a b",
  "  funccall raise a b",
  "endfunc",
  "func raise x:refint y:int int",
  "  funccall bump x",
  "  assign y + x 4",
  "  return y",
  "endfunc",
  "func bump n:refint void",
  "  assign n + n 1",
  "endfunc"]

/-- The variable that was passed by reference has changed, the other one has not. -/
theorem caller_after_call_raisingProgram :
    ∃ s s₁ s₂ w w₁ w₂, ∃ sig : Signature,
      Machine.Reached { image := .ofProgram raisingProgram } Buffer.console {} s w ∧
      (step (.ofProgram raisingProgram) {} s).run Buffer.console w = (⟨s₁, none⟩, w₁) ∧
      s₁.depth = s.depth + 1 ∧
      Steps (.ofProgram raisingProgram) {} Buffer.console
        (fun t => t.terminated = false ∧ t.depth ≠ s.depth) s₁ w₁ s₂ w₂ ∧
      s₂.depth = s.depth ∧ sig.name = "raise" ∧ Resumed (.ofProgram raisingProgram) s sig s₂ ∧
      s.get? "a" = some (.int 0) ∧ s₂.get? "a" = some (.int 1) ∧
      s.get? "b" = some (.int 0) ∧ s₂.get? "b" = some (.int 0) ∧
      s.get? "resulti" = none ∧ s₂.get? "resulti" = some (.int 5) := by
  have hbefore : (stateAfter (.ofProgram raisingProgram) {} Buffer.console 1 (.start 1) {}).map
      (fun x => (x.1.depth, x.1.get? "a", x.1.get? "b", x.1.get? "resulti",
        (call? (.ofProgram raisingProgram) {} x.1).map (·.1.name))) =
      some (0, some (.int 0), some (.int 0), none, some "raise") := by decide +kernel
  have hduring : ∀ k < 5,
      (stateAfter (.ofProgram raisingProgram) {} Buffer.console (1 + (k + 1)) (.start 1) {}).all
        (fun x => x.1.depth ≠ 0) = true := by decide +kernel
  have hafter : (stateAfter (.ofProgram raisingProgram) {} Buffer.console (1 + 6) (.start 1) {}).map
      (fun x => (x.1.depth, x.1.get? "a", x.1.get? "b", x.1.get? "resulti")) =
      some (0, some (.int 1), some (.int 0), some (.int 5)) := by decide +kernel
  obtain ⟨⟨s₂, w₂⟩, hlast, hx₂⟩ := Option.map_eq_some_iff.mp hafter
  obtain ⟨⟨s, w⟩, hfirst, hrest⟩ := stateAfter_add.mp hlast
  obtain ⟨hgoing, s₁, w₁, hcall, hrest⟩ := stateAfter_succ_eq_some.mp hrest
  rw [hfirst, Option.map_some, Option.some_inj] at hbefore
  simp only [Prod.mk.injEq, Option.map_eq_some_iff] at hbefore hx₂
  obtain ⟨hdepth, ha, hb, hresult, ⟨sig, bindings⟩, hsig, hname⟩ := hbefore
  obtain ⟨hdepth₂, ha₂, hb₂, hresult₂⟩ := hx₂
  have hdeeper : s₁.depth = s.depth + 1 := by
    have hstate := (Prod.mk.inj (hcall.symm.trans (run_step_of_call? Buffer.console w hsig))).1
    rw [(Outcome.mk.inj hstate).1, State.depth, State.returns_enter, Array.size_push, State.depth]
  have hrow : Steps (.ofProgram raisingProgram) {} Buffer.console
      (fun t => t.terminated = false ∧ t.depth ≠ s.depth) s₁ w₁ s₂ w₂ := by
    refine steps_of_forall_stateAfter hrest fun k hk x hx => ?_
    have hall := hduring k hk
    rw [stateAfter_add.mpr ⟨_, hfirst, stateAfter_succ_eq_some.mpr ⟨hgoing, s₁, w₁, hcall, hx⟩⟩]
      at hall
    rw [hdepth]
    simpa using hall
  have hback : s₂.depth = s.depth := hdepth₂.trans hdepth.symm
  obtain ⟨sig', bindings', hsig', hresumed⟩ := caller_after_call hcall hdeeper hrow hback
  obtain ⟨rfl, -⟩ := Prod.mk.inj (Option.some.inj (hsig.symm.trans hsig'))
  have hreached := Machine.reached_of_stateAfter (m := { image := .ofProgram raisingProgram })
    (by decide +kernel) hfirst
  exact ⟨s, s₁, s₂, w, w₁, w₂, sig, hreached, hcall, hdeeper, hrow, hback, hname, hresumed, ha, ha₂,
    hb, hb₂, hresult, hresult₂⟩

end LineScript
