/-
What holds of a machine at all times.

A machine is run as often as one likes, with any console, and a run may stop at any line,
because it ends, because the line fails, or because it is interrupted. In all states it
can be left in:

* there is a frame for each active call and one for the entry function, and each line to
  resume at follows a line that calls (`InOrder`, from what a turn can do);
* every function that is referred to is in the table (`Known`, from what circulates).

`consistent_of_runs` says what this comes to. So the way back always finds the frame of
the caller, and a call always finds the signature of what it calls.
-/
import LineScript.Proofs.Closures
import LineScript.Proofs.Turns

namespace LineScript

/-! ### Runs, one after the other -/

/-- The second machine is what the first has become in a row of runs, each with its own
console and stopped after any number of lines. -/
inductive Machine.Runs (m : Machine) : Machine → Prop
  | refl : Runs m m
  | run {m' : Machine} {σ : Type} (row : Runs m m') (con : Console σ) (fuel : Nat) (w : σ) :
      Runs m (m'.after (m'.run con fuel w))

theorem Machine.drive_invariant {σ : Type} {img : Image} {cfg : Config} {con : Console σ}
    {P : State → Prop} {s : State} (fuel : Nat) (w : σ) (hs : P s)
    (hstep : ∀ {s : State} {o : Outcome} {w w' : σ}, P s →
      (step img cfg s).run con w = (o, w') → P o.state) : P (drive img cfg con fuel s w).state := by
  obtain ⟨s', w', hrow, hlast⟩ := Machine.steps_drive img cfg con fuel s w
  have hs' : P s' := hrow.invariant hs fun _ hs hstep' => hstep hs hstep'
  rcases hlast with ⟨hstate, -⟩ | ⟨cause, -, hfail, -⟩
  · rw [hstate]
    exact hs'
  · exact hstep hs' hfail

/-- What holds of a new machine and of the first state of each run, and is kept by every
line, holds of a machine at all times. -/
theorem Machine.Runs.invariant {m m' : Machine} {P : State → Prop} (h : m.Runs m')
    (hm : P m.state) (hentry : ∀ s, m.entry = .ok s → P s)
    (hstep : ∀ {σ : Type} {con : Console σ} {s : State} {o : Outcome} {w w' : σ}, P s →
      (step m.image m.config s).run con w = (o, w') → P o.state) : P m'.state := by
  -- A run changes the state only, so each of them begins as the first one did.
  suffices hrow : m'.image = m.image ∧ m'.config = m.config ∧ P m'.state from hrow.2.2
  induction h with
  | refl => exact ⟨rfl, rfl, hm⟩
  | @run m' _ row con fuel w ih =>
    obtain ⟨himage, hconfig, hs⟩ := ih
    refine ⟨himage, hconfig, ?_⟩
    have hsame : m'.entry = m.entry := by rw [Machine.entry, himage, hconfig, Machine.entry]
    show P (m'.run con fuel w).state
    rw [Machine.run, hsame, himage, hconfig]
    cases hstart : m.entry with
    | ok s => exact Machine.drive_invariant fuel w (hentry s hstart) hstep
    | error failure => exact hs

/-! ### Calls and frames -/

/-- The line calls something that is not built in. -/
def Program.CallsUser (p : Program) (n : Nat) : Prop :=
  ∃ target actuals, (p.line n).tokens = Keyword.call.text :: target :: actuals ∧
    Builtin.ofText? target = none

/-- The machine is to resume after a line that calls. -/
def Program.ResumesAt (p : Program) (line : Nat) : Prop :=
  1 ≤ line ∧ line ≤ p.size ∧ p.CallsUser (line - 1)

/-- Frames, calls and lines belong together. -/
structure InOrder (img : Image) (cfg : Config) (s : State) : Prop where
  frames : s.scopes.frameDepth = s.returns.size + 1
  room : s.returns.size ≤ cfg.maxCallDepth
  ip : s.ip ≤ img.program.size
  resume : ∀ line ∈ s.returns, img.program.ResumesAt line

section
variable {img : Image} {cfg : Config} {s s' : State}

/-- A line that calls is one that the machine can resume after, and there is room. -/
theorem resumesAt_of_enter {sig : Signature} {bindings : List (String × Binding)}
    (call : Plan.next img cfg s = .ok (.effect (.enter sig bindings))) :
    img.program.ResumesAt (s.ip + 1) ∧ s.depth < cfg.maxCallDepth ∧
      ∃ id, img.functions.signature? id = some sig := by
  cases planned_of_next call with
  | call here target user _ found _ _ room =>
    have htokens := Program.tokens_of_keyword? here
    rw [target] at htokens
    exact ⟨⟨Nat.le_add_left _ _, Program.lt_size_of_keyword? here, _, _, htokens, user⟩, room,
      _, found⟩

theorem ScopeStack.length_suspended_popFrame? (c : ScopeStack) :
    (c.popFrame?.getD c).suspended.length = c.suspended.length - 1 := by
  rw [popFrame?]
  split
  · next hnone => simp [hnone]
  · next hframes => simp [hframes]

theorem InOrder.turn (hload : img.Loaded) (h : InOrder img cfg s) (ht : Turn img cfg s s') :
    InOrder img cfg s' := by
  have hframes := h.frames
  rw [ScopeStack.frameDepth] at hframes
  cases ht with
  | stay returns edits ip =>
    refine ⟨?_, returns ▸ h.room, ?_, returns ▸ h.resume⟩
    · rw [ScopeStack.frameDepth, edits.suspended, hframes, returns]
    · rcases ip with ip | ip
      · exact ip ▸ h.ip
      · exact ip
  | @enter sig bindings call =>
    obtain ⟨hresume, hroom, id, found⟩ := resumesAt_of_enter call
    obtain ⟨hsettled, hip⟩ := s.settled_enter img.functions sig bindings
    refine ⟨?_, ?_, ?_, ?_⟩
    · rw [ScopeStack.frameDepth, hsettled.suspended, s.returns_enter, Array.size_push, ← hframes]
      rfl
    · rw [s.returns_enter, Array.size_push]
      exact hroom
    · rw [hip]
      exact hload.start_le found
    · intro line hline
      rw [s.returns_enter, Array.mem_push] at hline
      rcases hline with hline | rfl
      · exact h.resume line hline
      · exact hresume
  | leave v declared =>
    have hpop := s.returns_leave v declared
    cases hback : s.returns.back? with
    | none =>
      -- The entry function ends: the machine stops where it is, and its frame stays.
      rw [State.leave_of_none hback]
      exact ⟨h.frames, h.room, h.ip, h.resume⟩
    | some resume =>
      obtain ⟨rest, hrest⟩ := Array.back?_eq_some_iff.mp hback
      have hmem : resume ∈ s.returns := by simp [hrest]
      have hsettled := s.unwound.settled_publishResult v declared
      refine ⟨?_, ?_, ?_, ?_⟩
      · rw [hpop, Array.size_pop, ScopeStack.frameDepth, State.leave_of_some hback]
        show (s.unwound.publishResult v declared).scopes.suspended.length + 1 = _
        rw [hsettled.suspended, State.unwound, ScopeStack.length_suspended_popFrame?]
        have hsize : s.returns.size ≠ 0 := by simp [hrest]
        omega
      · rw [hpop, Array.size_pop]
        exact Nat.le_trans (Nat.sub_le _ _) h.room
      · rw [State.leave_of_some hback]
        exact (h.resume resume hmem).2.1
      · intro line hline
        rw [hpop, hrest, Array.pop_push] at hline
        exact h.resume line (by simp [hrest, hline])

/-! ### Functions -/

/-- The function is in the table. -/
def Image.Declares (img : Image) (id : FuncId) : Prop := id.index < img.functions.signatures.size

theorem Image.declares_of_lookup? {name : String} {id : FuncId}
    (h : img.functions.lookup? name = some id) : img.Declares id := by
  obtain ⟨sig, found, -⟩ := FunctionTable.signature?_of_lookup? h
  exact (Array.getElem?_eq_some_iff.mp found).1

theorem Image.declares_of_named? {name : String} {id : FuncId}
    (h : img.functions.named? name = some id) : img.Declares id := by
  rw [FunctionTable.named?] at h
  split at h
  · cases h
  · exact Image.declares_of_lookup? h

theorem Image.Declares.isSome_signature {id : FuncId} (h : img.Declares id) :
    (img.functions.signature? id).isSome = true := by
  rw [FunctionTable.signature?, Array.getElem?_eq_getElem h]
  rfl

/-- All functions that are referred to, also by captured values, are in the table. -/
def Known (img : Image) (s : State) : Prop :=
  ∃ kept h₀, Snapshot kept img.Declares h₀ s.capture ∧
    Sealed img kept img.Declares h₀ s.capture s

theorem Known.start (line : Nat) : Known img (.start line) :=
  Circulating.start Image.declares_of_named? line

theorem Known.step {σ : Type} {con : Console σ} {w w' : σ} {o : Outcome} (h : Known img s)
    (hstep : (step img cfg s).run con w = (o, w')) : Known img o.state :=
  Circulating.step h (fun _ _ => Image.declares_of_lookup?) hstep

/-! ### All states -/

/-- A machine in this state is sound: frames, calls and lines belong together, and every
function that is referred to is in the table. -/
structure Consistent (img : Image) (cfg : Config) (s : State) : Prop extends InOrder img cfg s where
  blocks : ∀ f ∈ s.scopes.current :: s.scopes.suspended, 1 ≤ f.depth
  cells : ∀ {c : CellId} {id : FuncId}, s.scopes.read c = .func (some id) → img.Declares id
  fields : ∀ {o : ObjId} {name : String} {id : FuncId},
    (name, .func (some id)) ∈ (s.heap.fields o).entries → img.Declares id
  captured : ∀ {t : Table Value} {name : String} {id : FuncId}, s.capture = some t →
    (name, .func (some id)) ∈ t.entries → img.Declares id
  aliases : ∀ {name : String} {id : FuncId}, s.aliases.find? name = some id → img.Declares id

theorem Known.consistent (h : Known img s) (hs : InOrder img cfg s) : Consistent img cfg s := by
  obtain ⟨kept, h₀, hsnap, hsealed⟩ := h
  exact ⟨hs, fun _ _ => Nat.le_add_left _ _, fun hc => (hsealed.held.cells _).function hc,
    fun he => hsealed.function_of_field hsnap he, fun ht he => (hsnap.captured ht he).function rfl,
    fun hid => hsealed.held.aliases hid⟩

theorem Known.isSome_signature {target : String} {callee : Operand.Callee} (h : Known img s)
    (hcallee : Operand.callee img s target = .ok callee) :
    (img.functions.signature? callee.id).isSome = true :=
  (Circulating.function_callee h hcallee).isSome_signature

end

/-- In whatever state any row of runs leaves a machine, it is consistent. So the way back
finds a frame wherever there is a line to resume at, and the target of a call has a
signature, as the entry function has. -/
theorem consistent_of_runs {p : Program} {cfg : Config} {m m' : Machine}
    (hload : Machine.load p cfg = .ok m) (h : m.Runs m') :
    Consistent m.image cfg m'.state ∧
      (m'.state.returns ≠ #[] → m'.state.scopes.popFrame?.isSome = true) ∧
      (∀ target callee, Operand.callee m.image m'.state target = .ok callee →
        (m.image.functions.signature? callee.id).isSome = true) ∧
      ∀ id, m.image.functions.named? cfg.entry = some id →
        (m.image.functions.signature? id).isSome = true := by
  obtain ⟨rfl, hloaded, rfl⟩ := Machine.load_eq_ok hload
  have hstart : ∀ line ≤ m.image.program.size,
      InOrder m.image m.config (.start line) ∧ Known m.image (.start line) := fun line hline =>
    ⟨⟨rfl, Nat.zero_le _, hline, nofun⟩, .start line⟩
  have hall : InOrder m.image m.config m'.state ∧ Known m.image m'.state := by
    refine h.invariant (P := fun s => InOrder m.image m.config s ∧ Known m.image s) ?_ ?_ ?_
    · rw [Machine.state_of_load hload]
      exact hstart 0 (Nat.zero_le _)
    · intro s hentry
      obtain ⟨id, sig, -, found, rfl⟩ := Machine.exists_of_entry hentry
      exact hstart _ (hloaded.start_le found)
    · intro σ con s o w w' hs hstep
      exact ⟨hs.1.turn hloaded (turn_of_step hstep), hs.2.step hstep⟩
  refine ⟨hall.2.consistent hall.1, ?_, ?_, ?_⟩
  · intro hreturns
    have hframes := hall.1.frames
    rw [ScopeStack.frameDepth] at hframes
    rw [ScopeStack.popFrame?]
    split
    · next hnone =>
      rw [hnone] at hframes
      exact absurd (Array.size_eq_zero_iff.mp (Nat.succ.inj hframes).symm) hreturns
    · rfl
  · exact fun target callee hcallee => hall.2.isSome_signature hcallee
  · exact fun id hid => (Image.declares_of_named? hid).isSome_signature

/-- A function that is called through a variable and fails. -/
def failingProgram : Program := .ofLines [
  "func main void",
  "  var func f",
  "  assign f fail",
  "  funccall f 3",
  "endfunc",
  "func fail n:int void",
  "  assign n missing",
  "endfunc"]

/-- A run that fails within a call, after one that was interrupted, leaves a line to resume
at and a variable that refers to a function. -/
theorem consistent_of_runs_failingProgram :
    Machine.load failingProgram {} = .ok { image := .ofProgram failingProgram } ∧
    ∃ m', Machine.Runs { image := .ofProgram failingProgram } m' ∧
      m'.state.returns = #[4] ∧ m'.state.ip = 6 ∧ m'.state.scopes.read ⟨0⟩ = .func (some ⟨1⟩) ∧
      Consistent (.ofProgram failingProgram) {} m'.state ∧
      m'.state.scopes.popFrame?.isSome = true := by
  have hload := Machine.load_eq_ofProgram (p := failingProgram) (by decide +kernel) {}
  have hruns : Machine.Runs { image := .ofProgram failingProgram } _ :=
    .run (.run .refl Buffer.console 2 {}) Buffer.console 9 {}
  obtain ⟨hconsistent, hpop, -⟩ := consistent_of_runs hload hruns
  exact ⟨hload, _, hruns, by decide +kernel, by decide +kernel, by decide +kernel, hconsistent,
    hpop (by decide +kernel)⟩

end LineScript
