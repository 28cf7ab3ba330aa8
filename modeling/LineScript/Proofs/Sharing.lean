/-
Who shares a cell with whom.

A call binds the object of a method and its parameters, each to a new cell or to one of
the caller's (`Passed`). There is no other way for a cell to come into a frame: the
lines of a body bind new cells and write through the names they find. So what happens in
a frame touches the cells that came in with it, and the cells made meanwhile
(`ScopeStack.Touches`); and no name is ever bound to a cell that was not made
(`Machine.Reached.inRange`).
-/
import LineScript.Proofs.CallFrames
import LineScript.Proofs.HeapGraph

namespace LineScript

variable {img : Image} {cfg : Config} {s s' : State}

/-! ### What a call passes -/

/-- The call at the current line shares the cell with its caller: it is that of the
variable a method is called on, or that of the argument for a parameter by reference. -/
inductive Passed (img : Image) (s : State) (sig : Signature) (d : CellId) : Prop
  | receiver {target owner method : String} {actuals : List String}
      (here : (img.program.line s.ip).tokens.tail = target :: actuals)
      (path : Operand.path? target = some (owner, method))
      (cell : s.scopes.cell? owner = some d)
  | argument {target actual : String} {actuals : List String} {param : Param}
      (here : (img.program.line s.ip).tokens.tail = target :: actuals)
      (pair : (param, actual) ∈ sig.params.zip actuals)
      (reference : param.type.isReference = true) (cell : s.scopes.cell? actual = some d)

theorem Passed.exists_cell? {sig : Signature} {d : CellId} (h : Passed img s sig d) :
    ∃ name, s.scopes.cell? name = some d := by
  cases h with
  | receiver _ _ cell => exact ⟨_, cell⟩
  | argument _ _ _ cell => exact ⟨_, cell⟩

theorem Binding.shareOr_eq_shared {v : Value} {cell : Option CellId} {d : CellId}
    (h : Binding.shareOr v cell = .shared d) : cell = some d := by
  cases cell with
  | none => cases h
  | some d' =>
    cases h
    rfl

/-- A call shares no other cells. -/
theorem passed_of_shared {sig : Signature} {bindings : List (String × Binding)}
    {b : String × Binding} {d : CellId} (h : Plan.next img cfg s = .ok (.effect (.enter sig bindings)))
    (hb : b ∈ bindings) (hd : b.2 = .shared d) : Passed img s sig d := by
  cases planned_of_next h with
  | @call target actuals callee _ args _ here _ resolved _ _ passed _ =>
    rcases List.mem_append.mp hb with hb | hb
    · obtain ⟨r, hr, rfl⟩ := List.mem_map.mp hb
      rcases Operand.receiver_of_callee resolved with ⟨-, hnone⟩ | ⟨owner, method, o, path, -, hsome⟩
      · rw [hnone] at hr
        cases hr
      · rw [hsome, Option.toList_some, List.mem_singleton] at hr
        rw [hr, Operand.receiver_eq] at hd
        exact .receiver here path (Binding.shareOr_eq_shared hd)
    · obtain ⟨⟨param, actual⟩, hpair, -, hargument⟩ :=
        exists_mem_of_forall₂ (Plan.arguments_eq_ok passed) hb
      obtain ⟨v, -, -, hshare⟩ := Plan.argument_eq_ok hargument
      rw [hd] at hshare
      obtain ⟨hreference, hcell⟩ := State.shared?_eq_some.mp (Binding.shareOr_eq_shared hshare.symm)
      exact .argument here hpair hreference hcell

/-! ### What a frame can reach -/

/-- All entries of the table are of the kind. -/
def Table.Holds {α : Type} (P : α → Prop) (t : Table α) : Prop :=
  ∀ name a, t.find? name = some a → P a

theorem Table.Holds.insert {α : Type} {P : α → Prop} {t : Table α} (h : t.Holds P) (name : String)
    {a : α} (ha : P a) : (t.insert name a).Holds P := by
  intro key b hb
  rw [find?_insert] at hb
  split at hb
  · cases hb
    exact ha
  · exact h key b hb

/-- All cells that the frame binds are of the kind. -/
def Frame.Confined (P : CellId → Prop) (f : Frame) : Prop := f.All (Table.Holds P)

namespace Frame.Confined

variable {P Q : CellId → Prop} {f : Frame}

theorem empty : Confined P {} := ⟨nofun, nofun⟩

theorem mono (h : f.Confined P) (hsub : ∀ d, P d → Q d) : f.Confined Q :=
  ⟨fun name d hd => hsub d (h.1 name d hd), fun b hb name d hd => hsub d (h.2 b hb name d hd)⟩

theorem cell? (h : f.Confined P) {name : String} {d : CellId} (hd : f.cell? name = some d) :
    P d := by
  obtain ⟨block, hblock, hfind⟩ := List.exists_of_findSome?_eq_some hd
  rcases List.mem_append.mp hblock with hinner | hroot
  · exact h.2 block hinner name d hfind
  · rw [List.mem_singleton] at hroot
    exact h.1 name d (hroot ▸ hfind)

theorem insertInnermost (h : f.Confined P) (name : String) {d : CellId} (hd : P d) :
    (f.setInnermost (f.innermost.insert name d)).Confined P :=
  All.setInnermost h ((All.innermost (Q := Table.Holds P) h).insert name hd)

end Frame.Confined

namespace ScopeStack

variable {P : CellId → Prop} {c c' c'' : ScopeStack}

/-- The cell was made between the two stacks. -/
def Made (c c' : ScopeStack) (d : CellId) : Prop := c.cells.size ≤ d.index ∧ d.index < c'.cells.size

/-- The stacks differ in the current frame, which binds cells of the kind and cells made
meanwhile, and in cells of the kind. -/
structure Touches (P : CellId → Prop) (c c' : ScopeStack) : Prop where
  suspended : c'.suspended = c.suspended
  confined : c'.current.Confined fun d => P d ∨ Made c c' d
  size_le : c.cells.size ≤ c'.cells.size
  read_eq : ∀ {d : CellId}, d.index < c.cells.size → ¬ P d → c'.read d = c.read d

theorem Touches.refl (h : c.current.Confined P) : Touches P c c :=
  ⟨rfl, h.mono fun _ => .inl, Nat.le_refl _, fun _ _ => rfl⟩

theorem Touches.trans (h : Touches P c c') (h' : Touches (fun d => P d ∨ Made c c' d) c' c'') :
    Touches P c c'' := by
  have hle := h.size_le
  have hle' := h'.size_le
  refine ⟨h'.suspended.trans h.suspended, h'.confined.mono ?_, Nat.le_trans hle hle', ?_⟩
  · rintro d ((hd | hd) | hd)
    · exact .inl hd
    · exact .inr ⟨hd.1, Nat.lt_of_lt_of_le hd.2 hle'⟩
    · exact .inr ⟨Nat.le_trans hle hd.1, hd.2⟩
  · intro d hd hP
    have hold : ¬ (P d ∨ Made c c' d) := by
      rintro (hd' | hd')
      · exact hP hd'
      · exact Nat.not_lt_of_le hd'.1 hd
    rw [h'.read_eq (Nat.lt_of_lt_of_le hd hle) hold, h.read_eq hd hP]

/-- A new cell for a name of the current frame. -/
theorem Touches.new {frame : Frame} {v : Value} (hframe : frame.Confined fun d =>
    P d ∨ d = ⟨c.cells.size⟩) :
    Touches P c { c with current := frame, cells := c.cells.push v } := by
  refine ⟨rfl, hframe.mono ?_, by simp, ?_⟩
  · rintro d (hd | rfl)
    · exact .inl hd
    · exact .inr ⟨Nat.le_refl _, by simp⟩
  · intro d hd _
    simp [read, Array.getElem?_push, Nat.ne_of_lt hd]

theorem touches_define (h : c.current.Confined P) (name : String) (v : Value) :
    Touches P c (c.define name v) :=
  .new ((h.mono fun _ => .inl).insertInnermost name (.inr rfl))

theorem touches_write (h : c.current.Confined P) {d : CellId} (hd : P d) (v : Value) :
    Touches P c (c.write d v) := by
  refine ⟨rfl, h.mono fun _ => .inl, by simp [write], ?_⟩
  intro e _ he
  rw [read_write, if_neg]
  rintro ⟨rfl, -⟩
  exact he hd

theorem touches_publish (h : c.current.Confined P) (name : String) (v : Value) :
    Touches P c (c.publish name v) := by
  rw [publish]
  split
  · next d hd => exact touches_write h (h.1 name d hd) v
  · have hframe := h.mono (Q := fun d => P d ∨ d = ⟨c.cells.size⟩) fun _ => .inl
    exact .new ⟨hframe.1.insert name (.inr rfl), hframe.2⟩

theorem touches_bind (h : c.current.Confined P) (name : String) {b : Binding}
    (hb : ∀ d, b = .shared d → P d) : Touches P c (c.bind name b) := by
  cases b with
  | fresh v => exact touches_define h name v
  | shared d =>
    exact ⟨rfl, (h.insertInnermost name (hb d rfl)).mono fun _ => .inl, Nat.le_refl _,
      fun _ _ => rfl⟩

theorem touches_bindAll (h : c.current.Confined P) {bindings : List (String × Binding)}
    (hb : ∀ b ∈ bindings, ∀ d, b.2 = .shared d → P d) : Touches P c (c.bindAll bindings) := by
  induction bindings generalizing c P with
  | nil => exact .refl h
  | cons b rest ih =>
    obtain ⟨hone, hrest⟩ := List.forall_mem_cons.mp hb
    have hbind := touches_bind h b.1 hone
    exact hbind.trans (ih hbind.confined fun b' hb' d hd => .inl (hrest b' hb' d hd))

theorem Edit.touches (h : Edit c c') (hc : c.current.Confined P) : Touches P c c' := by
  cases h with
  | nestBlock =>
    have hempty : (Table.empty : Block).Holds P := nofun
    have hnest : c.nestBlock.current.Confined P :=
      ⟨hc.1, List.forall_mem_cons.mpr ⟨hempty, hc.2⟩⟩
    exact ⟨rfl, hnest.mono fun _ => .inl, Nat.le_refl _, fun _ _ => rfl⟩
  | unnestBlock h =>
    rw [unnestBlock?] at h
    split at h
    · cases h
    · next block outer hblocks =>
      cases h
      have hinner := hc.2
      rw [hblocks, List.forall_mem_cons] at hinner
      have hunnest : Frame.Confined P { c.current with inner := outer } := ⟨hc.1, hinner.2⟩
      exact ⟨rfl, hunnest.mono fun _ => .inl, Nat.le_refl _, fun _ _ => rfl⟩
  | define name v => exact touches_define hc name v
  | publish name v => exact touches_publish hc name v
  | write bound v => exact touches_write hc (hc.cell? bound) v

theorem Edits.touches (h : Edits c c') (hc : c.current.Confined P) : Touches P c c' := by
  induction h with
  | refl => exact .refl hc
  | tail _ edit ih => exact ih.trans (edit.touches ih.confined)

end ScopeStack

/-! ### Calls and the way back -/

/-- What a call binds in its frame touches the cells that it shares, if they are of the
kind. -/
theorem touches_enter {P : CellId → Prop} {sig : Signature} {bindings : List (String × Binding)}
    (call : Plan.next img cfg s = .ok (.effect (.enter sig bindings)))
    (hP : ∀ d, Passed img s sig d → P d) :
    s.scopes.pushFrame.Touches P (s.enter img.functions sig bindings).scopes := by
  obtain ⟨copies, hscopes⟩ := s.scopes_enter img.functions sig bindings
  rw [hscopes]
  refine ScopeStack.touches_bindAll .empty fun b hb d hd => ?_
  rcases List.mem_append.mp hb with hb | hb
  · obtain ⟨e, -, rfl⟩ := List.mem_map.mp hb
    cases hd
  · exact hP d (passed_of_shared call hb hd)

/-! ### Cells that were made -/

/-- All names are bound to cells that were made. -/
def ScopeStack.InRange (c : ScopeStack) : Prop :=
  ∀ f ∈ c.current :: c.suspended, f.Confined fun d => d.index < c.cells.size

namespace ScopeStack.InRange

variable {c c' : ScopeStack}

theorem empty : InRange {} := by
  intro f hf
  rw [List.mem_singleton.mp hf]
  exact .empty

theorem cell? (h : c.InRange) {name : String} {d : CellId} (hd : c.cell? name = some d) :
    d.index < c.cells.size :=
  (h _ List.mem_cons_self).cell? hd

theorem pushFrame (h : c.InRange) : c.pushFrame.InRange :=
  List.forall_mem_cons.mpr ⟨.empty, h⟩

theorem popFrame? (h : c.InRange) : (c.popFrame?.getD c).InRange := by
  rw [ScopeStack.popFrame?]
  split
  · exact h
  · next hframes =>
    rw [InRange, hframes] at h
    exact (List.forall_mem_cons.mp h).2

theorem touches (h : c.InRange) (ht : Touches (fun d => d.index < c.cells.size) c c') :
    c'.InRange := by
  have hsize := ht.size_le
  refine List.forall_mem_cons.mpr ⟨ht.confined.mono ?_, ?_⟩
  · rintro d (hd | hd)
    · exact Nat.lt_of_lt_of_le hd hsize
    · exact hd.2
  · rw [ht.suspended]
    intro f hf
    exact (h f (List.mem_cons_of_mem _ hf)).mono fun d hd => Nat.lt_of_lt_of_le hd hsize

theorem edits (h : c.InRange) (he : Edits c c') : c'.InRange :=
  h.touches (he.touches (h _ List.mem_cons_self))

end ScopeStack.InRange

theorem Turn.inRange (h : Turn img cfg s s') (hs : s.scopes.InRange) : s'.scopes.InRange := by
  cases h with
  | stay _ edits => exact hs.edits edits
  | enter call =>
    refine hs.pushFrame.touches (touches_enter call fun d hd => ?_)
    obtain ⟨name, hname⟩ := hd.exists_cell?
    exact hs.cell? hname
  | leave v declared =>
    cases hback : s.returns.back? with
    | none =>
      rw [State.leave_of_none hback]
      exact hs
    | some resume =>
      rw [State.leave_of_some hback]
      exact hs.popFrame?.edits (s.unwound.published_publishResult v declared).edits

theorem Machine.Reached.inRange {σ : Type} {m : Machine} {con : Console σ} {w₀ w : σ}
    (h : m.Reached con w₀ s w) : s.scopes.InRange := by
  refine h.invariant (P := fun s => s.scopes.InRange) (fun _ => .empty) ?_
  exact fun hs hstep => (turn_of_step hstep).inRange hs

end LineScript
