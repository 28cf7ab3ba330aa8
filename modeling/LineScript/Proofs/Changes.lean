/-
What a line changes, and what it leaves of the kinds of values.

A cell has the kind of the value in it. An assignment compares kinds before it writes, and
a declaration or a call makes new cells or shares old ones. So what a line does to the
variables is a row of changes that keep all kinds, and then at most one result
(`exists_changes_of_step`). Results are published without a look at what is there; so a
cell that gets another kind is one that the frame has for results of that kind
(`kind_eq_or_isResult_of_step`).

Which bindings are made on the way is a parameter of the changes, `Q`: whatever `Q` allows
for the names and values of a line (`Allows`) holds of all that the line binds.
-/
import LineScript.Proofs.Sharing

namespace LineScript

/-! ### Names of results -/

/-- The names under which results are published. -/
def resultNames : List String := Kind.all.filterMap Kind.resultName?

theorem mem_resultNames {kind : Kind} {name : String} (h : kind.resultName? = some name) :
    name ∈ resultNames := by
  refine List.mem_filterMap.mpr ⟨kind, ?_, h⟩
  cases kind <;> decide

/-- The value may stand under the name: if it is the name for results of a kind, then the
value is of the kind. -/
def Value.Suits (v : Value) (name : String) : Prop :=
  ∀ kind : Kind, kind.resultName? = some name → v.kind = kind

theorem Value.suits_of_not_mem {name : String} (h : name ∉ resultNames) (v : Value) :
    v.Suits name :=
  fun _ hname => absurd (mem_resultNames hname) h

/-- Different kinds of results have different names. -/
theorem Value.suits_of_resultName? {v : Value} {name : String}
    (h : v.kind.resultName? = some name) : v.Suits name := by
  intro kind hname
  revert h hname
  cases v <;> cases kind <;> simp +contextual [Value.kind, Kind.resultName?, eq_comm]

theorem Value.Suits.congr {v v' : Value} {name : String} (h : v.Suits name)
    (hkind : v'.kind = v.kind) : v'.Suits name :=
  fun kind hname => hkind.trans (h kind hname)

/-! ### Changes that keep kinds -/

namespace ScopeStack

variable {Q : String → Binding → Prop} {c c' c'' : ScopeStack}

/-- Some block of some frame has the cell. -/
def Bears (c : ScopeStack) (d : CellId) : Prop :=
  ∃ f ∈ c.current :: c.suspended, ∃ block ∈ f.blocks, ∃ name, block.find? name = some d

/-- The current frame has the cell for results of its kind. -/
def IsResult (c : ScopeStack) (d : CellId) : Prop :=
  ∃ name, (c.read d).kind.resultName? = some name ∧ c.current.root.find? name = some d

/-- One change to the variables, other than a result. A name is bound as `Q` allows, and a
cell is written with a value of the kind it has. -/
inductive Change (Q : String → Binding → Prop) : ScopeStack → ScopeStack → Prop
  | pushFrame (c : ScopeStack) : Change Q c c.pushFrame
  | popFrame {c c' : ScopeStack} (h : c.popFrame? = some c') : Change Q c c'
  | nestBlock (c : ScopeStack) : Change Q c c.nestBlock
  | unnestBlock {c c' : ScopeStack} (h : c.unnestBlock? = some c') : Change Q c c'
  | bind (c : ScopeStack) {name : String} {b : Binding} (allowed : Q name b)
      (made : ∀ d, b = .shared d → d.index < c.cells.size) : Change Q c (c.bind name b)
  | write (c : ScopeStack) {d : CellId} {v : Value} (kind : (c.read d).kind = v.kind) :
      Change Q c (c.write d v)

/-- The second stack comes from the first in a row of such changes. -/
def Changes (Q : String → Binding → Prop) : ScopeStack → ScopeStack → Prop :=
  Relation.ReflTransGen (Change Q)

/-- At most a value is published, under the name for results of its kind. -/
inductive Reports (c : ScopeStack) : ScopeStack → Prop
  | nothing : Reports c c
  | result {name : String} {v : Value} (named : v.kind.resultName? = some name) :
      Reports c (c.publish name v)

/-- All cells of the first stack have the same kind in the second. -/
structure KeepsKinds (c c' : ScopeStack) : Prop where
  size_le : c.cells.size ≤ c'.cells.size
  kind_eq : ∀ {d : CellId}, d.index < c.cells.size → (c'.read d).kind = (c.read d).kind

namespace KeepsKinds

theorem refl (c : ScopeStack) : KeepsKinds c c := ⟨Nat.le_refl _, fun _ => rfl⟩

theorem trans (h : KeepsKinds c c') (h' : KeepsKinds c' c'') : KeepsKinds c c'' := by
  constructor
  · exact Nat.le_trans h.size_le h'.size_le
  · intro d hd
    rw [h'.kind_eq (Nat.lt_of_lt_of_le hd h.size_le), h.kind_eq hd]

theorem of_cells (h : c'.cells = c.cells) : KeepsKinds c c' := by
  constructor
  · exact Nat.le_of_eq (congrArg Array.size h.symm)
  · intro d _
    rw [read, read, h]

/-- A new cell, whatever is bound to it. -/
theorem of_push {v : Value} (h : c'.cells = c.cells.push v) : KeepsKinds c c' := by
  constructor
  · simp [h]
  · intro d hd
    simp [read, h, Array.getElem?_push, Nat.ne_of_lt hd]

theorem write {d : CellId} {v : Value} (h : (c.read d).kind = v.kind) :
    KeepsKinds c (c.write d v) := by
  constructor
  · simp [ScopeStack.write]
  · intro e _
    rw [read_write]
    split
    · next heq => rw [heq.1, h]
    · rfl

end KeepsKinds

theorem Change.keepsKinds (h : Change Q c c') : KeepsKinds c c' := by
  cases h with
  | pushFrame => exact .of_cells rfl
  | popFrame h =>
    rw [popFrame?] at h
    split at h <;> cases h
    exact .of_cells rfl
  | nestBlock => exact .of_cells rfl
  | unnestBlock h =>
    rw [unnestBlock?] at h
    split at h <;> cases h
    exact .of_cells rfl
  | @bind name b =>
    cases b with
    | fresh v => exact .of_push rfl
    | shared d => exact .of_cells rfl
  | write kind => exact .write kind

theorem Changes.keepsKinds (h : Changes Q c c') : KeepsKinds c c' := by
  induction h with
  | refl => exact .refl c
  | tail _ change ih => exact ih.trans change.keepsKinds

/-- A result has the kind of its name, so a cell that gets another kind is one that the
frame has for results of the new kind. -/
theorem Reports.kind_eq_or_isResult (h : Reports c c') {d : CellId}
    (hd : d.index < c.cells.size) :
    (c'.read d).kind = (c.read d).kind ∨ c'.IsResult d := by
  cases h with
  | nothing => exact .inl rfl
  | @result name v named =>
    rw [publish]
    split
    · next cell hcell =>
      by_cases heq : d = cell
      · right
        have hread : (c.write cell v).read d = v := by
          rw [read_write, if_pos ⟨heq, heq ▸ hd⟩]
        exact ⟨name, by rw [hread, named], by rw [heq]; exact hcell⟩
      · left
        rw [read_write, if_neg fun h => heq h.1]
    · left
      exact (KeepsKinds.of_push rfl).kind_eq hd

theorem changes_bindAll {bindings : List (String × Binding)} (hQ : ∀ b ∈ bindings, Q b.1 b.2)
    (hmade : ∀ b ∈ bindings, ∀ d, b.2 = .shared d → d.index < c.cells.size) :
    Changes Q c (c.bindAll bindings) := by
  induction bindings generalizing c with
  | nil => exact .refl
  | cons b rest ih =>
    obtain ⟨hone, hrest⟩ := List.forall_mem_cons.mp hQ
    obtain ⟨hmade, hmadeRest⟩ := List.forall_mem_cons.mp hmade
    have hbind : Change Q c (c.bind b.1 b.2) := .bind c hone hmade
    refine .head hbind (ih hrest fun b' hb' d hd => ?_)
    exact Nat.lt_of_lt_of_le (hmadeRest b' hb' d hd) hbind.keepsKinds.size_le

theorem bears_of_cell? {name : String} {d : CellId} (h : c.cell? name = some d) : c.Bears d := by
  obtain ⟨block, hblock, hfind⟩ := List.exists_of_findSome?_eq_some h
  exact ⟨c.current, List.mem_cons_self, block, hblock, name, hfind⟩

theorem InRange.lt_of_bears (h : c.InRange) {d : CellId} (hd : c.Bears d) :
    d.index < c.cells.size := by
  obtain ⟨f, hf, block, hblock, name, hname⟩ := hd
  rcases List.mem_append.mp hblock with hinner | hroot
  · exact (h f hf).2 block hinner name d hname
  · rw [List.mem_singleton] at hroot
    exact (h f hf).1 name d (hroot ▸ hname)

end ScopeStack

/-! ### What a line changes -/

section
open ScopeStack (Change Changes Reports KeepsKinds)

variable {Q : String → Binding → Prop} {img : Image} {cfg : Config} {s s' : State}

/-- `Q` allows all that the line at the instruction pointer may bind. -/
structure Allows (Q : String → Binding → Prop) (img : Image) (cfg : Config) (s : State) :
    Prop where
  declared : ∀ {type : DeclaredType} {names : List String},
    Plan.next img cfg s = .ok (.effect (.declare type names)) →
      ∀ name ∈ names, ∀ v, Q name (.fresh v)
  passed : ∀ {sig : Signature} {bindings : List (String × Binding)},
    Plan.next img cfg s = .ok (.effect (.enter sig bindings)) → ∀ b ∈ bindings, Q b.1 b.2
  captured : ∀ {t : Table Value}, s.capture = some t → ∀ e ∈ t.entries, ∀ v : Value,
    v.kind = e.2.kind → Q e.1 (.fresh v)

namespace State

theorem reports_publish (s : State) (v : Value) : s.scopes.Reports (s.publish v).scopes := by
  rw [publish]
  split
  · exact .nothing
  · next named =>
    split
    · exact .result named
    · exact .result named

theorem reports_publishResult (s : State) (v : Option Value) (declared : Option DeclaredType) :
    s.scopes.Reports (s.publishResult v declared).scopes := by
  cases v with
  | some v => exact s.reports_publish v
  | none =>
    cases declared with
    | none => exact .nothing
    | some type =>
      rw [publishResult_none]
      split
      · exact .nothing
      · exact (s.withDefault type).reports_publish _

theorem changes_declare (s : State) (type : DeclaredType) {names : List String}
    (hQ : ∀ name ∈ names, ∀ v, Q name (.fresh v)) :
    Changes Q s.scopes (s.declare type names).state.scopes := by
  induction names generalizing s with
  | nil => exact .refl
  | cons name rest ih =>
    obtain ⟨hone, hrest⟩ := List.forall_mem_cons.mp hQ
    rw [declare_cons]
    split
    · exact .refl
    · have hdefine : Change Q s.scopes (s.withVariable type name).scopes :=
        .bind s.scopes (b := .fresh _) (hone _) nofun
      exact .head hdefine (ih (s.withVariable type name) hrest)

end State

theorem Heap.kind_deepCopy (h : Heap) (v : Value) : (h.deepCopy v).1.kind = v.kind := by
  cases v <;> rfl

/-- The copies have the names and the kinds of what is copied. -/
theorem Heap.exists_of_mem_deepCopyAll (h : Heap) {entries : List (String × Value)}
    {e : String × Value} (he : e ∈ (h.deepCopyAll entries).1) :
    ∃ e' ∈ entries, e.1 = e'.1 ∧ e.2.kind = e'.2.kind := by
  induction entries generalizing h with
  | nil => cases he
  | cons first rest ih =>
    rw [deepCopyAll_cons] at he
    rcases List.mem_cons.mp he with rfl | he
    · exact ⟨first, List.mem_cons_self, rfl, h.kind_deepCopy first.2⟩
    · obtain ⟨e', he', hsame⟩ := ih _ he
      exact ⟨e', List.mem_cons_of_mem _ he', hsame⟩

theorem Allows.restoreCapture (hQ : Allows Q img cfg s) (sig : Signature) :
    Changes Q (s.called sig).scopes (s.called sig).restoreCapture.scopes := by
  rw [State.restoreCapture]
  split
  · exact .refl
  · next captured hcapture =>
    apply ScopeStack.changes_bindAll
    · intro b hb
      obtain ⟨e, he, rfl⟩ := List.mem_map.mp hb
      obtain ⟨e', he', hname, hkind⟩ := Heap.exists_of_mem_deepCopyAll _ he
      show Q e.1 (.fresh e.2)
      rw [hname]
      exact hQ.captured hcapture e' he' e.2 hkind
    · intro b hb d hd
      obtain ⟨e, -, rfl⟩ := List.mem_map.mp hb
      cases hd

theorem Allows.enter (hQ : Allows Q img cfg s) (hrange : s.scopes.InRange) {sig : Signature}
    {bindings : List (String × Binding)}
    (call : Plan.next img cfg s = .ok (.effect (.enter sig bindings))) :
    Changes Q s.scopes (s.enter img.functions sig bindings).scopes := by
  have hcalled : Changes Q s.scopes (s.called sig).scopes := .single (.pushFrame _)
  have hmade : ∀ b ∈ bindings, ∀ d, b.2 = .shared d → d.index < s.scopes.cells.size := by
    intro b hb d hd
    obtain ⟨name, hname⟩ := (passed_of_shared call hb hd).exists_cell?
    exact hrange.cell? hname
  have hbind : ∀ {t : State}, Changes Q s.scopes t.scopes →
      Changes Q s.scopes (t.withBindings bindings).scopes := by
    intro t ht
    refine ht.trans (ScopeStack.changes_bindAll (hQ.passed call) fun b hb d hd => ?_)
    exact Nat.lt_of_lt_of_le (hmade b hb d hd) ht.keepsKinds.size_le
  rw [State.enter_eq]
  split
  · exact hbind (hcalled.trans (hQ.restoreCapture sig))
  · exact hbind hcalled

theorem State.exists_changes_leave (s : State) (v : Option Value)
    (declared : Option DeclaredType) :
    ∃ c, Changes Q s.scopes c ∧ c.Reports (s.leave v declared).scopes := by
  cases hback : s.returns.back? with
  | none =>
    rw [leave_of_none hback]
    exact ⟨_, .refl, .nothing⟩
  | some resume =>
    rw [leave_of_some hback]
    refine ⟨s.unwound.scopes, ?_, s.unwound.reports_publishResult v declared⟩
    rw [unwound]
    cases hpop : s.scopes.popFrame? with
    | none => exact .refl
    | some scopes => exact .single (.popFrame hpop)

theorem State.scopes_goOn (s : State) (next : Except Cause Nat) :
    (s.goOn next).state.scopes = s.scopes := by
  cases next <;> rfl

theorem Allows.effect (hQ : Allows Q img cfg s) (hrange : s.scopes.InRange) {e : Effect}
    (h : Plan.next img cfg s = .ok (.effect e)) :
    ∃ c, Changes Q s.scopes c ∧ c.Reports (e.apply img.functions s).state.scopes := by
  cases planned_of_next h with
  | blank => exact ⟨_, .refl, .nothing⟩
  | @declare type names =>
    have hchanges := s.changes_declare type (hQ.declared h)
    rw [Effect.apply]
    split
    · exact ⟨_, hchanges, .nothing⟩
    · exact ⟨_, hchanges, .nothing⟩
  | store _ _ _ kind => exact ⟨_, .single (.write _ kind), .nothing⟩
  | storeField => exact ⟨_, .refl, .nothing⟩
  | @convert n => exact ⟨_, .refl, s.reports_publish (.int n)⟩
  | call => exact ⟨_, hQ.enter hrange h, .nothing⟩
  | taken => exact ⟨_, .single (.nestBlock _), .nothing⟩
  | other => exact ⟨_, .single (.nestBlock _), .nothing⟩
  | skipped => exact ⟨_, .refl, .nothing⟩
  | finished => exact ⟨_, .refl, .nothing⟩
  | closing =>
    rw [Effect.apply, State.scopes_goOn]
    cases hunnest : s.scopes.unnestBlock? with
    | none => exact ⟨_, .refl, .nothing⟩
    | some scopes => exact ⟨_, .single (.unnestBlock hunnest), .nothing⟩
  | @capture id =>
    rw [Effect.apply, State.scopes_goOn, State.captureFor_eq]
    exact ⟨_, .refl, s.withCapture.reports_publish _⟩
  | leave => exact s.exists_changes_leave _ _
  | giveBack => exact s.exists_changes_leave _ _
  | endFunc => exact s.exists_changes_leave _ _
  | endLambda => exact s.exists_changes_leave _ _

/-- Every line, whether it succeeds or fails, makes changes that keep kinds, and then
publishes a result at most. -/
theorem exists_changes_of_step {σ : Type} {con : Console σ} {w w' : σ} {o : Outcome}
    (hQ : Allows Q img cfg s) (hrange : s.scopes.InRange)
    (h : (step img cfg s).run con w = (o, w')) :
    ∃ c, Changes Q s.scopes c ∧ c.Reports o.state.scopes := by
  rcases outcome_cases h with ⟨e, hplan, rfl⟩ | ⟨_, rfl, -⟩ | ⟨-, rfl | ⟨line, rfl⟩⟩
  · exact hQ.effect hrange hplan
  · exact ⟨_, .refl, .nothing⟩
  · exact ⟨_, .refl, .nothing⟩
  · exact ⟨_, .refl, s.reports_publish (.str line)⟩

/-- A cell that gets another kind is one that the current frame has for results of the new
kind. -/
theorem kind_eq_or_isResult_of_step {σ : Type} {con : Console σ} {w w' : σ} {o : Outcome}
    (hrange : s.scopes.InRange) (h : (step img cfg s).run con w = (o, w')) {d : CellId}
    (hd : d.index < s.scopes.cells.size) :
    (o.state.scopes.read d).kind = (s.scopes.read d).kind ∨ o.state.scopes.IsResult d := by
  have hall : Allows (fun _ _ => True) img cfg s :=
    ⟨fun _ _ _ _ => trivial, fun _ _ _ => trivial, fun _ _ _ _ _ => trivial⟩
  obtain ⟨c, hchanges, hreports⟩ := exists_changes_of_step hall hrange h
  have hkeeps := hchanges.keepsKinds
  rw [← hkeeps.kind_eq hd]
  exact hreports.kind_eq_or_isResult (Nat.lt_of_lt_of_le hd hkeeps.size_le)

end

end LineScript
