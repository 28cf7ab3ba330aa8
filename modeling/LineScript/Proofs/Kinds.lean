/-
What kind of value a variable holds.

The name of a result is a name like others: a variable or a parameter may have it, and
then a result of another kind is published over what it holds. `kind_kept_unless_result`
says that there is no other way for a variable to change its kind, and in
`kind_kept_unless_result_resultProgram` a variable for a text becomes a number.

Where no variable and no parameter has the name of a result (`Image.SparesResults`), every
result finds a cell of its own kind (`Labelled`). There all cells keep their kinds through
the whole run, and so all variables and parameters have the kind they are declared with.
-/
import LineScript.Proofs.Arguments
import LineScript.Proofs.Changes
import LineScript.Proofs.Consistency

namespace LineScript

/-! ### Programs that spare the names of results -/

/-- No variable and no parameter has the name of a result. -/
structure Image.SparesResults (img : Image) : Prop where
  declared : ∀ n, img.program.keyword? n = some .var →
    ∀ name ∈ (img.program.line n).tokens.drop 2, name ∉ resultNames
  formal : ∀ sig ∈ img.functions.signatures, ∀ param ∈ sig.params, param.name ∉ resultNames

/-- The binding is allowed for the name: under the name of a result there are only new
cells, and of its kind. -/
def Binding.Suits (name : String) : Binding → Prop
  | .fresh v => v.Suits name
  | .shared _ => name ∉ resultNames

theorem Binding.suits_of_not_mem {name : String} (h : name ∉ resultNames) (b : Binding) :
    b.Suits name := by
  cases b with
  | fresh v => exact v.suits_of_not_mem h
  | shared d => exact h

/-- All entries of the table are as `P` says for their names. -/
def Table.Every {α : Type} (P : String → α → Prop) (t : Table α) : Prop :=
  ∀ e ∈ t.entries, P e.1 e.2

namespace Table.Every

variable {α : Type} {P P' : String → α → Prop} {t : Table α}

theorem mono (h : t.Every P) (hsub : ∀ name a, P name a → P' name a) : t.Every P' :=
  fun e he => hsub e.1 e.2 (h e he)

theorem insert (h : t.Every P) {name : String} {a : α} (ha : P name a) :
    (t.insert name a).Every P := by
  obtain ⟨entries⟩ := t
  induction entries with
  | nil =>
    intro e he
    rw [List.mem_singleton.mp he]
    exact ha
  | cons first rest ih =>
    obtain ⟨hfirst, hrest⟩ := List.forall_mem_cons.mp h
    rw [Table.insert, Table.put]
    split
    · next hkey => exact List.forall_mem_cons.mpr ⟨hkey ▸ ha, hrest⟩
    · exact List.forall_mem_cons.mpr ⟨hfirst, ih hrest⟩

theorem insertAll (h : t.Every P) {entries : List (String × α)}
    (hentries : ∀ e ∈ entries, P e.1 e.2) : (t.insertAll entries).Every P := by
  induction entries generalizing t with
  | nil => exact h
  | cons e rest ih =>
    obtain ⟨hone, hrest⟩ := List.forall_mem_cons.mp hentries
    exact ih (h.insert hone) hrest

end Table.Every

/-- The table for a whole frame has no entry that is not in one of its blocks. -/
theorem Frame.every_visible {P : String → CellId → Prop} {f : Frame} (h : f.All (Table.Every P)) :
    f.visible.Every P := by
  have hmerged : ∀ blocks : List Block, (∀ b ∈ blocks, b.Every P) → (merged blocks).Every P := by
    intro blocks hblocks
    induction blocks with
    | nil => exact nofun
    | cons block outer ih =>
      obtain ⟨hblock, houter⟩ := List.forall_mem_cons.mp hblocks
      rw [merged_cons]
      exact (ih houter).insertAll hblock
  refine hmerged f.blocks fun b hb => ?_
  rcases List.mem_append.mp hb with hb | hb
  · exact h.2 b hb
  · rw [List.mem_singleton.mp hb]
    exact h.1

namespace ScopeStack

variable {c c' : ScopeStack}

/-- The cell was made, and its value may stand under the name. -/
def Labels (c : ScopeStack) (name : String) (d : CellId) : Prop :=
  d.index < c.cells.size ∧ (c.read d).Suits name

/-- All names stand for cells whose values suit them. -/
def Labelled (c : ScopeStack) : Prop :=
  ∀ f ∈ c.current :: c.suspended, f.All (Table.Every c.Labels)

theorem Labels.of_keepsKinds {name : String} {d : CellId} (h : c.Labels name d)
    (hkeeps : KeepsKinds c c') : c'.Labels name d :=
  ⟨Nat.lt_of_lt_of_le h.1 hkeeps.size_le, h.2.congr (hkeeps.kind_eq h.1)⟩

/-- The frames that there were are labelled as before if all kinds are kept. -/
theorem Labelled.of_keepsKinds (h : c.Labelled) (hkeeps : KeepsKinds c c') :
    ∀ f ∈ c.current :: c.suspended, f.All (Table.Every c'.Labels) := by
  intro f hf
  have hlabels : ∀ name d, c.Labels name d → c'.Labels name d :=
    fun _ _ hd => hd.of_keepsKinds hkeeps
  exact ⟨(h f hf).1.mono hlabels, fun b hb => ((h f hf).2 b hb).mono hlabels⟩

theorem labels_push {v : Value} {name : String} (h : c'.cells = c.cells.push v)
    (hv : v.Suits name) : c'.Labels name ⟨c.cells.size⟩ := by
  constructor
  · simp [h]
  · simpa [read, h] using hv

theorem Labelled.change (hc : c.Labelled) (h : Change (fun name b => b.Suits name) c c') :
    c'.Labelled := by
  have hframes := hc.of_keepsKinds h.keepsKinds
  obtain ⟨hcurrent, hsuspended⟩ := List.forall_mem_cons.mp hframes
  have hempty : (Table.empty : Block).Every c'.Labels := nofun
  cases h with
  | pushFrame => exact List.forall_mem_cons.mpr ⟨⟨hempty, nofun⟩, hframes⟩
  | popFrame h =>
    rw [popFrame?] at h
    split at h
    · cases h
    · next hsome =>
      cases h
      rw [hsome] at hsuspended
      exact hsuspended
  | nestBlock =>
    have hnest : Frame.All (Table.Every c.nestBlock.Labels) c.nestBlock.current :=
      ⟨hcurrent.1, List.forall_mem_cons.mpr ⟨hempty, hcurrent.2⟩⟩
    exact List.forall_mem_cons.mpr ⟨hnest, hsuspended⟩
  | unnestBlock h =>
    rw [unnestBlock?] at h
    split at h
    · cases h
    · next hblocks =>
      cases h
      have hinner := hcurrent.2
      rw [hblocks, List.forall_mem_cons] at hinner
      exact List.forall_mem_cons.mpr ⟨⟨hcurrent.1, hinner.2⟩, hsuspended⟩
  | @bind name b allowed made =>
    -- A name of a result gets a new cell, and any cell suits another name.
    have hbind : ∀ {d : CellId}, (c.bind name b).Labels name d →
        (c.current.setInnermost (c.current.innermost.insert name d)).All
          (Table.Every (c.bind name b).Labels) :=
      fun hd => hcurrent.setInnermost (hcurrent.innermost.insert hd)
    cases b with
    | fresh v => exact List.forall_mem_cons.mpr ⟨hbind (labels_push rfl allowed), hsuspended⟩
    | shared d =>
      have hd : (c.bind name (.shared d)).Labels name d :=
        ⟨made d rfl, Value.suits_of_not_mem allowed _⟩
      exact List.forall_mem_cons.mpr ⟨hbind hd, hsuspended⟩
  | write => exact List.forall_mem_cons.mpr ⟨hcurrent, hsuspended⟩

theorem Labelled.changes (hc : c.Labelled) (h : Changes (fun name b => b.Suits name) c c') :
    c'.Labelled := by
  induction h with
  | refl => exact hc
  | tail _ change ih => exact ih.change change

/-- A result finds a cell of its own kind, or makes one. -/
theorem Labelled.reports (hc : c.Labelled) (h : Reports c c') :
    KeepsKinds c c' ∧ c'.Labelled := by
  cases h with
  | nothing => exact ⟨.refl c, hc⟩
  | @result name v named =>
    rw [publish]
    split
    · next cell hcell =>
      have hroot := (hc _ List.mem_cons_self).1
      have hkind : (c.read cell).kind = v.kind :=
        (hroot (name, cell) (Table.mem_of_find? hcell)).2 v.kind named
      have hkeeps : KeepsKinds c (c.write cell v) := .write hkind
      exact ⟨hkeeps, hc.of_keepsKinds hkeeps⟩
    · -- The cell is new, and the root block has it under the name.
      have hkeeps : KeepsKinds c { c with
          current.root := c.current.root.insert name ⟨c.cells.size⟩
          cells := c.cells.push v } := .of_push rfl
      obtain ⟨hcurrent, hsuspended⟩ := List.forall_mem_cons.mp (hc.of_keepsKinds hkeeps)
      have hroot := hcurrent.1.insert
        (labels_push (c := c) rfl (Value.suits_of_resultName? named))
      exact ⟨hkeeps, List.forall_mem_cons.mpr ⟨⟨hroot, hcurrent.2⟩, hsuspended⟩⟩

end ScopeStack

section
open ScopeStack (KeepsKinds)

variable {img : Image} {cfg : Config} {s s' : State}

/-- A declaration makes the variables that its line names. -/
theorem Plan.declare_eq_ok {type : DeclaredType} {names : List String}
    (h : Plan.next img cfg s = .ok (.effect (.declare type names))) :
    img.program.keyword? s.ip = some .var ∧ names = (img.program.line s.ip).tokens.drop 2 := by
  cases planned_of_next h with
  | declare here =>
    refine ⟨here, ?_⟩
    rw [next_of_keyword here, Plan.statement] at h
    rw [← List.drop_one] at h
    rw [show (2 : Nat) = 1 + 1 from rfl, ← List.drop_drop]
    generalize (img.program.line s.ip).tokens.drop 1 = args at h
    rw [Plan.declaration.eq_def] at h
    split at h
    · split at h
      · cases h
      · split at h <;> cases h
        rfl
    · cases h

/-- The values of all variables and all captured values suit their names, and functions
and cells that are referred to exist. -/
structure Labelled (img : Image) (s : State) : Prop where
  scopes : s.scopes.Labelled
  captured : ∀ {t : Table Value}, s.capture = some t → t.Every fun name v => v.Suits name
  inRange : s.scopes.InRange
  known : Known img s

namespace Labelled

theorem start (line : Nat) : Labelled img (.start line) := by
  refine ⟨?_, nofun, .empty, .start line⟩
  intro f hf
  rw [List.mem_singleton.mp hf]
  exact ⟨nofun, nofun⟩

theorem allows (hspares : img.SparesResults) (h : Labelled img s) :
    Allows (fun name b => b.Suits name) img cfg s := by
  constructor
  · intro type names hplan name hname v
    obtain ⟨here, rfl⟩ := Plan.declare_eq_ok hplan
    exact Binding.suits_of_not_mem (hspares.declared _ here name hname) _
  · intro sig bindings hplan b hb
    have hcall : call? img cfg s = some (sig, bindings) := by rw [call?, hplan]
    obtain ⟨⟨id, found⟩, this, args, rfl, hthis, hargs⟩ := bindings_of_call? hcall
    apply Binding.suits_of_not_mem
    rcases List.mem_append.mp hb with hb | hb
    · rw [((hthis b.1).mp (List.mem_map_of_mem hb)).1]
      decide
    · have hname : b.1 ∈ sig.params.map Param.name := hargs ▸ List.mem_map_of_mem hb
      obtain ⟨param, hparam, hname⟩ := List.mem_map.mp hname
      rw [← hname]
      exact hspares.formal sig (Array.mem_of_getElem? found) param hparam
  · intro t hcapture e he v hkind
    exact (h.captured hcapture e he).congr hkind

/-- A lambda captures values that suit their names. -/
theorem snapshot (h : Labelled img s) :
    (s.scopes.snapshot s.heap).1.Every fun name v => v.Suits name := by
  intro e he
  obtain ⟨e', he', hname, hkind⟩ := Heap.exists_of_mem_deepCopyAll _ he
  obtain ⟨b, hb, rfl⟩ := List.mem_map.mp he'
  have hlabels := Frame.every_visible (h.scopes _ List.mem_cons_self) b hb
  rw [hname]
  exact hlabels.2.congr hkind

/-- The capture is replaced where a lambda is made, and nowhere else. -/
theorem capture_of_step {σ : Type} {con : Console σ} {w w' : σ} {o : Outcome}
    (h : Labelled img s) (hstep : (step img cfg s).run con w = (o, w')) :
    o.state.capture = s.capture ∨ o.state.capture = some (s.scopes.snapshot s.heap).1 := by
  obtain ⟨kept, h₀, hsnap, hsealed⟩ := h.known
  rcases outcome_cases hstep with ⟨e, hplan, rfl⟩ | ⟨_, rfl, -⟩ | ⟨-, rfl | ⟨line, rfl⟩⟩
  · by_cases hk : img.program.keyword? s.ip = some .lambda
    · right
      rw [next_of_keyword hk] at hplan
      obtain ⟨id, -, heq⟩ := Plan.lambda_eq_ok hplan
      cases heq
      have hcapture : (s.captureFor id).capture = some (s.scopes.snapshot s.heap).1 := by
        obtain ⟨heap, scopes, hpublish, -, -⟩ := s.withCapture.publish_eq (.func (some id))
        rw [State.captureFor_eq, hpublish]
        rfl
      rw [Effect.apply, State.goOn.eq_def]
      split
      · exact hcapture
      · exact hcapture
    · left
      exact (hsealed.effect_apply hsnap (planned_of_next hplan) hk).capture
  · left
    rfl
  · left
    rfl
  · left
    exact (hsealed.publish (.str line)).capture

/-- Every line keeps the kinds of all cells and leaves suitable values. -/
theorem step {σ : Type} {con : Console σ} {w w' : σ} {o : Outcome} (hspares : img.SparesResults)
    (h : Labelled img s) (hstep : (step img cfg s).run con w = (o, w')) :
    KeepsKinds s.scopes o.state.scopes ∧ Labelled img o.state := by
  obtain ⟨c, hchanges, hreports⟩ := exists_changes_of_step (h.allows hspares) h.inRange hstep
  obtain ⟨hkeeps, hlabelled⟩ := (h.scopes.changes hchanges).reports hreports
  refine ⟨hchanges.keepsKinds.trans hkeeps, hlabelled, ?_, (turn_of_step hstep).inRange h.inRange,
    h.known.step hstep⟩
  intro t ht
  rcases h.capture_of_step hstep with hsame | hnew
  · exact h.captured (hsame ▸ ht)
  · rw [hnew] at ht
    cases ht
    exact h.snapshot

/-- So does a row of lines. -/
theorem steps {σ : Type} {con : Console σ} {w w' : σ} {during : State → Prop}
    (hspares : img.SparesResults) (h : Labelled img s)
    (hrow : Steps img cfg con during s w s' w') :
    KeepsKinds s.scopes s'.scopes ∧ Labelled img s' := by
  refine hrow.invariant (P := fun t => KeepsKinds s.scopes t.scopes ∧ Labelled img t)
    ⟨.refl _, h⟩ ?_
  intro t t' _ _ _ ht hstep
  obtain ⟨hkeeps, hlabelled⟩ := ht.2.step hspares hstep
  exact ⟨ht.1.trans hkeeps, hlabelled⟩

end Labelled

theorem Machine.Reached.labelled {σ : Type} {m : Machine} {con : Console σ} {w₀ w : σ}
    (hspares : m.image.SparesResults) (h : m.Reached con w₀ s w) : Labelled m.image s :=
  h.invariant (P := Labelled m.image) .start fun hs hstep => (hs.step hspares hstep).2

/-! ### Declared kinds -/

theorem Heap.kind_default (h : Heap) (type : DeclaredType) :
    (h.default type).1.kind = type.kind := by
  cases type <;> rfl

theorem Frame.cell?_of_innermost {f : Frame} {name : String} {d : CellId}
    (h : f.innermost.find? name = some d) : f.cell? name = some d := by
  rw [innermost] at h
  rw [cell?, blocks]
  cases hinner : f.inner with
  | nil =>
    rw [hinner] at h
    simp [h]
  | cons block outer =>
    rw [hinner] at h
    simp [h]

theorem Frame.innermost_setInnermost (f : Frame) (block : Block) :
    (f.setInnermost block).innermost = block := by
  cases hinner : f.inner with
  | nil => simp [setInnermost, innermost, hinner]
  | cons _ outer => simp [setInnermost, innermost, hinner]

/-- A variable of the innermost block stays where it is while others are made. -/
theorem State.declare_find? {type : DeclaredType} {names : List String} {name : String}
    {d : CellId} (h : s.scopes.current.innermost.find? name = some d)
    (hok : (s.declare type names).error = none) :
    (s.declare type names).state.scopes.current.innermost.find? name = some d := by
  induction names generalizing s with
  | nil => exact h
  | cons first rest ih =>
    rw [declare_cons] at hok ⊢
    split at hok
    · cases hok
    · next hnew =>
      rw [if_neg hnew]
      refine ih ?_ hok
      have hother : name ≠ first := by
        rintro rfl
        exact hnew (by rw [Table.contains, h]; rfl)
      rw [withVariable, ScopeStack.define, Frame.innermost_setInnermost, Table.find?_insert,
        if_neg hother, h]

/-- Each variable that a declaration makes has a cell of the declared kind. -/
theorem State.kind_declare {type : DeclaredType} {names : List String} {name : String}
    (hname : name ∈ names) (hok : (s.declare type names).error = none) :
    ∃ d, (s.declare type names).state.scopes.cell? name = some d ∧
      ((s.declare type names).state.scopes.read d).kind = type.kind := by
  induction names generalizing s with
  | nil => cases hname
  | cons first rest ih =>
    rw [declare_cons] at hok ⊢
    split at hok
    · cases hok
    · next hnew =>
      rw [if_neg hnew]
      rcases List.mem_cons.mp hname with rfl | hname
      · refine ⟨⟨s.scopes.cells.size⟩, Frame.cell?_of_innermost (declare_find? ?_ hok), ?_⟩
        · rw [withVariable, ScopeStack.define, Frame.innermost_setInnermost, Table.find?_insert,
            if_pos rfl]
        · -- The names that follow get cells of their own.
          have hchanges : ScopeStack.Changes (fun _ _ => True) (s.withVariable type name).scopes
              ((s.withVariable type name).declare type rest).state.scopes :=
            (s.withVariable type name).changes_declare type fun _ _ _ => trivial
          have hmade : s.scopes.cells.size < (s.withVariable type name).scopes.cells.size := by
            simp [withVariable, ScopeStack.define]
          rw [hchanges.keepsKinds.kind_eq (d := ⟨s.scopes.cells.size⟩) hmade,
            ← s.heap.kind_default type]
          simp [withVariable, ScopeStack.define, ScopeStack.read]
      · exact ih hname hok

/-- The line gives the cell a declared type: it declares a variable in the cell, or it
passes the cell as a parameter, by value or by a name. -/
inductive Introduces (img : Image) (cfg : Config) (s s' : State) (d : CellId) :
    DeclaredType → Prop
  | declared {type : DeclaredType} {names : List String} {name : String}
      (plan : Plan.next img cfg s = .ok (.effect (.declare type names))) (named : name ∈ names)
      (bound : s'.scopes.cell? name = some d) : Introduces img cfg s s' d type
  | passed {sig : Signature} {bindings : List (String × Binding)} {target actual : String}
      {actuals : List String} {param : Param} (call : call? img cfg s = some (sig, bindings))
      (here : (img.program.line s.ip).tokens.tail = target :: actuals)
      (last : (sig.params.zip actuals).reverse.find? (fun q => q.1.name = param.name) =
        some (param, actual))
      (plain : s.shared? param actual = none ∨ Operand.IsName actual)
      (bound : s'.scopes.cell? param.name = some d) : Introduces img cfg s s' d param.type

theorem Introduces.exists_cell? {d : CellId} {type : DeclaredType}
    (h : Introduces img cfg s s' d type) : ∃ name, s'.scopes.cell? name = some d := by
  cases h with
  | declared _ _ bound => exact ⟨_, bound⟩
  | passed _ _ _ _ bound => exact ⟨_, bound⟩

/-- What is introduced has the declared kind at first. -/
theorem Introduces.kind_eq {σ : Type} {con : Console σ} {w w' : σ} {d : CellId}
    {type : DeclaredType} (h : Introduces img cfg s s' d type) (hrange : s.scopes.InRange)
    (hstep : (step img cfg s).run con w = (⟨s', none⟩, w')) :
    (s'.scopes.read d).kind = type.kind := by
  cases h with
  | @declared type names name plan named bound =>
    rw [step, plan] at hstep
    have happly : (Effect.declare type names).apply img.functions s = ⟨s', none⟩ :=
      (Prod.mk.inj hstep).1
    rw [Effect.apply] at happly
    split at happly
    · next hfailed =>
      rw [happly] at hfailed
      cases hfailed
    · next hok =>
      cases happly
      obtain ⟨d', hd', hkind⟩ := State.kind_declare named (Option.not_isSome_iff_eq_none.mp hok)
      obtain rfl : d' = d := Option.some.inj (hd'.symm.trans bound)
      exact hkind
  | @passed sig bindings target actual actuals param call here last plain bound =>
    cases hstep.symm.trans (run_step_of_call? con w call)
    cases planned_of_next (call?_eq_some call) with
    | @call target' actuals' callee _ args _ here' _ resolved found arity passed _ =>
      obtain ⟨rfl, rfl⟩ := List.cons.inj (here.symm.trans here')
      obtain ⟨b, hb, hargument⟩ := exists_argument_of_find?
        (List.forall₂_reverse_iff.mpr (Plan.arguments_eq_ok passed)) last
      obtain ⟨v, hv, hkind, rfl⟩ := Plan.argument_eq_ok hargument
      have hcell : ∀ c, s.shared? param actual = some c → s.scopes.cell? actual = some c :=
        fun c hc => (State.shared?_eq_some.mp hc).2
      have hdelivered : Delivered s (s.enter img.functions sig
          (callee.receiver.toList.map (fun b => (receiverName, b)) ++ args))
          (s.shared? param actual) actual v param.name := by
        refine delivered_of_shareOr hrange ?_ hcell
          fun c hc hactual => Operand.read_of_resolve hactual (hcell c hc) hv
        rw [List.reverse_append, Table.lookup_append, hb]
        rfl
      obtain ⟨d', hd', -, hread⟩ := hdelivered
      obtain rfl : d' = d := Option.some.inj (hd'.symm.trans bound)
      rw [hread plain, hkind]

end

/-- A line, whether it succeeds or fails, leaves each variable its kind, unless the current
frame has the variable for results of the kind it gets. In a program that spares the names
of results all variables keep their kinds, in one line and in all that follow; so a
variable always has the kind it is declared with, and so has a parameter that is passed by
value or by a name. -/
theorem kind_kept_unless_result {σ : Type} {m : Machine} {con : Console σ} {w₀ w : σ} {s : State}
    (h : m.Reached con w₀ s w) :
    (∀ o w', (step m.image m.config s).run con w = (o, w') → ∀ d, s.scopes.Bears d →
      (o.state.scopes.read d).kind = (s.scopes.read d).kind ∨ o.state.scopes.IsResult d) ∧
    (m.image.SparesResults →
      (∀ o w', (step m.image m.config s).run con w = (o, w') → ∀ d, s.scopes.Bears d →
        (o.state.scopes.read d).kind = (s.scopes.read d).kind) ∧
      (∀ s' w', Steps m.image m.config con (fun t => t.terminated = false) s w s' w' →
        ∀ d, s.scopes.Bears d → (s'.scopes.read d).kind = (s.scopes.read d).kind) ∧
      ∀ s₁ w₁ s₂ w₂, (step m.image m.config s).run con w = (⟨s₁, none⟩, w₁) →
        Steps m.image m.config con (fun t => t.terminated = false) s₁ w₁ s₂ w₂ →
        ∀ d type, Introduces m.image m.config s s₁ d type →
          (s₂.scopes.read d).kind = type.kind) := by
  have hmade : ∀ d, s.scopes.Bears d → d.index < s.scopes.cells.size :=
    fun d hd => h.inRange.lt_of_bears hd
  refine ⟨fun o w' hstep d hd => kind_eq_or_isResult_of_step h.inRange hstep (hmade d hd), ?_⟩
  intro hspares
  have hs := h.labelled hspares
  refine ⟨?_, ?_, ?_⟩
  · intro o w' hstep d hd
    exact (hs.step hspares hstep).1.kind_eq (hmade d hd)
  · intro s' w' hrow d hd
    exact (hs.steps hspares hrow).1.kind_eq (hmade d hd)
  · intro s₁ w₁ s₂ w₂ hstep hrow d type hd
    have hs₁ := (hs.step hspares hstep).2
    obtain ⟨name, hname⟩ := hd.exists_cell?
    calc (s₂.scopes.read d).kind
      _ = (s₁.scopes.read d).kind :=
        (hs₁.steps hspares hrow).1.kind_eq (hs₁.inRange.cell? hname)
      _ = type.kind := hd.kind_eq h.inRange hstep

/-- A function that has a text under the name for numbers, and reads a number. -/
def resultProgram : Program := .ofLines [
  "func main void",
  "  var string resulti",
  "  funccall strtoint \"5\"",
  "  assign resulti \"x\"",
  "endfunc"]

/-- A function that has a text under a name of its own, reads a number, and passes the text
by reference. -/
def sparingProgram : Program := .ofLines [
  "func main void",
  "  var string text",
  "  funccall strtoint \"5\"",
  "  funccall rename text",
  "endfunc",
  "func rename t:refstring void",
  "  assign t \"x\"",
  "endfunc"]

theorem sparesResults_sparingProgram : (Image.ofProgram sparingProgram).SparesResults := by
  have hdeclared : ∀ n < 8, sparingProgram.keyword? n = some .var →
      ∀ name ∈ (sparingProgram.line n).tokens.drop 2, name ∉ resultNames := by decide +kernel
  constructor
  · intro n hk
    exact hdeclared n (Program.lt_size_of_keyword? hk) hk
  · decide +kernel

theorem next_sparingProgram : Plan.next (.ofProgram sparingProgram) {} (.start 1) =
    .ok (.effect (.declare .str ["text"])) := by
  have htokens : (sparingProgram.line 1).tokens.tail = ["string", "text"] := by decide +kernel
  rw [next_of_keyword (k := .var) (by decide +kernel)]
  show Plan.declaration (sparingProgram.line 1).tokens.tail = _
  rw [htokens]
  rfl

/-- The variable with the name of a result is a text before the number is read, and a
number afterwards. The other variable is a text to the end. -/
theorem kind_kept_unless_result_resultProgram :
    (∃ s w o w' d, Machine.Reached { image := .ofProgram resultProgram } Buffer.console {} s w ∧
      (step (.ofProgram resultProgram) {} s).run Buffer.console w = (o, w') ∧ o.error = none ∧
      s.scopes.cell? "resulti" = some d ∧ o.state.scopes.cell? "resulti" = some d ∧
      (s.scopes.read d).kind = .str ∧ (o.state.scopes.read d).kind = .int ∧
      o.state.scopes.IsResult d) ∧
    (Image.ofProgram sparingProgram).SparesResults ∧
    ∃ s w d, Machine.Reached { image := .ofProgram sparingProgram } Buffer.console {} s w ∧
      s.terminated = true ∧ s.scopes.cell? "text" = some d ∧ (s.scopes.read d).kind = .str := by
  refine ⟨?_, ?_⟩
  · have hstate : (stateAfter (.ofProgram resultProgram) {} Buffer.console 1 (.start 1) {}).map
        (fun x => (x.1.scopes.cell? "resulti", (x.1.scopes.read ⟨0⟩).kind,
          let y := (step (.ofProgram resultProgram) {} x.1).run Buffer.console x.2
          (y.1.error, y.1.state.scopes.cell? "resulti", (y.1.state.scopes.read ⟨0⟩).kind))) =
        some (some ⟨0⟩, .str, none, some ⟨0⟩, .int) := by decide +kernel
    obtain ⟨⟨s, w⟩, hstate, hx⟩ := Option.map_eq_some_iff.mp hstate
    simp only [Prod.mk.injEq] at hx
    obtain ⟨hcell, hkind, hok, hcell', hkind'⟩ := hx
    have hreached := Machine.reached_of_stateAfter (m := { image := .ofProgram resultProgram })
      (by decide +kernel) hstate
    refine ⟨s, w, _, _, ⟨0⟩, hreached, rfl, hok, hcell, hcell', hkind, hkind', ?_⟩
    refine ((kind_kept_unless_result hreached).1 _ _ rfl ⟨0⟩ ?_).resolve_left ?_
    · exact ScopeStack.bears_of_cell? hcell
    · rw [hkind, hkind']
      decide
  · refine ⟨sparesResults_sparingProgram, ?_⟩
    have hcells : (stateAfter (.ofProgram sparingProgram) {} Buffer.console (5 + 1) (.start 1)
        {}).map (fun x => (x.1.terminated, x.1.scopes.cell? "text")) =
          some (true, some ⟨0⟩) := by
      decide +kernel
    have hcell : (stateAfter (.ofProgram sparingProgram) {} Buffer.console 1 (.start 1) {}).map
        (fun x => x.1.scopes.cell? "text") = some (some ⟨0⟩) := by decide +kernel
    obtain ⟨⟨s₂, w₂⟩, hlast, hx₂⟩ := Option.map_eq_some_iff.mp hcells
    obtain ⟨hgoing, s₁, w₁, hstep, hrow⟩ := stateAfter_succ_eq_some.mp hlast
    simp only [stateAfter, hgoing, hstep, Bool.false_eq_true, if_false, Option.map_some,
      Option.some_inj] at hcell
    simp only [Prod.mk.injEq] at hx₂
    have hreached : ∀ {n : Nat} {x : State × Buffer},
        stateAfter (.ofProgram sparingProgram) {} Buffer.console n (.start 1) {} = some x →
        Machine.Reached { image := .ofProgram sparingProgram } Buffer.console {} x.1 x.2 :=
      fun hx => Machine.reached_of_stateAfter (m := { image := .ofProgram sparingProgram })
        (by decide +kernel) hx
    obtain ⟨-, -, hkinds⟩ :=
      (kind_kept_unless_result (hreached (n := 0) rfl)).2 sparesResults_sparingProgram
    exact ⟨s₂, w₂, ⟨0⟩, hreached hlast, hx₂.1, hx₂.2,
      hkinds s₁ w₁ s₂ w₂ hstep (steps_of_stateAfter hrow) ⟨0⟩ .str
        (.declared next_sparingProgram List.mem_cons_self hcell)⟩

end LineScript
