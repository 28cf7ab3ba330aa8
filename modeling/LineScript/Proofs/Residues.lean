/-
What a line leaves that fails.

A line that fails stays where it is, and mostly it has changed nothing. Some lines do a part of
their work before they fail: a declaration makes variables until it comes to a name that is taken,
the end of a block closes the block before it looks where to go on, and a lambda is captured
before the end of its body is looked for. `Residue` lists what may be left.

* `residue_of_step` says that nothing else is left;
* `Residue.unmoved` and `Residue.eq_of_keyword?` are read off it: calls, frames and objects stay
  as they were in any case, and all the rest does if the line is none of these;
* `console_of_failing_step` says the same of the console.

`failing_line_leaves` ties them to the runs of a machine, whose errors carry the line that failed
(`Placed`). Only an error of a console may name a line itself, and then that one is kept
(`error_of_console_names_another_line`).
-/
import LineScript.Proofs.Failures
import LineScript.Proofs.Headers
import LineScript.Proofs.Kinds

namespace LineScript

/-! ### Objects and cells that stay -/

/-- The second heap has the objects of the first one as they were. -/
structure Heap.Keeps (h h' : Heap) : Prop where
  size_le : h.size ≤ h'.size
  fields_eq : ∀ o : ObjId, o.index < h.size → h'.fields o = h.fields o

/-- The second stack has the cells of the first one with their values. -/
structure ScopeStack.KeepsCells (c c' : ScopeStack) : Prop where
  size_le : c.cells.size ≤ c'.cells.size
  read_eq : ∀ d : CellId, d.index < c.cells.size → c'.read d = c.read d

namespace Heap

variable {h h' h'' : Heap}

theorem Keeps.refl (h : Heap) : h.Keeps h := ⟨Nat.le_refl _, fun _ _ => rfl⟩

theorem Keeps.trans (hk : h.Keeps h') (hk' : h'.Keeps h'') : h.Keeps h'' where
  size_le := Nat.le_trans hk.size_le hk'.size_le
  fields_eq o ho :=
    (hk'.fields_eq o (Nat.lt_of_lt_of_le ho hk.size_le)).trans (hk.fields_eq o ho)

theorem keeps_alloc (h : Heap) (fields : Fields) : h.Keeps (h.alloc fields).2 where
  size_le := by simp [alloc, size]
  fields_eq o ho := by rw [fields_alloc, if_neg (Nat.ne_of_lt ho)]

theorem keeps_default (h : Heap) (type : DeclaredType) : h.Keeps (h.default type).2 := by
  rw [default]
  split
  case h_6 => exact h.keeps_alloc _
  all_goals exact .refl h

theorem keeps_deepCopy (h : Heap) (v : Value) : h.Keeps (h.deepCopy v).2 where
  size_le := by
    cases v with
    | object o =>
      rw [deepCopy_object, size_withCopies]
      exact Nat.le_add_right _ _
    | int | bool | str | void | func => exact Nat.le_refl _
  fields_eq _ ho := h.fields_deepCopy_of_lt v ho

theorem keeps_deepCopyAll (h : Heap) (entries : List (String × Value)) :
    h.Keeps (h.deepCopyAll entries).2 := by
  induction entries generalizing h with
  | nil => exact .refl h
  | cons e rest ih =>
    rw [deepCopyAll_cons]
    exact (h.keeps_deepCopy e.2).trans (ih _)

end Heap

namespace ScopeStack

variable {c c' c'' : ScopeStack}

theorem KeepsCells.refl (c : ScopeStack) : c.KeepsCells c := ⟨Nat.le_refl _, fun _ _ => rfl⟩

theorem KeepsCells.trans (hk : c.KeepsCells c') (hk' : c'.KeepsCells c'') : c.KeepsCells c'' where
  size_le := Nat.le_trans hk.size_le hk'.size_le
  read_eq d hd := (hk'.read_eq d (Nat.lt_of_lt_of_le hd hk.size_le)).trans (hk.read_eq d hd)

theorem keepsCells_define (c : ScopeStack) (name : String) (v : Value) :
    c.KeepsCells (c.define name v) where
  size_le := by simp [define]
  read_eq d hd := by simp [define, read, Array.getElem?_push, Nat.ne_of_lt hd]

end ScopeStack

namespace Frame

theorem setInnermost_innermost (f : Frame) : f.setInnermost f.innermost = f := by
  obtain ⟨inner, root⟩ := f
  cases inner with
  | nil => rfl
  | cons block outer => rfl

theorem setInnermost_setInnermost (f : Frame) (block block' : Block) :
    (f.setInnermost block).setInnermost block' = f.setInnermost block' := by
  obtain ⟨inner, root⟩ := f
  cases inner with
  | nil => rfl
  | cons first outer => rfl

end Frame

/-! ### Variables that are added -/

/-- The value is one that a variable of the kind starts with. An object is new, and it has no
fields. -/
inductive Heap.Initial (h h' : Heap) : Kind → Value → Prop
  | int : Initial h h' .int (.int 0)
  | bool : Initial h h' .bool (.bool false)
  | str : Initial h h' .str (.str "")
  | void : Initial h h' .void .void
  | func : Initial h h' .func (.func none)
  | object {o : ObjId} (new : New h h' o) (empty : h'.fields o = Table.empty) :
      Initial h h' .object (.object o)

/-- The innermost block. -/
def State.block (s : State) : Block := s.scopes.current.innermost

/-- The second state has variables of the type in addition, and nothing else is different. They
are new in the innermost block, and each has a cell of its own with the value that it starts
with. -/
structure AddsVariables (type : DeclaredType) (made : List String) (s s' : State) : Prop where
  rest : s' = { s with heap := s'.heap, scopes := s'.scopes }
  suspended : s'.scopes.suspended = s.scopes.suspended
  frame : s'.scopes.current = s.scopes.current.setInnermost s'.block
  cells : s.scopes.KeepsCells s'.scopes
  objects : s.heap.Keeps s'.heap
  old : ∀ name ∉ made, s'.block.find? name = s.block.find? name
  new : ∀ name ∈ made, s.block.find? name = none ∧ ∃ c, s'.block.find? name = some c ∧
    s.scopes.Made s'.scopes c ∧ s.heap.Initial s'.heap type.kind (s'.scopes.read c)
  apart : made.Pairwise fun name name' => ∀ c c', s'.block.find? name = some c →
    s'.block.find? name' = some c' →
      c ≠ c' ∧ ∀ o, s'.scopes.read c = .object o → s'.scopes.read c' ≠ .object o

theorem Heap.Initial.mono {h h₁ h₂ : Heap} {kind : Kind} {v : Value}
    (hv : h₁.Initial h₂ kind v) (hle : h.size ≤ h₁.size) : h.Initial h₂ kind v := by
  cases hv with
  | int => exact .int
  | bool => exact .bool
  | str => exact .str
  | void => exact .void
  | func => exact .func
  | object new empty => exact .object ⟨Nat.le_trans hle new.1, new.2⟩ empty

/-- The value that a variable is made with is one that it starts with, whatever is made later. -/
theorem Heap.initial_default (h : Heap) (type : DeclaredType) {h' : Heap}
    (hkeeps : (h.default type).2.Keeps h') : h.Initial h' type.kind (h.default type).1 := by
  rw [default] at hkeeps ⊢
  generalize type.kind = kind at hkeeps ⊢
  cases kind with
  | int => exact .int
  | bool => exact .bool
  | str => exact .str
  | void => exact .void
  | func => exact .func
  | object =>
    have hlt : h.size < (h.alloc Table.empty).2.size := by simp [alloc, size]
    refine .object ⟨Nat.le_refl _, Nat.lt_of_lt_of_le hlt hkeeps.size_le⟩ ?_
    have hfields := hkeeps.fields_eq ⟨h.size⟩ hlt
    rwa [fields_alloc, if_pos rfl] at hfields

theorem Heap.Initial.new_of_object {h h' : Heap} {kind : Kind} {o : ObjId}
    (hv : h.Initial h' kind (.object o)) : New h h' o := by
  cases hv with
  | object new => exact new

section
variable {type : DeclaredType} {made : List String} {name : String} {s s' : State}

theorem AddsVariables.nil (type : DeclaredType) (s : State) : AddsVariables type [] s s where
  rest := rfl
  suspended := rfl
  frame := s.scopes.current.setInnermost_innermost.symm
  cells := .refl _
  objects := .refl _
  old _ _ := rfl
  new _ hname := absurd hname List.not_mem_nil
  apart := .nil

theorem State.block_withVariable (s : State) (type : DeclaredType) (name : String) :
    (s.withVariable type name).block = s.block.insert name ⟨s.scopes.cells.size⟩ :=
  Frame.innermost_setInnermost _ _

theorem State.find?_withVariable (s : State) (type : DeclaredType) (name other : String) :
    (s.withVariable type name).block.find? other =
      if other = name then some ⟨s.scopes.cells.size⟩ else s.block.find? other := by
  rw [block_withVariable, Table.find?_insert]

theorem State.cells_lt_withVariable (s : State) (type : DeclaredType) (name : String) :
    s.scopes.cells.size < (s.withVariable type name).scopes.cells.size := by
  simp [withVariable, ScopeStack.define]

namespace AddsVariables

/-! A variable is made first, and then others; `made` are the names of the others. -/

theorem not_mem_made (h : AddsVariables type made (s.withVariable type name) s') :
    name ∉ made := by
  intro hmem
  have hnone := (h.new name hmem).1
  rw [s.find?_withVariable, if_pos rfl] at hnone
  cases hnone

/-- The first variable keeps its cell. -/
theorem find?_first (h : AddsVariables type made (s.withVariable type name) s') :
    s'.block.find? name = some ⟨s.scopes.cells.size⟩ := by
  rw [h.old name h.not_mem_made, s.find?_withVariable, if_pos rfl]

/-- The first variable keeps its value. -/
theorem read_first (h : AddsVariables type made (s.withVariable type name) s') :
    s'.scopes.read ⟨s.scopes.cells.size⟩ = (s.heap.default type).1 := by
  rw [h.cells.read_eq ⟨s.scopes.cells.size⟩ (s.cells_lt_withVariable type name)]
  simp [State.withVariable, ScopeStack.define, ScopeStack.read]

/-- The first variable shares neither its cell nor its object with another one. -/
theorem first_apart (h : AddsVariables type made (s.withVariable type name) s') {other : String}
    (hmem : other ∈ made) {c : CellId} (hc : s'.block.find? other = some c) :
    ⟨s.scopes.cells.size⟩ ≠ c ∧ ∀ o, s'.scopes.read ⟨s.scopes.cells.size⟩ = .object o →
      s'.scopes.read c ≠ .object o := by
  obtain ⟨-, c', hc', hmade, hvalue⟩ := h.new other hmem
  obtain rfl : c = c' := Option.some.inj (hc.symm.trans hc')
  refine ⟨?_, ?_⟩
  · rintro rfl
    exact Nat.not_lt_of_le hmade.1 (s.cells_lt_withVariable type name)
  · intro o ho ho'
    rw [h.read_first] at ho
    rw [ho'] at hvalue
    -- The first object was there when the others were made.
    have hfirst := s.heap.initial_default type (.refl _)
    rw [ho] at hfirst
    exact Nat.not_lt_of_le hvalue.new_of_object.1 hfirst.new_of_object.2

theorem cons (hnew : s.block.find? name = none)
    (h : AddsVariables type made (s.withVariable type name) s') :
    AddsVariables type (name :: made) s s' := by
  have hcells : s.scopes.KeepsCells (s.withVariable type name).scopes :=
    s.scopes.keepsCells_define name _
  have hobjects : s.heap.Keeps (s.withVariable type name).heap := s.heap.keeps_default type
  refine ⟨h.rest, h.suspended, ?_, hcells.trans h.cells, hobjects.trans h.objects, ?_, ?_, ?_⟩
  · exact h.frame.trans (Frame.setInnermost_setInnermost _ _ _)
  · intro other hmem
    obtain ⟨hne, hmem⟩ := List.ne_and_not_mem_of_not_mem_cons hmem
    rw [h.old other hmem, s.find?_withVariable, if_neg hne]
  · intro other hmem
    rcases List.mem_cons.mp hmem with rfl | hmem
    · refine ⟨hnew, _, h.find?_first, ⟨Nat.le_refl _, ?_⟩, ?_⟩
      · exact Nat.lt_of_lt_of_le (s.cells_lt_withVariable type other) h.cells.size_le
      · rw [h.read_first]
        exact s.heap.initial_default type h.objects
    · obtain ⟨hnone, c, hc, hmade, hvalue⟩ := h.new other hmem
      have hne : other ≠ name := fun heq => h.not_mem_made (heq ▸ hmem)
      rw [s.find?_withVariable, if_neg hne] at hnone
      exact ⟨hnone, c, hc, ⟨Nat.le_trans hcells.size_le hmade.1, hmade.2⟩,
        hvalue.mono hobjects.size_le⟩
  · refine .cons ?_ h.apart
    intro other hmem c c' hc hc'
    obtain rfl : ⟨s.scopes.cells.size⟩ = c := Option.some.inj (h.find?_first.symm.trans hc)
    exact h.first_apart hmem hc'

end AddsVariables

/-- A declaration that fails has made the variables before a name that is taken. -/
theorem exists_addsVariables_of_declare {names : List String} {cause : Cause}
    (h : s.declare type names = ⟨s', some cause⟩) :
    ∃ made name rest, names = made ++ name :: rest ∧ AddsVariables type made s s' := by
  induction names generalizing s with
  | nil => cases h
  | cons name rest ih =>
    rw [State.declare_cons] at h
    split at h
    · cases h
      exact ⟨[], name, rest, rfl, .nil _ _⟩
    · next hnew =>
      obtain ⟨made, taken, rest, rfl, hadds⟩ := ih h
      refine ⟨name :: made, taken, rest, rfl, hadds.cons ?_⟩
      rw [Table.contains, Bool.not_eq_true, Option.isSome_eq_false_iff, Option.isNone_iff_eq_none]
        at hnew
      exact hnew

end

/-! ### What a line leaves -/

/-- The machine is where it was: at the same line, within the same calls and the same frames of
callers, with the functions known by the same names, and with all objects as they were. -/
structure Unmoved (s s' : State) : Prop where
  ip : s'.ip = s.ip
  returns : s'.returns = s.returns
  suspended : s'.scopes.suspended = s.scopes.suspended
  aliases : s'.aliases = s.aliases
  terminated : s'.terminated = s.terminated
  objects : s.heap.Keeps s'.heap

/-- What may be left of a line that has failed: nothing; variables of a declaration, up to a name
that is not made; a block that is closed; or a lambda that is captured and published. -/
inductive Residue (img : Image) (s : State) : State → Prop
  | nothing : Residue img s s
  | declared {s' : State} {word name : String} {type : DeclaredType} {made rest : List String}
      (here : img.program.keyword? s.ip = some .var)
      (line : (img.program.line s.ip).tokens =
        Keyword.var.text :: word :: (made ++ name :: rest))
      (typed : DeclaredType.ofText? word = some type)
      (adds : AddsVariables type made s s') : Residue img s s'
  | block {scopes : ScopeStack}
      (here : img.program.keyword? s.ip = some .otherwise ∨
        img.program.keyword? s.ip = some .endLoop)
      (closed : s.scopes.unnestBlock? = some scopes) : Residue img s { s with scopes }
  | lambda {heap : Heap} {captured : Table Value} {id : FuncId}
      (here : img.program.keyword? s.ip = some .lambda)
      (found : img.functions.lookup? (lambdaName s.ip) = some id)
      (objects : s.heap.Keeps heap) :
      Residue img s { s with
        heap, capture := some captured, scopes := s.scopes.publish "resultf" (.func (some id)) }

section
variable {img : Image} {cfg : Config} {s s' : State} {cause : Cause}

theorem Residue.unmoved (h : Residue img s s') : Unmoved s s' := by
  cases h with
  | nothing => exact ⟨rfl, rfl, rfl, rfl, rfl, .refl _⟩
  | declared _ _ _ adds =>
    have hsuspended := adds.suspended
    have hobjects := adds.objects
    rw [adds.rest] at hsuspended hobjects ⊢
    exact ⟨rfl, rfl, hsuspended, rfl, rfl, hobjects⟩
  | block _ closed =>
    refine ⟨rfl, rfl, ?_, rfl, rfl, .refl _⟩
    exact (ScopeStack.Edit.unnestBlock closed).suspended
  | lambda _ _ objects => exact ⟨rfl, rfl, s.scopes.suspended_publish _ _, rfl, rfl, objects⟩

/-- Only declarations, ends of blocks and lambdas leave something. -/
theorem Residue.eq_of_keyword? (h : Residue img s s')
    (hk : ∀ k ∈ [Keyword.var, .otherwise, .endLoop, .lambda],
      img.program.keyword? s.ip ≠ some k) : s' = s := by
  cases h with
  | nothing => rfl
  | declared here => exact absurd here (hk .var (by decide))
  | block here =>
    rcases here with here | here
    · exact absurd here (hk .otherwise (by decide))
    · exact absurd here (hk .endLoop (by decide))
  | lambda here => exact absurd here (hk .lambda (by decide))

/-- The type of a declaration and its names stand on the line. -/
theorem Plan.exists_word_of_declare {type : DeclaredType} {names : List String}
    (h : Plan.next img cfg s = .ok (.effect (.declare type names))) :
    ∃ word, (img.program.line s.ip).tokens = Keyword.var.text :: word :: names ∧
      DeclaredType.ofText? word = some type := by
  cases planned_of_next h with
  | declare here =>
    rw [next_of_keyword here, Plan.statement, Plan.declaration.eq_def] at h
    rw [Program.tokens_of_keyword? here]
    split at h
    · next word first rest hargs =>
      split at h
      · cases h
      · next hword =>
        split at h <;> cases h
        rw [hargs]
        exact ⟨word, rfl, (DeclaredType.storable?_eq_some_iff.mp hword).1⟩
    · cases h

/-- The effects that can fail, and what they leave. -/
theorem residue_of_effect {e : Effect} (hplan : Plan.next img cfg s = .ok (.effect e))
    (h : e.apply img.functions s = ⟨s', some cause⟩) : Residue img s s' := by
  cases planned_of_next hplan with
  | @declare type names here =>
    rw [Effect.apply] at h
    split at h
    · obtain ⟨made, name, rest, rfl, hadds⟩ := exists_addsVariables_of_declare h
      obtain ⟨word, hline, hword⟩ := Plan.exists_word_of_declare hplan
      exact .declared here hline hword hadds
    · cases h
  | @closing k here kind inside =>
    obtain ⟨block, outer, hinner⟩ := List.exists_cons_of_ne_nil inside
    have hunnest : s.scopes.unnestBlock? =
        some { s.scopes with current.inner := outer } := by
      rw [ScopeStack.unnestBlock?, hinner]
    rw [Effect.apply, hunnest, Option.getD_some] at h
    cases hexit : Plan.blockExit img s k with
    | ok line =>
      rw [hexit] at h
      cases h
    | error reason =>
      rw [hexit] at h
      cases h
      refine .block ?_ hunnest
      rcases kind with rfl | rfl | rfl
      · exact .inl here
      · -- The end of a branch always goes on with the next line.
        cases hexit
      · exact .inr here
  | @capture id here found =>
    rw [Effect.apply] at h
    cases hend : Plan.after .endLambda (img.program.blockEnd? .endLambda s.ip) with
    | ok line =>
      rw [hend] at h
      cases h
    | error reason =>
      rw [hend] at h
      cases h
      exact .lambda here found (s.heap.keeps_deepCopyAll _)
  | _ => cases h

/-- There is nothing else that a line leaves when it fails. -/
theorem residue_of_step {σ : Type} {con : Console σ} {w w' : σ}
    (h : (step img cfg s).run con w = (⟨s', some cause⟩, w')) : Residue img s s' := by
  rcases outcome_cases h with ⟨e, hplan, ho⟩ | ⟨_, ho, -⟩ | ⟨-, ho | ⟨line, ho⟩⟩
  · exact residue_of_effect hplan ho.symm
  · cases ho
    exact .nothing
  · cases ho
  · cases ho

end

/-! ### The console -/

/-- Writing and reading do nothing when they fail. -/
structure Console.FailsIdle {σ : Type} (con : Console σ) : Prop where
  write : ∀ {w w' : σ} {text : String} {error : Diagnostic},
    con.write w text = (.error error, w') → w' = w
  read : ∀ {w w' : σ} {error : Diagnostic}, con.read w = (.error error, w') → w' = w

/-- The line asks for input with a prompt, and the prompt was written. -/
def Prompted {σ : Type} (img : Image) (con : Console σ) (s : State) (w w' : σ) : Prop :=
  ∃ actual actuals prompt,
    (img.program.line s.ip).tokens =
      Keyword.call.text :: Builtin.input.text :: actual :: actuals ∧
    Operand.render img s (actual :: actuals) = .ok prompt ∧ con.write w prompt = (.ok (), w')

section
variable {img : Image} {cfg : Config} {s s' : State} {cause : Cause}

theorem Builtin.text_of_ofText? {word : String} {b : Builtin} (h : Builtin.ofText? word = some b) :
    word = b.text := by
  rw [Builtin.ofText?.eq_def] at h
  split at h <;> cases h <;> rfl

/-- A prompt is what the arguments of `input` come to. -/
theorem Plan.prompt_of_builtin {b : Builtin} {args : List String} {prompt : String}
    (h : Plan.builtin img s b args = .ok (.input (some prompt))) :
    b = .input ∧ ∃ actual actuals, args = actual :: actuals ∧
      Operand.render img s (actual :: actuals) = .ok prompt := by
  rw [Plan.builtin.eq_def] at h
  split at h
  · cases h
  · obtain ⟨_, -, h⟩ := Except.bind_eq_ok_iff.mp h
    cases h
  · cases h
  · next actual actuals =>
    obtain ⟨text, htext, h⟩ := Except.bind_eq_ok_iff.mp h
    cases h
    exact ⟨rfl, actual, actuals, rfl, htext⟩
  · obtain ⟨_, -, h⟩ := Except.bind_eq_ok_iff.mp h
    split at h
    · obtain ⟨_, -, h⟩ := Except.bind_eq_ok_iff.mp h
      cases h
    · cases h
  · cases h

theorem Plan.exists_actuals_of_input {prompt : String}
    (h : Plan.next img cfg s = .ok (.input (some prompt))) :
    ∃ actual actuals, (img.program.line s.ip).tokens =
        Keyword.call.text :: Builtin.input.text :: actual :: actuals ∧
      Operand.render img s (actual :: actuals) = .ok prompt := by
  cases planned_of_next h with
  | input here =>
    rw [next_of_keyword here, Plan.statement, Plan.invocation.eq_def] at h
    rw [Program.tokens_of_keyword? here]
    split at h
    · cases h
    · next name actuals hargs =>
      split at h
      · next b hname =>
        obtain ⟨rfl, actual, actuals, rfl, hrender⟩ := Plan.prompt_of_builtin h
        rw [hargs, Builtin.text_of_ofText? hname]
        exact ⟨actual, actuals, rfl, hrender⟩
      · obtain ⟨_, _, _, -, -, -, -, -, hcall⟩ := Plan.call_eq_ok h
        cases hcall

theorem console_of_failing_read {σ : Type} {con : Console σ} {w w' : σ} (hidle : con.FailsIdle)
    (h : (Dialogue.read fun answer => .done (s.receive answer)).run con w =
      (⟨s', some cause⟩, w')) : w' = w := by
  rw [Dialogue.run] at h
  rcases hread : con.read w with ⟨_ | line, w₁⟩
  · rw [hread] at h
    cases h
    exact hidle.read hread
  · rw [hread] at h
    cases h

/-- A line that fails has written nothing but its prompt, and has read nothing. -/
theorem console_of_failing_step {σ : Type} {con : Console σ} {w w' : σ} (hidle : con.FailsIdle)
    (h : (step img cfg s).run con w = (⟨s', some cause⟩, w')) :
    w' = w ∨ Prompted img con s w w' := by
  rw [step] at h
  split at h
  · cases h
    exact .inl rfl
  · next plan hplan =>
    cases plan with
    | effect e => exact .inl (Prod.mk.inj h).2.symm
    | print text =>
      rw [Plan.dialogue, Dialogue.run] at h
      rcases hwrite : con.write w text with ⟨_ | _, w₁⟩
      · rw [hwrite] at h
        cases h
        exact .inl (hidle.write hwrite)
      · rw [hwrite] at h
        cases h
    | input prompt =>
      cases prompt with
      | none => exact .inl (console_of_failing_read hidle h)
      | some prompt =>
        rw [Plan.dialogue, Dialogue.run] at h
        rcases hwrite : con.write w prompt with ⟨_ | _, w₁⟩
        · rw [hwrite] at h
          cases h
          exact .inl (hidle.write hwrite)
        · -- The prompt is on the console, and then nothing can be read.
          rw [hwrite] at h
          obtain ⟨actual, actuals, hline, hrender⟩ := Plan.exists_actuals_of_input hplan
          rw [← console_of_failing_read hidle h] at hwrite
          exact .inr ⟨actual, actuals, prompt, hline, hrender, hwrite⟩

end

/-! ### The line of the error -/

theorem Diagnostic.atLine_of_isSome {d : Diagnostic} (line : Nat) (h : d.line.isSome) :
    d.atLine line = d := by
  obtain ⟨kind, message, own⟩ := d
  obtain ⟨own, rfl⟩ := Option.isSome_iff_exists.mp h
  rfl

/-- The place in the error of a line that fails. The error names the line, unless the console has
refused what the line asks for with an error that names a line itself: such an error is returned
as it is. -/
inductive Placed {σ : Type} (img : Image) (cfg : Config) (con : Console σ) (s : State) (w : σ)
    (failure : Failure) : Prop
  | here (line : ∀ order, (failure.diagnostic order).line = some s.ip)
  | foreign {plan : Plan} {error : Diagnostic} (asked : Plan.next img cfg s = .ok plan)
      (refused : con.Refuses w plan error) (named : error.line.isSome)
      (kept : ∀ order, failure.diagnostic order = error)

theorem placed_of_failing_step {σ : Type} {img : Image} {cfg : Config} {con : Console σ}
    {s s' : State} {w w' : σ} {cause : Cause}
    (h : (step img cfg s).run con w = (⟨s', some cause⟩, w')) :
    Placed img cfg con s w ⟨cause, some s.ip⟩ := by
  rcases line?_of_failing_step h with hnone | ⟨plan, error, hplan, hrefuses, rfl⟩
  · refine .here fun order => ?_
    rw [Failure.line_diagnostic, hnone, Option.none_or]
  · cases hline : error.line with
    | none =>
      refine .here fun order => ?_
      rw [Failure.line_diagnostic, Cause.line?, hline, Option.none_or]
    | some line =>
      have hnamed : error.line.isSome := by rw [hline, Option.isSome_some]
      exact .foreign hplan hrefuses hnamed fun _ => error.atLine_of_isSome s.ip hnamed

/-! ### Runs -/

section
variable {σ : Type} {m : Machine} {con : Console σ} {w₀ w w' : σ} {img : Image} {cfg : Config}
  {s s' : State} {cause : Cause}

/-- A run goes through every row of steps, given enough fuel. -/
theorem Steps.exists_drive
    (h : Steps img cfg con (fun s => s.terminated = false) s w s' w') :
    ∃ n, ∀ fuel, Machine.drive img cfg con (n + fuel) s w =
      Machine.drive img cfg con fuel s' w' := by
  induction h with
  | refl => exact ⟨0, fun fuel => by rw [Nat.zero_add]⟩
  | tail _ here last ih =>
    obtain ⟨n, hn⟩ := ih
    refine ⟨n + 1, fun fuel => ?_⟩
    rw [Nat.add_assoc, Nat.add_comm 1 fuel, hn, Machine.drive_succ_of_ok (by simp [here]) last]

/-- A step that fails is the last one of the run, and its line is that of the error. -/
theorem Machine.Reached.run_of_failing_step (h : m.Reached con w₀ s w)
    (hgoing : s.terminated = false)
    (hstep : (step m.image m.config s).run con w = (⟨s', some cause⟩, w')) :
    ∃ enough, ∀ fuel ≥ enough, m.run con fuel w₀ = ⟨.failed ⟨cause, some s.ip⟩, s', w'⟩ := by
  obtain ⟨s₀, hentry, hrow⟩ := h
  obtain ⟨n, hn⟩ := hrow.exists_drive
  refine ⟨n + 1, fun fuel hfuel => ?_⟩
  obtain ⟨left, rfl⟩ := Nat.exists_eq_add_of_le hfuel
  rw [Machine.run_of_entry hentry, Nat.add_assoc, Nat.add_comm 1 left, hn,
    Machine.drive_succ_of_error (by simp [hgoing]) hstep]

/-- The error of a run is that of a missing entry function, or of a step that fails. -/
theorem Machine.failing_step_of_run {fuel : Nat} {failure : Failure}
    (h : (m.run con fuel w₀).ending = .failed failure) :
    (m.entry = .error failure ∧ (m.run con fuel w₀).state = m.state) ∨
    ∃ s w, m.Reached con w₀ s w ∧ failure.line = some s.ip ∧
      (step m.image m.config s).run con w =
        (⟨(m.run con fuel w₀).state, some failure.cause⟩, (m.run con fuel w₀).console) := by
  cases hentry : m.entry with
  | error failure' =>
    rw [Machine.run_of_no_entry hentry] at h ⊢
    cases h
    exact .inl ⟨rfl, rfl⟩
  | ok s₀ =>
    right
    rw [Machine.run_of_entry hentry] at h ⊢
    obtain ⟨s, w, hrow, ⟨-, hnone⟩ | ⟨cause, -, hstep, hending⟩⟩ :=
      Machine.steps_drive m.image m.config con fuel s₀ w₀
    · rw [h] at hnone
      cases hnone
    · rw [h] at hending
      cases hending
      exact ⟨s, w, ⟨s₀, hentry, hrow⟩, rfl, hstep⟩

/-- Past the last line there is only one error. -/
theorem cause_eq_pastEnd (hip : img.program.size ≤ s.ip)
    (h : (step img cfg s).run con w = (⟨s', some cause⟩, w')) : cause = .pastEnd := by
  rw [step, Plan.next, if_pos hip] at h
  cases h
  rfl

end

/-- What a step leaves that fails. In every state of a run, the error carries the line of the
step, unless it is one of the console that names a line itself, and the machine is where it was:
the line to execute, the calls, the frames of the callers, the names of functions, the end of the
run and all objects are the same. A declaration may have made some of its variables, the end of a
block may have closed it, and a lambda may have been captured and published; any other line leaves
the whole state as it was. The console has at most got the prompt of an input, if it does nothing
when it fails. So an error of a run either says that there is no entry function, and nothing has
happened, or it is that of the line where the machine stands. -/
theorem failing_line_leaves {σ : Type} (m : Machine) (con : Console σ) (w₀ : σ) :
    (∀ s w s' cause w', m.Reached con w₀ s w → s.terminated = false →
      (step m.image m.config s).run con w = (⟨s', some cause⟩, w') →
      (∃ enough, ∀ fuel ≥ enough, m.run con fuel w₀ = ⟨.failed ⟨cause, some s.ip⟩, s', w'⟩) ∧
      Placed m.image m.config con s w ⟨cause, some s.ip⟩ ∧
      Unmoved s s' ∧ Residue m.image s s' ∧
      ((∀ k ∈ [Keyword.var, .otherwise, .endLoop, .lambda],
        m.image.program.keyword? s.ip ≠ some k) → s' = s) ∧
      (con.FailsIdle → w' = w ∨ Prompted m.image con s w w')) ∧
    ∀ fuel failure, (m.run con fuel w₀).ending = .failed failure →
      (m.entry = .error failure ∧ (∀ order, (failure.diagnostic order).line = none) ∧
        (m.run con fuel w₀).state = m.state) ∨
      ∃ s w, m.Reached con w₀ s w ∧ (m.run con fuel w₀).state.ip = s.ip ∧
        Placed m.image m.config con s w failure ∧
        (s.ip < m.image.program.size ∨ failure.cause = .pastEnd) := by
  refine ⟨?_, ?_⟩
  · intro s w s' cause w' hreached hgoing hstep
    have hresidue := residue_of_step hstep
    exact ⟨hreached.run_of_failing_step hgoing hstep, placed_of_failing_step hstep,
      hresidue.unmoved, hresidue, hresidue.eq_of_keyword?,
      fun hidle => console_of_failing_step hidle hstep⟩
  · intro fuel failure hfailed
    rcases Machine.failing_step_of_run hfailed with
      ⟨hentry, hstate⟩ | ⟨s, w, hreached, hline, hstep⟩
    · refine .inl ⟨hentry, fun order => ?_, hstate⟩
      rw [Machine.entry] at hentry
      split at hentry <;> cases hentry
      rfl
    · obtain ⟨cause, line⟩ := failure
      obtain rfl : line = some s.ip := hline
      refine .inr ⟨s, w, hreached, (residue_of_step hstep).unmoved.ip,
        placed_of_failing_step hstep, ?_⟩
      exact (Nat.lt_or_ge s.ip m.image.program.size).imp_right fun hge => cause_eq_pastEnd hge hstep

/-- A console that keeps what is written, and from which nothing can be read. -/
def closedConsole : Console (List String) where
  write w text := (.ok (), text :: w)
  read w := (.error "closed", w)

/-- A function that asks for a text. -/
def askingProgram : Program := .ofLines [
  "func main void",
  "  funccall input \"name\"",
  "endfunc"]

/-- A function that declares a variable twice on one line. -/
def redeclaringProgram : Program := .ofLines [
  "func main void",
  "  var object a b a",
  "endfunc"]

/-- The declaration leaves the two variables that come before the name that is taken, and the
machine at its line. The question that is not answered leaves its prompt on the console. -/
theorem failing_line_leaves_variables_and_prompt :
    (∃ s' w', Machine.Reached { image := .ofProgram redeclaringProgram } Buffer.console {}
        (.start 1) {} ∧
      (step (.ofProgram redeclaringProgram) {} (.start 1)).run Buffer.console {} =
        (⟨s', some (.redefinition "a")⟩, w') ∧
      s'.block.names = ["a", "b"] ∧ Unmoved (.start 1) s' ∧
      ∃ enough, ∀ fuel ≥ enough,
        (Machine.run { image := .ofProgram redeclaringProgram } Buffer.console fuel {}).ending =
          .failed ⟨.redefinition "a", some 1⟩) ∧
    closedConsole.FailsIdle ∧
    Prompted (.ofProgram askingProgram) closedConsole (.start 1) [] ["name"] := by
  refine ⟨?_, ?_⟩
  · have hreached : Machine.Reached { image := .ofProgram redeclaringProgram } Buffer.console {}
        (.start 1) {} := ⟨.start 1, by decide +kernel, .refl⟩
    have hnames : ((step (.ofProgram redeclaringProgram) {} (.start 1)).run Buffer.console
        {}).1.state.block.names = ["a", "b"] := by decide +kernel
    have herror : ((step (.ofProgram redeclaringProgram) {} (.start 1)).run Buffer.console
        {}).1.error = some (.redefinition "a") := by decide +kernel
    rcases hstep : (step (.ofProgram redeclaringProgram) {} (.start 1)).run Buffer.console {} with
      ⟨⟨s', error⟩, w'⟩
    rw [hstep] at hnames herror
    cases herror
    obtain ⟨⟨enough, hrun⟩, -, hunmoved, -⟩ :=
      (failing_line_leaves _ _ _).1 _ _ _ _ _ hreached rfl hstep
    exact ⟨s', w', hreached, rfl, hnames, hunmoved, enough,
      fun fuel hfuel => by rw [hrun fuel hfuel]; rfl⟩
  · have hidle : closedConsole.FailsIdle := ⟨nofun, fun h => (Prod.mk.inj h).2.symm⟩
    have hreached : Machine.Reached { image := .ofProgram askingProgram } closedConsole []
        (.start 1) [] := ⟨.start 1, by decide +kernel, .refl⟩
    have herror : ((step (.ofProgram askingProgram) {} (.start 1)).run closedConsole []).1.error =
        some (.console "closed") := by decide +kernel
    have hwritten : ((step (.ofProgram askingProgram) {} (.start 1)).run closedConsole []).2 =
        ["name"] := by decide +kernel
    rcases hstep : (step (.ofProgram askingProgram) {} (.start 1)).run closedConsole [] with
      ⟨⟨s', error⟩, w'⟩
    rw [hstep] at herror hwritten
    cases herror
    cases hwritten
    obtain ⟨-, -, -, -, -, hconsole⟩ := (failing_line_leaves _ _ _).1 _ _ _ _ _ hreached rfl hstep
    exact ⟨hidle, (hconsole hidle).resolve_left nofun⟩

/-- A console that answers each read with an error of its own, which is about another line. -/
def foreignConsole : Console Unit where
  write _ _ := (.ok (), ())
  read _ := (.error ⟨.fault, "closed", some 97⟩, ())

/-- The error of a line that fails does not always name that line: one of this console keeps the
line that it came with. -/
theorem error_of_console_names_another_line :
    foreignConsole.FailsIdle ∧
    Machine.Reached { image := .ofProgram askingProgram } foreignConsole () (.start 1) () ∧
    (State.start 1).ip = 1 ∧
    ∃ s' cause w', (step (.ofProgram askingProgram) {} (.start 1)).run foreignConsole () =
        (⟨s', some cause⟩, w') ∧
      ∀ order, (Failure.diagnostic ⟨cause, some 1⟩ order).line = some 97 := by
  have hreached : Machine.Reached { image := .ofProgram askingProgram } foreignConsole ()
      (.start 1) () := ⟨.start 1, by decide +kernel, .refl⟩
  have herror : ((step (.ofProgram askingProgram) {} (.start 1)).run foreignConsole ()).1.error =
      some (.console ⟨.fault, "closed", some 97⟩) := by decide +kernel
  refine ⟨⟨nofun, fun _ => rfl⟩, hreached, rfl, ?_⟩
  rcases hstep : (step (.ofProgram askingProgram) {} (.start 1)).run foreignConsole () with
    ⟨⟨s', error⟩, w'⟩
  rw [hstep] at herror
  cases herror
  exact ⟨s', _, w', rfl, fun _ => rfl⟩

end LineScript
