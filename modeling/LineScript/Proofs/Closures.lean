/-
What a lambda has captured is out of reach.

The objects of a heap fall into two parts: those that the last capture is made of, which
are kept, and all others, which are live. No object of one part refers to one of the
other, and all variables are live (`Sealed`). A line finds only what is live, writes
only to what is live, and makes new objects, which are live too; so until the next
lambda is made the captured values stay as they are. A call of a lambda copies them
once more, and a new capture makes everything that was there before live.
-/
import LineScript.Proofs.Circulation
import LineScript.Proofs.HeapGraph

namespace LineScript

/-- The object was made and is not kept. -/
def Live (kept : ObjId → Prop) (h : Heap) (o : ObjId) : Prop := o.index < h.size ∧ ¬ kept o

/-- The captured values and the kept objects refer to kept objects only. -/
structure Snapshot (kept : ObjId → Prop) (function : FuncId → Prop) (h₀ : Heap)
    (captured : Option (Table Value)) : Prop where
  captured : ∀ {t : Table Value} {e : String × Value}, captured = some t → e ∈ t.entries →
    e.2.Fit kept function
  fields : ∀ {o : ObjId} {e : String × Value}, kept o → e ∈ (h₀.fields o).entries →
    e.2.Fit kept function

/-- All that a line can find is live, the capture is the given one, and kept objects are
as in the given heap. -/
structure Sealed (img : Image) (kept : ObjId → Prop) (function : FuncId → Prop) (h₀ : Heap)
    (captured : Option (Table Value)) (s : State) : Prop where
  held : Held img (Live kept s.heap) function s
  capture : s.capture = captured
  kept : ∀ {o : ObjId}, kept o → o.index < s.heap.size ∧ s.heap.fields o = h₀.fields o

variable {img : Image} {cfg : Config} {kept : ObjId → Prop} {function : FuncId → Prop} {h₀ : Heap}
  {captured : Option (Table Value)} {s s' : State} {v : Value} {o : ObjId}

namespace ScopeStack

theorem read_push {cells : Array Value} (c : ScopeStack) (hcells : c.cells = cells.push v)
    (d : CellId) : c.read d = v ∨ c.read d = cells.getD d.index .void := by
  rw [read, hcells, Array.getD_eq_getD_getElem?, Array.getElem?_push]
  split
  · exact .inl rfl
  · exact .inr (Array.getD_eq_getD_getElem?).symm

theorem read_define (c : ScopeStack) (name : String) (v : Value) (d : CellId) :
    (c.define name v).read d = v ∨ (c.define name v).read d = c.read d :=
  read_push _ rfl d

theorem read_write_or (c : ScopeStack) (e d : CellId) (v : Value) :
    (c.write e v).read d = v ∨ (c.write e v).read d = c.read d := by
  rw [read_write]
  split
  · exact .inl rfl
  · exact .inr rfl

theorem read_publish (c : ScopeStack) (name : String) (v : Value) (d : CellId) :
    (c.publish name v).read d = v ∨ (c.publish name v).read d = c.read d := by
  rw [publish]
  split
  · exact c.read_write_or _ d v
  · exact read_push _ rfl d

end ScopeStack

namespace Sealed

/-- At the start there is nothing but the names of functions. -/
theorem start (hnamed : ∀ {name : String} {id : FuncId},
      img.functions.named? name = some id → function id) (line : Nat) :
    Snapshot (fun _ => False) function {} none ∧
      Sealed img (fun _ => False) function {} none (.start line) := by
  refine ⟨⟨nofun, nofun⟩, ⟨hnamed, nofun, fun _ => .void, fun ho => ?_⟩, rfl, nofun⟩
  exact absurd ho.1 (Nat.not_lt_zero _)

/-- Only the variables, the objects, the capture and the names of functions matter. -/
theorem of_eq (h : Sealed img kept function h₀ captured s) (hheap : s'.heap = s.heap)
    (hcells : s'.scopes.cells = s.scopes.cells) (haliases : s'.aliases = s.aliases)
    (hcapture : s'.capture = s.capture) : Sealed img kept function h₀ captured s' where
  held := by
    refine ⟨h.held.named, ?_, ?_, ?_⟩
    · rw [haliases]
      exact h.held.aliases
    · intro c
      rw [hheap, ScopeStack.read, hcells]
      exact h.held.cells c
    · rw [hheap]
      exact h.held.fields
  capture := hcapture.trans h.capture
  kept := by
    rw [hheap]
    exact h.kept

/-- Variables may be given values that are live. -/
theorem withScopes (h : Sealed img kept function h₀ captured s) {scopes : ScopeStack}
    (hv : v.Fit (Live kept s.heap) function)
    (hread : ∀ c, scopes.read c = v ∨ scopes.read c = s.scopes.read c) :
    Sealed img kept function h₀ captured { s with scopes } where
  held := by
    refine ⟨h.held.named, h.held.aliases, fun c => ?_, h.held.fields⟩
    rcases hread c with hc | hc
    · rw [hc]
      exact hv
    · rw [hc]
      exact h.held.cells c
  capture := h.capture
  kept := h.kept

/-- New objects may be made, as long as they refer to live ones. -/
theorem withHeap (h : Sealed img kept function h₀ captured s) {heap : Heap}
    (hsize : s.heap.size ≤ heap.size)
    (hold : ∀ {o : ObjId}, o.index < s.heap.size → heap.fields o = s.heap.fields o)
    (hnew : ∀ {o : ObjId} {e : String × Value}, s.heap.size ≤ o.index →
      e ∈ (heap.fields o).entries → e.2.Fit (Live kept heap) function) :
    Sealed img kept function h₀ captured { s with heap } := by
  have hlive : ∀ o, Live kept s.heap o → Live kept heap o :=
    fun o ho => ⟨Nat.lt_of_lt_of_le ho.1 hsize, ho.2⟩
  refine ⟨⟨h.held.named, h.held.aliases, fun c => (h.held.cells c).mono hlive fun _ => id,
    fun {o e} ho he => ?_⟩, h.capture, fun {o} ho => ?_⟩
  · by_cases hlt : o.index < s.heap.size
    · rw [hold hlt] at he
      exact (h.held.fields ⟨hlt, ho.2⟩ he).mono hlive fun _ => id
    · exact hnew (Nat.le_of_not_lt hlt) he
  · obtain ⟨hlt, hfields⟩ := h.kept ho
    exact ⟨Nat.lt_of_lt_of_le hlt hsize, (hold hlt).trans hfields⟩

/-- A new object with fields that are live is live. -/
theorem alloc (h : Sealed img kept function h₀ captured s) {fields : Fields}
    (hfields : ∀ e ∈ fields.entries, e.2.Fit (Live kept s.heap) function) :
    Sealed img kept function h₀ captured { s with heap := (s.heap.alloc fields).2 } ∧
      Live kept (s.heap.alloc fields).2 (s.heap.alloc fields).1 := by
  have hsize : (s.heap.alloc fields).2.size = s.heap.size + 1 := by
    simp [Heap.alloc, Heap.size]
  have hlive : ∀ o, Live kept s.heap o → Live kept (s.heap.alloc fields).2 o :=
    fun o ho => ⟨by have := ho.1; omega, ho.2⟩
  refine ⟨h.withHeap (by omega) (fun {o} ho => ?_) (fun {o e} ho he => ?_), ?_, fun hk => ?_⟩
  · rw [Heap.fields_alloc, if_neg (by omega)]
  · rw [Heap.fields_alloc] at he
    split at he
    · exact (hfields e he).mono hlive fun _ => id
    · rw [Heap.fields_of_ge (by omega)] at he
      cases he
  · rw [hsize]
    exact Nat.lt_succ_self _
  · exact absurd (h.kept hk).1 (Nat.lt_irrefl _)

theorem mem_put {α : Type} {name : String} {a : α} {entries : List (String × α)}
    {e : String × α} (he : e ∈ Table.put name a entries) : e.2 = a ∨ e ∈ entries := by
  induction entries with
  | nil =>
    rw [Table.put, List.mem_singleton] at he
    exact .inl (by rw [he])
  | cons e' rest ih =>
    obtain ⟨key, b⟩ := e'
    rw [Table.put] at he
    split at he
    · rcases List.mem_cons.mp he with rfl | he
      · exact .inl rfl
      · exact .inr (List.mem_cons_of_mem _ he)
    · rcases List.mem_cons.mp he with rfl | he
      · exact .inr List.mem_cons_self
      · exact (ih he).imp id (List.mem_cons_of_mem _)

/-- A field of a live object may be given a value that is live. -/
theorem setField (h : Sealed img kept function h₀ captured s) (name : String)
    (ho : Live kept s.heap o) (hv : v.Fit (Live kept s.heap) function) :
    Sealed img kept function h₀ captured { s with heap := s.heap.setField o name v } := by
  have hsize : (s.heap.setField o name v).size = s.heap.size := by
    simp [Heap.setField, Heap.size]
  have hlive : ∀ q, Live kept (s.heap.setField o name v) q ↔ Live kept s.heap q :=
    fun q => by rw [Live, Live, hsize]
  have hfit : ∀ {w : Value}, w.Fit (Live kept s.heap) function →
      w.Fit (Live kept (s.heap.setField o name v)) function :=
    fun hw => hw.mono (fun q => (hlive q).mpr) fun _ => id
  refine ⟨⟨h.held.named, h.held.aliases, fun c => hfit (h.held.cells c), fun {q e} hq he => ?_⟩,
    h.capture, fun {q} hq => ?_⟩
  · -- A field that was written has the new value, and the other fields are what they were.
    rw [Heap.fields_setField] at he
    split at he
    · rcases mem_put he with hev | he
      · rw [hev]
        exact hfit hv
      · exact hfit (h.held.fields ho he)
    · exact hfit (h.held.fields ((hlive q).mp hq) he)
  · obtain ⟨hlt, hfields⟩ := h.kept hq
    refine ⟨by rw [hsize]; exact hlt, ?_⟩
    rw [Heap.fields_setField, if_neg]
    · exact hfields
    · -- The object is live, so it is none of those that are kept.
      rintro ⟨rfl, -⟩
      exact ho.2 hq

/-! ### What lines do -/

theorem withDefault (h : Sealed img kept function h₀ captured s) (type : DeclaredType) :
    Sealed img kept function h₀ captured (s.withDefault type) ∧
      (s.heap.default type).1.Fit (Live kept (s.withDefault type).heap) function := by
  rw [State.withDefault, Heap.default]
  split
  · exact ⟨h, .int 0⟩
  · exact ⟨h, .bool false⟩
  · exact ⟨h, .str ""⟩
  · exact ⟨h, .void⟩
  · exact ⟨h, .unassigned⟩
  · have hempty : ∀ e ∈ (Table.empty : Fields).entries, e.2.Fit (Live kept s.heap) function :=
      List.forall_mem_nil _
    obtain ⟨halloc, hlive⟩ := h.alloc hempty
    exact ⟨halloc, .ofObject hlive⟩

theorem publish (h : Sealed img kept function h₀ captured s)
    (hv : v.Fit (Live kept s.heap) function) :
    Sealed img kept function h₀ captured (s.publish v) := by
  rw [State.publish]
  split
  · exact h
  · next name _ =>
    split
    · next o =>
      -- The copy is shallow: it has the fields of an object that is live.
      obtain ⟨halloc, hlive⟩ := h.alloc fun e he => h.held.fields (hv.object rfl) he
      exact halloc.withScopes (.ofObject hlive) (s.scopes.read_publish name _)
    · exact h.withScopes hv (s.scopes.read_publish name v)

theorem declare (h : Sealed img kept function h₀ captured s) (type : DeclaredType)
    (names : List String) : Sealed img kept function h₀ captured (s.declare type names).state := by
  induction names generalizing s with
  | nil => exact h
  | cons name rest ih =>
    rw [State.declare_cons]
    split
    · exact h
    · obtain ⟨hdefault, hv⟩ := h.withDefault type
      exact ih (hdefault.withScopes hv (s.scopes.read_define name _))

theorem storeField (h : Sealed img kept function h₀ captured s) (name : String)
    (ho : Live kept s.heap o) (hv : v.Fit (Live kept s.heap) function) :
    Sealed img kept function h₀ captured (s.storeField o name v) := by
  have hset := h.setField name ho hv
  refine ⟨⟨hset.held.named, fun {key id} hid => ?_, hset.held.cells, hset.held.fields⟩,
    hset.capture, hset.kept⟩
  cases v with
  | func f =>
    cases f with
    | none => exact h.held.aliases hid
    | some f =>
      simp only [State.storeField, Table.find?_insert] at hid
      split at hid
      · cases hid
        exact hv.function rfl
      · exact h.held.aliases hid
  | int n => exact h.held.aliases hid
  | bool b => exact h.held.aliases hid
  | str text => exact h.held.aliases hid
  | void => exact h.held.aliases hid
  | object q => exact h.held.aliases hid

theorem withBindings (h : Sealed img kept function h₀ captured s)
    {bindings : List (String × Binding)}
    (hb : ∀ b ∈ bindings, b.2.Fit (Live kept s.heap) function) :
    Sealed img kept function h₀ captured (s.withBindings bindings) := by
  induction bindings generalizing s with
  | nil => exact h
  | cons b rest ih =>
    obtain ⟨hone, hrest⟩ := List.forall_mem_cons.mp hb
    have hbind : Sealed img kept function h₀ captured
        { s with scopes := s.scopes.bind b.1 b.2 } := by
      obtain ⟨name, b⟩ := b
      cases b with
      | fresh v => exact h.withScopes hone (s.scopes.read_define name v)
      | shared cell => exact h.of_eq rfl rfl rfl rfl
    exact ih hbind hrest

theorem leave (h : Sealed img kept function h₀ captured s) {result : Option Value}
    (hv : ∀ v ∈ result, v.Fit (Live kept s.heap) function) (declared : Option DeclaredType) :
    Sealed img kept function h₀ captured (s.leave result declared) := by
  cases hback : s.returns.back? with
  | none =>
    rw [State.leave_of_none hback]
    exact h.of_eq rfl rfl rfl rfl
  | some resume =>
    rw [State.leave_of_some hback]
    have hunwound : Sealed img kept function h₀ captured s.unwound := by
      refine h.of_eq rfl ?_ rfl rfl
      rw [State.unwound, ScopeStack.popFrame?]
      split <;> rfl
    suffices hresult : Sealed img kept function h₀ captured
        (s.unwound.publishResult result declared) from hresult.of_eq rfl rfl rfl rfl
    cases result with
    | some v => exact hunwound.publish (hv v rfl)
    | none =>
      cases declared with
      | none => exact hunwound
      | some type =>
        rw [State.publishResult_none]
        split
        · exact hunwound
        · obtain ⟨hdefault, hfit⟩ := hunwound.withDefault type
          exact hdefault.publish hfit

/-! ### Calls of lambdas -/

theorem function_of_field (hsnap : Snapshot kept function h₀ captured)
    (h : Sealed img kept function h₀ captured s) {name : String} {id : FuncId}
    (he : (name, .func (some id)) ∈ (s.heap.fields o).entries) : function id := by
  by_cases hk : kept o
  · rw [(h.kept hk).2] at he
    exact (hsnap.fields hk he).function rfl
  by_cases hlt : o.index < s.heap.size
  · exact (h.held.fields ⟨hlt, hk⟩ he).function rfl
  · rw [Heap.fields_of_ge (Nat.le_of_not_lt hlt)] at he
    cases he

/-- No reference leads out of the heap. -/
theorem closed (hsnap : Snapshot kept function h₀ captured)
    (h : Sealed img kept function h₀ captured s) : s.heap.Closed := by
  intro o q hedge
  obtain ⟨e, he, hq⟩ := Heap.edge_iff.mp hedge
  by_cases hk : kept o
  · rw [(h.kept hk).2] at he
    exact (h.kept ((hsnap.fields hk he).object hq)).1
  by_cases hlt : o.index < s.heap.size
  · exact ((h.held.fields ⟨hlt, hk⟩ he).object hq).1
  · rw [Heap.fields_of_ge (Nat.le_of_not_lt hlt)] at he
    cases he

theorem has_captured (hsnap : Snapshot kept function h₀ captured)
    (h : Sealed img kept function h₀ captured s) {t : Table Value} (ht : s.capture = some t) :
    ∀ e ∈ t.entries, s.heap.Has e.2 :=
  fun _ he _ ho => (h.kept ((hsnap.captured (h.capture ▸ ht) he).object ho)).1

/-- The objects that copies are made of refer to one another only. -/
theorem fit_of_copied {heap : Heap} (hsnap : Snapshot kept function h₀ captured)
    (h : Sealed img kept function h₀ captured s) (hcopied : s.heap.Copied heap)
    {e : String × Value} (ho : s.heap.size ≤ o.index) (he : e ∈ (heap.fields o).entries) :
    e.2.Fit (s.heap.New heap) function := by
  refine ⟨fun hq => hcopied.edges ho (Heap.edge_iff.mpr ⟨e, he, hq⟩), fun {id} hid => ?_⟩
  obtain ⟨name, w⟩ := e
  simp only at hid
  subst hid
  obtain ⟨q, hq⟩ := hcopied.functions ho he
  exact h.function_of_field hsnap hq

/-- A copy refers to new objects, or to the function that the original refers to. -/
theorem fit_of_copyOf {h h' : Heap} {object : ObjId → Prop} {v v' : Value}
    (hcopy : h.CopyOf h' v v') (hv : v.Fit object function) : v'.Fit (h.New h') function := by
  obtain ⟨f, -, hv', -⟩ := hcopy.isomorphic
  refine ⟨hcopy.new _, fun {id} hid => hv.function ?_⟩
  rw [hv', Heap.mapObject_eq_func] at hid
  exact hid

theorem live_of_new {heap : Heap} (h : Sealed img kept function h₀ captured s)
    (ho : s.heap.New heap o) : Live kept heap o := by
  refine ⟨ho.2, fun hk => ?_⟩
  have hlt := (h.kept hk).1
  have hge := ho.1
  omega

theorem restoreCapture (hsnap : Snapshot kept function h₀ captured)
    (h : Sealed img kept function h₀ captured s) :
    Sealed img kept function h₀ captured s.restoreCapture := by
  rw [State.restoreCapture]
  split
  · exact h
  · next t ht =>
    obtain ⟨hcopied, hcopies⟩ := Heap.copyOf_deepCopyAll (h.closed hsnap) (h.has_captured hsnap ht)
    -- The captured values are kept, but copies of them are new, and so they are live.
    have hheap : Sealed img kept function h₀ captured
        { s with heap := (s.heap.deepCopyAll t.entries).2 } :=
      h.withHeap hcopied.size_le hcopied.fields_eq fun ho he =>
        (h.fit_of_copied hsnap hcopied ho he).mono (fun _ => h.live_of_new) fun _ => id
    refine hheap.withBindings fun b hb => ?_
    obtain ⟨e', he', rfl⟩ := List.mem_map.mp hb
    obtain ⟨e, he, -, hcopy⟩ := exists_mem_of_forall₂ hcopies he'
    exact (fit_of_copyOf hcopy (hsnap.captured (h.capture ▸ ht) he)).mono
      (fun _ => h.live_of_new) fun _ => id

theorem copied_restoreCapture (hsnap : Snapshot kept function h₀ captured)
    (h : Sealed img kept function h₀ captured s) : s.heap.Copied s.restoreCapture.heap := by
  rw [State.restoreCapture]
  split
  · exact .refl _
  · next t ht => exact (Heap.copyOf_deepCopyAll (h.closed hsnap) (h.has_captured hsnap ht)).1

theorem enter (hsnap : Snapshot kept function h₀ captured)
    (h : Sealed img kept function h₀ captured s) (sig : Signature)
    {bindings : List (String × Binding)}
    (hb : ∀ b ∈ bindings, b.2.Fit (Live kept s.heap) function) :
    Sealed img kept function h₀ captured (s.enter img.functions sig bindings) := by
  have hcalled : Sealed img kept function h₀ captured (s.called sig) := h.of_eq rfl rfl rfl rfl
  rw [State.enter_eq]
  split
  · have hsize := (hcalled.copied_restoreCapture hsnap).size_le
    exact (hcalled.restoreCapture hsnap).withBindings fun b hmem =>
      (hb b hmem).mono fun o ho => ⟨Nat.lt_of_lt_of_le ho.1 hsize, ho.2⟩
  · exact hcalled.withBindings hb

/-! ### Steps -/

theorem effect_apply {e : Effect} (h : Sealed img kept function h₀ captured s)
    (hsnap : Snapshot kept function h₀ captured)
    (hplanned : Planned img cfg s (.effect e)) (hk : img.program.keyword? s.ip ≠ some .lambda) :
    Sealed img kept function h₀ captured (e.apply img.functions s).state := by
  have hnone : ∀ v ∈ (none : Option Value), v.Fit (Live kept s.heap) function :=
    fun _ hv => nomatch hv
  cases hplanned with
  | blank => exact h.of_eq rfl rfl rfl rfl
  | declare =>
    rw [Effect.apply]
    split
    · exact h.declare _ _
    · exact (h.declare _ _).of_eq rfl rfl rfl rfl
  | store _ _ value =>
    exact (h.withScopes (h.held.fit_eval value) (s.scopes.read_write_or _ · _)).of_eq
      rfl rfl rfl rfl
  | storeField _ object value =>
    exact (h.storeField _ (h.held.object_of_resolveObject object) (h.held.fit_eval value)).of_eq
      rfl rfl rfl rfl
  | convert => exact (h.publish (.int _)).of_eq rfl rfl rfl rfl
  | call _ _ _ resolved _ _ passed _ =>
    -- The arguments and the object are found by the caller, so they are live.
    refine h.enter hsnap _ fun b hb => ?_
    rcases List.mem_append.mp hb with hb | hb
    · obtain ⟨r, hr, rfl⟩ := List.mem_map.mp hb
      exact (h.held.fit_callee resolved).2 r (by simpa using hr)
    · exact h.held.fit_arguments passed b hb
  | taken => exact h.of_eq rfl rfl rfl rfl
  | other => exact h.of_eq rfl rfl rfl rfl
  | skipped => exact h.of_eq rfl rfl rfl rfl
  | finished => exact h.of_eq rfl rfl rfl rfl
  | @closing key =>
    have hclose : Sealed img kept function h₀ captured
        { s with scopes := s.scopes.unnestBlock?.getD s.scopes } := by
      refine h.of_eq rfl ?_ rfl rfl
      rw [ScopeStack.unnestBlock?]
      split <;> rfl
    rw [Effect.apply, State.goOn.eq_def]
    split
    · exact hclose.of_eq rfl rfl rfl rfl
    · exact hclose
  | capture here => exact absurd here hk
  | leave => exact h.leave hnone _
  | giveBack _ _ _ value =>
    refine h.leave (fun v hv => ?_) _
    cases hv
    exact h.held.fit_returnValue value
  | endFunc => exact h.leave hnone _
  | endLambda => exact h.leave hnone _

/-- Lines that make no lambda leave the captured values as they are. -/
theorem step {σ : Type} {con : Console σ} {w w' : σ} (hsnap : Snapshot kept function h₀ captured)
    (h : Sealed img kept function h₀ captured s) (hk : img.program.keyword? s.ip ≠ some .lambda)
    (hstep : (step img cfg s).run con w = (⟨s', none⟩, w')) :
    Sealed img kept function h₀ captured s' := by
  rcases step_cases hstep with ⟨e, hplan, happly⟩ | rfl | ⟨line, rfl⟩
  · have hsealed := h.effect_apply hsnap (planned_of_next hplan) hk
    rw [happly] at hsealed
    exact hsealed
  · exact h.of_eq rfl rfl rfl rfl
  · exact (h.publish (.str line)).of_eq rfl rfl rfl rfl

theorem has_visibleValues (h : Sealed img kept function h₀ captured s) :
    ∀ e ∈ s.scopes.visibleValues, e.2.Fit (Live kept s.heap) function := by
  intro e he
  obtain ⟨b, -, rfl⟩ := List.mem_map.mp he
  exact h.held.cells b.2

/-- A lambda keeps the copies it makes. All that there was before is live now. -/
theorem captureFor (hsnap : Snapshot kept function h₀ captured)
    (h : Sealed img kept function h₀ captured s) {function' : FuncId → Prop} {f : FuncId}
    (hmono : ∀ f, function f → function' f) (hf : function' f) :
    Snapshot (s.heap.New (s.captureFor f).heap) function' (s.captureFor f).heap
        (s.captureFor f).capture ∧
      Sealed img (s.heap.New (s.captureFor f).heap) function' (s.captureFor f).heap
        (s.captureFor f).capture (s.captureFor f) := by
  have hhas : ∀ e ∈ s.scopes.visibleValues, s.heap.Has e.2 :=
    fun e he o ho => ((h.has_visibleValues e he).object ho).1
  obtain ⟨hcopied, hcopies⟩ := Heap.copyOf_deepCopyAll (h.closed hsnap) hhas
  have hheap : (s.captureFor f).heap = (s.heap.deepCopyAll s.scopes.visibleValues).2 := rfl
  have hcapture : (s.captureFor f).capture =
      some ⟨(s.heap.deepCopyAll s.scopes.visibleValues).1⟩ := rfl
  rw [hheap, hcapture]
  generalize hcopies' : s.heap.deepCopyAll s.scopes.visibleValues = copies at *
  have hlive : ∀ {o}, o.index < s.heap.size → Live (s.heap.New copies.2) copies.2 o :=
    fun ho => ⟨Nat.lt_of_lt_of_le ho hcopied.size_le, fun hnew => Nat.not_lt_of_le hnew.1 ho⟩
  refine ⟨⟨fun {t e} ht he => ?_, fun ho he => ?_⟩, ?_⟩
  · cases ht
    obtain ⟨e', he', -, hcopy⟩ := exists_mem_of_forall₂ hcopies he
    exact (fit_of_copyOf hcopy (h.has_visibleValues e' he')).mono (fun _ => id) hmono
  · exact (h.fit_of_copied hsnap hcopied ho.1 he).mono (fun _ => id) hmono
  · have hcells : ∀ {v : Value}, v.Fit (Live kept s.heap) function →
        v.Fit (Live (s.heap.New copies.2) copies.2) function' :=
      fun hv => hv.mono (fun _ ho => hlive ho.1) hmono
    have hcaptured : Sealed img (s.heap.New copies.2) function' copies.2 (some ⟨copies.1⟩)
        { s with heap := copies.2, capture := some ⟨copies.1⟩ } := by
      refine ⟨⟨fun hid => hmono _ (h.held.named hid), fun hid => hmono _ (h.held.aliases hid),
        fun c => hcells (h.held.cells c), fun {o e} ho he => ?_⟩, rfl, fun ho => ⟨ho.2, rfl⟩⟩
      have hlt : o.index < s.heap.size := by
        by_contra hge
        exact ho.2 ⟨Nat.le_of_not_lt hge, ho.1⟩
      rw [hcopied.fields_eq hlt] at he
      -- Objects that were kept so far refer to objects that were kept so far.
      by_cases hk : kept o
      · rw [(h.kept hk).2] at he
        exact (hsnap.fields hk he).mono (fun q hq => hlive (h.kept hq).1) hmono
      · exact hcells (h.held.fields ⟨hlt, hk⟩ he)
    subst hcopies'
    exact hcaptured.publish (.ofFunction hf)

end Sealed

/-! ### Functions that circulate -/

/-- The functions that are referred to, also by captured values, are of the given kind. -/
def Circulating (img : Image) (function : FuncId → Prop) (s : State) : Prop :=
  ∃ kept h₀, Snapshot kept function h₀ s.capture ∧ Sealed img kept function h₀ s.capture s

namespace Circulating

theorem start (hnamed : ∀ {name : String} {id : FuncId},
    img.functions.named? name = some id → function id) (line : Nat) :
    Circulating img function (.start line) :=
  ⟨_, _, Sealed.start hnamed line⟩

/-- A line brings a function of its own into circulation only if it makes a lambda. -/
theorem step {σ : Type} {con : Console σ} {w w' : σ} {o : Outcome}
    (h : Circulating img function s)
    (hmade : ∀ id, img.program.keyword? s.ip = some .lambda →
      img.functions.lookup? (lambdaName s.ip) = some id → function id)
    (hstep : (step img cfg s).run con w = (o, w')) : Circulating img function o.state := by
  obtain ⟨kept, h₀, hsnap, hsealed⟩ := h
  -- Where no lambda is made the capture is the same, and so are the kept objects.
  have hsame : ∀ {s' : State}, Sealed img kept function h₀ s.capture s' →
      Circulating img function s' := by
    intro s' hs'
    have hcapture := hs'.capture
    rw [← hcapture] at hsnap hs'
    exact ⟨kept, h₀, hsnap, hs'⟩
  rcases outcome_cases hstep with ⟨e, hplan, rfl⟩ | ⟨_, rfl, -⟩ | ⟨-, rfl | ⟨line, rfl⟩⟩
  · by_cases hk : img.program.keyword? s.ip = some .lambda
    · rw [next_of_keyword hk] at hplan
      obtain ⟨made, hlookup, heq⟩ := Plan.lambda_eq_ok hplan
      cases heq
      obtain ⟨hsnap', hsealed'⟩ := hsealed.captureFor hsnap (fun _ => id) (hmade made hk hlookup)
      rw [Effect.apply, State.goOn.eq_def]
      split
      · exact ⟨_, _, hsnap', hsealed'.of_eq rfl rfl rfl rfl⟩
      · exact ⟨_, _, hsnap', hsealed'⟩
    · exact hsame (hsealed.effect_apply hsnap (planned_of_next hplan) hk)
  · exact hsame hsealed
  · exact hsame (hsealed.of_eq rfl rfl rfl rfl)
  · exact hsame ((hsealed.publish (.str line)).of_eq rfl rfl rfl rfl)

/-- The target of a call is of the kind. -/
theorem function_callee {target : String} {callee : Operand.Callee}
    (h : Circulating img function s) (hcallee : Operand.callee img s target = .ok callee) :
    function callee.id := by
  obtain ⟨kept, h₀, -, hsealed⟩ := h
  exact (hsealed.held.fit_callee hcallee).1

end Circulating
end LineScript
