/-
Calls of lambdas.

A lambda can be called only after it was made, and a line that makes one captures the
variables; so in every state of a run the captured values are out of reach of all
variables, and every call of a lambda finds some (`Guarded`). What it finds is what the
variables were when the last lambda was made, whichever lambda is called:

* `Machine.LastLambda` is the state at the line of that lambda;
* `Machine.LastLambda.captured` compares the captured values with the variables there;
* `exists_cell_of_captured` follows them into the frame of the call.

`captured_values_isolated` puts these together.
-/
import LineScript.Proofs.CallFrames
import LineScript.Proofs.Closures

namespace LineScript

section
variable {img : Image} {cfg : Config} {s s' : State} {sig : Signature} {id : FuncId}
  {bindings : List (String × Binding)} {kept : ObjId → Prop} {h₀ : Heap} {v : Value} {o : ObjId}

/-! ### Signatures of lambdas -/

theorem isLambdaName_lambdaName (n : Nat) : isLambdaName (lambdaName n) = true := by
  rw [isLambdaName, lambdaName, List.isPrefixOf_iff_prefix]
  exact ⟨(toString n).toList, by simp [toString]⟩

namespace Image.Loaded

/-- A function that has a name in the program is no lambda. -/
theorem not_lambda_of_named? (h : img.Loaded) {name : String}
    (hname : img.functions.named? name = some id) (found : img.functions.signature? id = some sig) :
    img.program.keyword? sig.definition ≠ some .lambda := by
  intro hk
  rw [FunctionTable.named?] at hname
  split at hname
  · cases hname
  · next hlambda =>
    obtain ⟨sig', found', hsig⟩ := FunctionTable.signature?_of_lookup? hname
    cases found.symm.trans found'
    -- It would have the name of its line, and such names are not looked up.
    have hself := (Program.header?_eq_some (h.header_of_signature found)).2 hk
    rw [← hsig, hself] at hlambda
    exact hlambda (isLambdaName_lambdaName _)

/-- Captured values come into the frame of a lambda, if its body has a line. -/
theorem captures_of_lambda (h : img.Loaded) (found : img.functions.signature? id = some sig)
    (hk : img.program.keyword? sig.definition = some .lambda)
    (hstart : sig.start < img.program.size) : img.Captures sig := by
  have hopen := (h.open_succ_of_lambda hk (h.header_of_signature found)).2
  rw [h.captures_iff_open hstart, Signature.start, hopen]
  exact .inr (List.cons_ne_nil _ _)

end Image.Loaded

/-- A lambda with this identity can be called: there is a capture, and its body has a
line. -/
def Image.Callable (img : Image) (captured : Option (Table Value)) (id : FuncId) : Prop :=
  ∀ sig, img.functions.signature? id = some sig →
    img.program.keyword? sig.definition = some .lambda →
      captured.isSome = true ∧ sig.start < img.program.size

/-- A line that makes a lambda captures the variables and goes on after the body. -/
theorem step_of_lambda {σ : Type} {con : Console σ} {w w' : σ}
    (hk : img.program.keyword? s.ip = some .lambda)
    (hstep : (step img cfg s).run con w = (⟨s', none⟩, w')) :
    ∃ id last, img.functions.lookup? (lambdaName s.ip) = some id ∧
      img.program.blockEnd? .endLambda s.ip = some last ∧
      s' = { s.captureFor id with ip := last + 1 } := by
  obtain ⟨plan, hplan, hrun⟩ := step_eq_ok hstep
  obtain ⟨-, ⟨hblank, -⟩ | ⟨key, here, hstatement⟩⟩ := next_eq_ok hplan
  · rw [Program.not_isBlank_of_keyword? hk] at hblank
    cases hblank
  · cases hk.symm.trans here
    obtain ⟨id, hid, rfl⟩ := Plan.lambda_eq_ok hstatement
    cases hend : img.program.blockEnd? .endLambda s.ip with
    | none =>
      rw [hend] at hrun
      cases hrun
    | some last =>
      rw [hend] at hrun
      cases hrun
      exact ⟨id, last, hid, rfl, rfl⟩

/-- The lambda that was just made can be called. -/
theorem callable_of_lambda (hload : img.Loaded) (hk : img.program.keyword? s.ip = some .lambda)
    (hid : img.functions.lookup? (lambdaName s.ip) = some id) {last : Nat}
    (hend : img.program.blockEnd? .endLambda s.ip = some last) (captured : Table Value) :
    img.Callable (some captured) id := by
  intro sig found _
  obtain ⟨id', sig', hid', found', hheader⟩ := hload.lookup?_lambdaName hk
  cases hid.symm.trans hid'
  cases found.symm.trans found'
  -- The end marker was found, so there is a line after the header.
  have hrange := Program.searchAfter_range hend
  refine ⟨rfl, ?_⟩
  rw [Signature.start, (Program.header?_eq_some hheader).1]
  omega

/-! ### The invariant of runs -/

/-- The captured values are sealed, and only lambdas that can be called are found. -/
structure Guarded (img : Image) (kept : ObjId → Prop) (h₀ : Heap) (s : State) : Prop where
  snapshot : Snapshot kept (img.Callable s.capture) h₀ s.capture
  isSealed : Sealed img kept (img.Callable s.capture) h₀ s.capture s

namespace Guarded

theorem start (hload : img.Loaded) (line : Nat) :
    Guarded img (fun _ => False) {} (.start line) := by
  have hnamed : ∀ {name : String} {id : FuncId}, img.functions.named? name = some id →
      img.Callable none id :=
    fun hname sig found hk => absurd hk (hload.not_lambda_of_named? hname found)
  exact ⟨(Sealed.start hnamed line).1, (Sealed.start hnamed line).2⟩

/-- A line that makes a lambda begins anew. -/
theorem capture {σ : Type} {con : Console σ} {w w' : σ} (hload : img.Loaded)
    (h : Guarded img kept h₀ s) (hk : img.program.keyword? s.ip = some .lambda)
    (hstep : (step img cfg s).run con w = (⟨s', none⟩, w')) :
    Guarded img (s.heap.New s'.heap) s'.heap s' := by
  obtain ⟨id, last, hid, hend, rfl⟩ := step_of_lambda hk hstep
  have hmono : ∀ f, img.Callable s.capture f → img.Callable (s.captureFor id).capture f :=
    fun f hf sig found hk' => ⟨rfl, (hf sig found hk').2⟩
  obtain ⟨hsnap, hsealed⟩ := h.isSealed.captureFor h.snapshot hmono
    (callable_of_lambda hload hk hid hend _)
  exact ⟨hsnap, hsealed.of_eq rfl rfl rfl rfl⟩

/-- Lines that make no lambda keep the capture and the objects it is made of. -/
theorem step {σ : Type} {con : Console σ} {w w' : σ} (h : Guarded img kept h₀ s)
    (hk : img.program.keyword? s.ip ≠ some .lambda)
    (hstep : (step img cfg s).run con w = (⟨s', none⟩, w')) :
    Guarded img kept h₀ s' ∧ s'.capture = s.capture := by
  have hsealed := h.isSealed.step h.snapshot hk hstep
  have hcapture := hsealed.capture
  refine ⟨?_, hcapture⟩
  rw [← hcapture] at hsealed
  exact ⟨hcapture ▸ h.snapshot, hsealed⟩

/-- The objects that a kept value is made of are kept. -/
theorem kept_of_reachedFrom (h : Guarded img kept h₀ s) (hv : ∀ o, v = .object o → kept o)
    (hr : s.heap.ReachedFrom v o) : kept o := by
  refine hr.induct hv ?_
  intro o q _ ho hedge
  obtain ⟨field, hfield, hq⟩ := Heap.edge_iff.mp hedge
  rw [(h.isSealed.kept ho).2] at hfield
  exact (h.snapshot.fields ho hfield).object hq

/-- The objects that variables are made of are live. -/
theorem live_of_reachedFrom (h : Guarded img kept h₀ s) {c : CellId}
    (hr : s.heap.ReachedFrom (s.scopes.read c) o) : Live kept s.heap o := by
  refine hr.induct (fun o ho => (h.isSealed.held.cells c).object ho) ?_
  intro o q _ ho hedge
  obtain ⟨field, hfield, hq⟩ := Heap.edge_iff.mp hedge
  exact (h.isSealed.held.fields ho hfield).object hq

end Guarded

/-- A lambda that is called can be called. -/
theorem Guarded.of_call? (h : Guarded img kept h₀ s)
    (hcall : call? img cfg s = some (sig, bindings))
    (hk : img.program.keyword? sig.definition = some .lambda) :
    s.capture.isSome = true ∧ sig.start < img.program.size := by
  cases planned_of_next (call?_eq_some hcall) with
  | call _ _ _ resolved found _ _ _ => exact (h.isSealed.held.fit_callee resolved).1 sig found hk

/-- A line that the run goes on with and that makes no lambda. -/
def Image.Quiet (img : Image) (s : State) : Prop :=
  s.terminated = false ∧ img.program.keyword? s.ip ≠ some .lambda

/-- A row of lines that make no lambda keeps the capture and the objects it is made of. -/
theorem Guarded.steps {σ : Type} {con : Console σ} {w w' : σ} (h : Guarded img kept h₀ s)
    (hrow : Steps img cfg con img.Quiet s w s' w') :
    Guarded img kept h₀ s' ∧ s'.capture = s.capture := by
  refine hrow.invariant (P := fun t => Guarded img kept h₀ t ∧ t.capture = s.capture) ⟨h, rfl⟩
    fun hquiet hs hstep => ?_
  obtain ⟨hnext, hcapture⟩ := hs.1.step hquiet.2 hstep
  exact ⟨hnext, hcapture.trans hs.2⟩

theorem Machine.Reached.guarded {σ : Type} {m : Machine} {con : Console σ} {w₀ w : σ}
    (h : m.Reached con w₀ s w) (hload : m.image.Loaded) :
    ∃ kept h₀, Guarded m.image kept h₀ s := by
  refine h.invariant (P := fun s => ∃ kept h₀, Guarded m.image kept h₀ s)
    (fun line => ⟨_, _, .start hload line⟩) ?_
  rintro s s' w w' ⟨kept, h₀, hs⟩ hstep
  by_cases hk : m.image.program.keyword? s.ip = some .lambda
  · exact ⟨_, _, hs.capture hload hk hstep⟩
  · exact ⟨_, _, (hs.step hk hstep).1⟩

/-! ### The lambda that was made last -/

/-- The run came through the first state and made a lambda there, and none since then. -/
def Machine.LastLambda {σ : Type} (m : Machine) (con : Console σ) (w₀ : σ) (s₀ s : State) (w : σ) :
    Prop :=
  ∃ w' s₁ w₁, m.Reached con w₀ s₀ w' ∧ m.image.program.keyword? s₀.ip = some .lambda ∧
    (step m.image m.config s₀).run con w' = (⟨s₁, none⟩, w₁) ∧
    Steps m.image m.config con m.image.Quiet s₁ w₁ s w

theorem Machine.Reached.exists_lastLambda {σ : Type} {m : Machine} {con : Console σ} {w₀ w : σ}
    (h : m.Reached con w₀ s w) (hload : m.image.Loaded) (hcapture : s.capture.isSome = true) :
    ∃ s₀, m.LastLambda con w₀ s₀ s w := by
  obtain ⟨first, hentry, hrow⟩ := h
  induction hrow with
  | refl =>
    obtain ⟨-, sig, -, -, rfl⟩ := Machine.exists_of_entry hentry
    cases hcapture
  | @tail s s' w w' row here last ih =>
    have hreached : m.Reached con w₀ s w := ⟨first, hentry, row⟩
    by_cases hk : m.image.program.keyword? s.ip = some .lambda
    · exact ⟨s, w, s', w', hreached, hk, last, .refl⟩
    · -- No lambda was made here, so the capture and the last lambda are as before.
      obtain ⟨kept, h₀, hs⟩ := hreached.guarded hload
      rw [(hs.step hk last).2] at hcapture
      obtain ⟨s₀, w'', s₁, w₁, hs₀, hk₀, hstep, hquiet⟩ := ih hcapture
      exact ⟨s₀, w'', s₁, w₁, hs₀, hk₀, hstep, hquiet.tail ⟨here, hk⟩ last⟩

theorem ScopeStack.lookup_visibleValues {c : ScopeStack} (h : c.Tidy) (name : String) :
    Table.lookup name c.visibleValues = c.get? name := by
  rw [visibleValues, Table.lookup_map, ← Table.find?, Frame.find?_visible h.1]
  rfl

theorem ScopeStack.nodup_visibleValues (c : ScopeStack) :
    (c.visibleValues.map Prod.fst).Nodup := by
  have hnames : c.visibleValues.map Prod.fst = c.current.visible.names := by
    rw [visibleValues, List.map_map]
    rfl
  rw [hnames]
  exact Frame.distinct_merged _

/-- The captured values look like those the variables had when the last lambda was made. -/
theorem Machine.LastLambda.captured {σ : Type} {m : Machine} {con : Console σ} {w₀ w : σ}
    {s₀ : State} (h : m.LastLambda con w₀ s₀ s w) (hload : m.image.Loaded) :
    ∃ captured, s.capture = some captured ∧ captured.Distinct ∧
      ∀ name, Option.Rel (fun v v' => s₀.heap.Isomorphic v s.heap v') (s₀.get? name)
        (captured.find? name) := by
  obtain ⟨w', s₁, w₁, hreached, hk, hstep, hquiet⟩ := h
  obtain ⟨kept, h₀, hs₀⟩ := hreached.guarded hload
  have hs₁ := hs₀.capture hload hk hstep
  obtain ⟨hs, hcapture⟩ := hs₁.steps hquiet
  obtain ⟨id, last, -, -, rfl⟩ := step_of_lambda hk hstep
  have hhas : ∀ e ∈ s₀.scopes.visibleValues, s₀.heap.Has e.2 :=
    fun e he o ho => ((hs₀.isSealed.has_visibleValues e he).object ho).1
  obtain ⟨-, hcopies⟩ := Heap.copyOf_deepCopyAll (hs₀.isSealed.closed hs₀.snapshot) hhas
  refine ⟨⟨(s₀.heap.deepCopyAll s₀.scopes.visibleValues).1⟩, hcapture, ?_, ?_⟩
  · rw [Table.Distinct, Table.names, Heap.names_deepCopyAll]
    exact s₀.scopes.nodup_visibleValues
  · intro name
    rw [State.get?, ← ScopeStack.lookup_visibleValues hreached.tidy, Table.find?]
    refine Table.lookup_rel (hcopies.imp ?_) name
    rintro e e' ⟨hname, hcopy⟩
    -- What the copies are made of is kept since the lambda was made.
    refine ⟨hname, hcopy.isomorphic.congr_right ?_⟩
    intro o ho
    exact (hs.isSealed.kept (hs₁.kept_of_reachedFrom hcopy.new ho)).2

/-! ### The frame of a lambda -/

/-- A captured value that no binding of the call hides is in a new cell, as a copy. -/
theorem exists_cell_of_captured (h : Guarded img kept h₀ s) (hcaptures : img.Captures sig)
    {captured : Table Value} (hcapture : s.capture = some captured)
    (hdistinct : captured.Distinct) {name : String} (hname : name ∉ bindings.map Prod.fst)
    (hv : captured.find? name = some v) :
    ∃ cell v', (s.enter img.functions sig bindings).scopes.cell? name = some cell ∧
      (s.enter img.functions sig bindings).scopes.Binds s.scopes.cells.size cell (.fresh v') ∧
      s.heap.Isomorphic v (s.enter img.functions sig bindings).heap v' := by
  obtain ⟨-, hcopies⟩ := Heap.copyOf_deepCopyAll (h.isSealed.closed h.snapshot)
    (h.isSealed.has_captured h.snapshot hcapture)
  have hrel := Table.lookup_rel hcopies name
  rw [← Table.find?, hv] at hrel
  generalize hcopy : Table.lookup name (s.heap.deepCopyAll captured.entries).1 = copy at hrel
  cases hrel with
  | @some _ v' hiso =>
    have hbinding : Table.lookup name (s.captureBindings captured).reverse = some (.fresh v') := by
      rw [Table.lookup_reverse (by rw [State.names_captureBindings]; exact hdistinct),
        State.captureBindings, Table.lookup_map, hcopy]
      rfl
    have hrestored := bound_restoreCapture sig hcapture
    have hbound := bound_withBindings hrestored.inner bindings
    obtain ⟨cell, hroot, hbinds⟩ := hrestored.bound hbinding
    have hheap : (s.called sig).restoreCapture.heap = (s.heap.deepCopyAll captured.entries).2 := by
      rw [State.restoreCapture, show (s.called sig).capture = some captured from hcapture]
      rfl
    rw [enter_of_captures hcaptures]
    rw [← hheap] at hiso
    -- The bindings of the call come after it and have other names.
    refine ⟨cell, v', ?_, hbinds.mono (Nat.le_refl _) hbound.size_le hbound.read_eq,
      hiso.isomorphic⟩
    rw [ScopeStack.cell?_of_inner hbound.inner, hbound.other hname, hroot]

/-- The frame in which a lambda is called. The arguments hide the object of a method, and
both hide the variables that were captured in the state `s₀`. -/
structure LambdaFrame (s₀ s s' : State) (this args : List (String × Binding)) : Prop where
  inner : s'.scopes.current.inner = []
  names : ∀ name, (s'.scopes.cell? name).isSome ↔
    (s₀.get? name).isSome ∨ name ∈ this.map Prod.fst ∨ name ∈ args.map Prod.fst
  arguments : ∀ {name : String} {b : Binding}, Table.lookup name args.reverse = some b →
    ∃ cell, s'.scopes.cell? name = some cell ∧ s'.scopes.Binds s.scopes.cells.size cell b
  receiver : ∀ {name : String} {b : Binding}, name ∉ args.map Prod.fst →
    Table.lookup name this.reverse = some b →
    ∃ cell, s'.scopes.cell? name = some cell ∧ s'.scopes.Binds s.scopes.cells.size cell b
  captured : ∀ {name : String} {v : Value}, name ∉ args.map Prod.fst →
    name ∉ this.map Prod.fst → s₀.get? name = some v →
    ∃ cell v', s'.scopes.cell? name = some cell ∧
      s'.scopes.Binds s.scopes.cells.size cell (.fresh v') ∧ s₀.heap.Isomorphic v s'.heap v'

theorem Table.mem_names_iff {α : Type} {t : Table α} {name : String} :
    name ∈ t.names ↔ (t.find? name).isSome := by
  rw [← Option.ne_none_iff_isSome, find?, ne_eq, lookup_eq_none_iff, not_not]
  rfl

theorem isSome_eq_of_rel {α β : Type} {R : α → β → Prop} {x : Option α} {y : Option β}
    (h : Option.Rel R x y) : y.isSome = x.isSome := by
  cases h with
  | some => rfl
  | none => rfl

/-- A lambda is called in such a frame. -/
theorem lambdaFrame_enter (h : Guarded img kept h₀ s) (hcaptures : img.Captures sig)
    {captured : Table Value} (hcapture : s.capture = some captured)
    (hdistinct : captured.Distinct) {s₀ : State}
    (hrel : ∀ name, Option.Rel (fun v v' => s₀.heap.Isomorphic v s.heap v') (s₀.get? name)
      (captured.find? name)) (this args : List (String × Binding)) :
    LambdaFrame s₀ s (s.enter img.functions sig (this ++ args)) this args := by
  obtain ⟨hinner, hnames⟩ := frame_enter img s sig (this ++ args)
  have hlookup : ∀ name, Table.lookup name (this ++ args).reverse =
      (Table.lookup name args.reverse).or (Table.lookup name this.reverse) := by
    intro name
    rw [List.reverse_append, Table.lookup_append]
  refine ⟨hinner, fun name => ?_, fun {name b} hb => ?_, fun {name b} hname hb => ?_,
    fun {name v} hargs hthis hv => ?_⟩
  · rw [hnames, hcapture]
    simp [hcaptures, Table.mem_names_iff, isSome_eq_of_rel (hrel name), or_comm]
  · obtain ⟨cell, hcell, hbinds, -⟩ := exists_cell_of_binding s img.functions sig
      (show Table.lookup name (this ++ args).reverse = some b by rw [hlookup, hb]; rfl)
    exact ⟨cell, hcell, hbinds⟩
  · have hnone : Table.lookup name args.reverse = none := by
      rw [Table.lookup_eq_none_iff, List.map_reverse, List.mem_reverse]
      exact hname
    obtain ⟨cell, hcell, hbinds, -⟩ := exists_cell_of_binding s img.functions sig
      (show Table.lookup name (this ++ args).reverse = some b by rw [hlookup, hnone, hb]; rfl)
    exact ⟨cell, hcell, hbinds⟩
  · have hrel := hrel name
    rw [hv] at hrel
    generalize hfind : captured.find? name = found at hrel
    cases hrel with
    | some hiso =>
      have hname : name ∉ (this ++ args).map Prod.fst := by simp [hargs, hthis]
      obtain ⟨cell, v', hcell, hbinds, hcopy⟩ :=
        exists_cell_of_captured h hcaptures hcapture hdistinct hname hfind
      exact ⟨cell, v', hcell, hbinds, hiso.trans hcopy⟩

end

/-- In every state of a run the captured values are out of reach of all variables, of
whatever frame. So neither the captured values nor the objects they are made of change
until the next lambda is made. A call of a lambda finds captured values, and it finds
them in its frame as they were when the last lambda was made, except where the object of
a method or an argument has the name. -/
theorem captured_values_isolated {σ : Type} {p : Program} {cfg : Config} {m : Machine}
    {con : Console σ} {w₀ w : σ} {s : State} (hload : Machine.load p cfg = .ok m)
    (h : m.Reached con w₀ s w) :
    (∀ captured e o, s.capture = some captured → e ∈ captured.entries →
      s.heap.ReachedFrom e.2 o → ∀ c, ¬ s.heap.ReachedFrom (s.scopes.read c) o) ∧
    (∀ s' w', Steps m.image cfg con m.image.Quiet s w s' w' →
      s'.capture = s.capture ∧
      ∀ captured e o, s.capture = some captured → e ∈ captured.entries →
        s.heap.ReachedFrom e.2 o → s'.heap.fields o = s.heap.fields o) ∧
    ∀ sig bindings, call? m.image cfg s = some (sig, bindings) →
      p.keyword? sig.definition = some .lambda →
      ∃ captured s₀ s' this args,
        s.capture = some captured ∧ m.LastLambda con w₀ s₀ s w ∧
        (∀ name, name ∈ captured.names ↔ (s₀.get? name).isSome) ∧
        bindings = this ++ args ∧
        (∀ name, name ∈ this.map Prod.fst ↔ name = receiverName ∧ p.CallsMethod s.ip) ∧
        args.map Prod.fst = sig.params.map Param.name ∧
        (step m.image cfg s).run con w = (⟨s', none⟩, w) ∧ LambdaFrame s₀ s s' this args := by
  obtain ⟨rfl, hloaded, rfl⟩ := Machine.load_eq_ok hload
  obtain ⟨kept, h₀, hs⟩ := h.guarded hloaded
  have hkept : ∀ {captured e o}, s.capture = some captured → e ∈ captured.entries →
      s.heap.ReachedFrom e.2 o → kept o := fun hcapture he hr =>
    hs.kept_of_reachedFrom (fun _ ho => (hs.snapshot.captured hcapture he).object ho) hr
  refine ⟨?_, ?_, ?_⟩
  · intro captured e o hcapture he hr c hc
    exact (hs.live_of_reachedFrom hc).2 (hkept hcapture he hr)
  · intro s' w' hrow
    obtain ⟨hs', hsame⟩ := hs.steps hrow
    refine ⟨hsame, ?_⟩
    intro captured e o hcapture he hr
    have ho := hkept hcapture he hr
    rw [(hs'.isSealed.kept ho).2, (hs.isSealed.kept ho).2]
  · intro sig bindings hcall hk
    obtain ⟨hsome, hstart⟩ := hs.of_call? hcall hk
    obtain ⟨s₀, hlast⟩ := h.exists_lastLambda hloaded hsome
    obtain ⟨captured, hcapture, hdistinct, hrel⟩ := hlast.captured hloaded
    obtain ⟨⟨id, found⟩, this, args, rfl, hthis, hargs⟩ := bindings_of_call? hcall
    have hnames : ∀ name, name ∈ captured.names ↔ (s₀.get? name).isSome := by
      intro name
      rw [Table.mem_names_iff, isSome_eq_of_rel (hrel name)]
    have hcaptures := hloaded.captures_of_lambda found hk hstart
    exact ⟨captured, s₀, _, this, args, hcapture, hlast, hnames, rfl, hthis, hargs,
      run_step_of_call? con w hcall,
      lambdaFrame_enter hs hcaptures hcapture hdistinct hrel this args⟩

/-- A function that changes an object after a lambda has captured it, and calls the
lambda. -/
def capturingProgram : Program := .ofLines [
  "func main void",
  "  var object box",
  "  assign box.n 1",
  "  lambda int",
  "    return box.n",
  "  endlambda",
  "  assign box.n 2",
  "  funccall resultf",
  "endfunc"]

/-- The lambda finds the object as it was. -/
theorem captured_values_isolated_capturingProgram :
    ∃ s₀ s s' w,
      Machine.Reached { image := .ofProgram capturingProgram } Buffer.console {} s w ∧
      Machine.LastLambda { image := .ofProgram capturingProgram } Buffer.console {} s₀ s w ∧
      (step (.ofProgram capturingProgram) {} s).run Buffer.console w = (⟨s', none⟩, w) ∧
      (∃ v cell v', s₀.get? "box" = some v ∧ s'.scopes.cell? "box" = some cell ∧
        s'.scopes.Binds s.scopes.cells.size cell (.fresh v') ∧
        s₀.heap.Isomorphic v s'.heap v') ∧
      (Operand.resolve (.ofProgram capturingProgram) s "box.n").toOption = some (.int 2) ∧
      (Operand.resolve (.ofProgram capturingProgram) s' "box.n").toOption = some (.int 1) := by
  have hload := Machine.load_eq_ofProgram (p := capturingProgram) (by decide +kernel) {}
  have hstate : (stateAfter (.ofProgram capturingProgram) {} Buffer.console 4 (.start 1) {}).map
      (fun x => (x.1.capture.map Table.names,
        (call? (.ofProgram capturingProgram) {} x.1).map Prod.fst,
        (Operand.resolve (.ofProgram capturingProgram) x.1 "box.n").toOption,
        (Operand.resolve (.ofProgram capturingProgram)
          ((step (.ofProgram capturingProgram) {} x.1).run Buffer.console x.2).1.state
          "box.n").toOption)) =
      some (some ["box"], some ⟨"lambda@3", [], 3, .int⟩, some (.int 2), some (.int 1)) := by
    decide +kernel
  obtain ⟨⟨s, w⟩, hstate, hx⟩ := Option.map_eq_some_iff.mp hstate
  simp only [Prod.mk.injEq, Option.map_eq_some_iff] at hx
  obtain ⟨⟨captured, hcapture, hnames⟩, ⟨⟨_, bindings⟩, hcall, rfl⟩, hbefore, hafter⟩ := hx
  have hreached := Machine.reached_of_stateAfter (m := { image := .ofProgram capturingProgram })
    (by decide +kernel) hstate
  obtain ⟨-, -, hcalls⟩ := captured_values_isolated hload hreached
  obtain ⟨captured', s₀, s', this, args, hcapture', hlast, hcaptured, -, hthis, hargs, hstep,
    hframe⟩ := hcalls _ bindings hcall (by decide +kernel)
  cases hcapture.symm.trans hcapture'
  have hbox : (s₀.get? "box").isSome := (hcaptured "box").mp (by rw [hnames]; decide)
  obtain ⟨v, hv⟩ := Option.isSome_iff_exists.mp hbox
  obtain ⟨cell, v', hframe⟩ := hframe.captured (by rw [hargs]; decide)
    (fun hmem => absurd ((hthis "box").mp hmem).1 (by decide)) hv
  rw [hstep] at hafter
  exact ⟨s₀, s, s', w, hreached, hlast, hstep, ⟨v, cell, v', hv, hframe⟩, hbefore, hafter⟩

end LineScript
