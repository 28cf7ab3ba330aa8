/-
The frame of a call.

A call opens a frame with one block and binds names there: first, for a body in which a
lambda was read, copies of the captured values, and then the object of a method and the
parameters. What is bound last stays (`ScopeStack.Bound`).

Whether captured values come in is read off the first line of the body, not off the
signature. So a named function gets them, too, when its body begins with a lambda:
`named_call_frame` says what the frame of a named function holds, and
`named_call_frame_leaks` is a run in which a variable of the caller is among it.
-/
import LineScript.Proofs.Frames

namespace LineScript

namespace ScopeStack

/-- The cell is what a binding asks for: one that was made since there were `base` cells
and holds the value, or the cell that is shared. -/
def Binds (c : ScopeStack) (base : Nat) (cell : CellId) : Binding → Prop
  | .fresh v => base ≤ cell.index ∧ cell.index < c.cells.size ∧ c.read cell = v
  | .shared d => cell = d

/-- The second stack has these bindings more than the first, in a frame with one block. -/
structure Bound (c c' : ScopeStack) (bindings : List (String × Binding)) : Prop where
  inner : c'.current.inner = []
  size_le : c.cells.size ≤ c'.cells.size
  read_eq : ∀ {d : CellId}, d.index < c.cells.size → c'.read d = c.read d
  bound : ∀ {name : String} {b : Binding}, Table.lookup name bindings.reverse = some b →
    ∃ cell, c'.current.root.find? name = some cell ∧ c'.Binds c.cells.size cell b
  other : ∀ {name : String}, name ∉ bindings.map Prod.fst →
    c'.current.root.find? name = c.current.root.find? name

variable {c c' : ScopeStack}

theorem Binds.mono {base base' : Nat} {cell : CellId} {b : Binding} (h : c.Binds base cell b)
    (hbase : base' ≤ base) (hsize : c.cells.size ≤ c'.cells.size)
    (hread : ∀ {d : CellId}, d.index < c.cells.size → c'.read d = c.read d) :
    c'.Binds base' cell b := by
  cases b with
  | fresh v =>
    obtain ⟨hge, hlt, hv⟩ := h
    exact ⟨Nat.le_trans hbase hge, Nat.lt_of_lt_of_le hlt hsize, (hread hlt).trans hv⟩
  | shared d => exact h

/-- One binding, in a frame with one block. -/
theorem bind_of_inner (hinner : c.current.inner = []) (name : String) (b : Binding) :
    (c.bind name b).current.inner = [] ∧ c.cells.size ≤ (c.bind name b).cells.size ∧
      (∀ {d : CellId}, d.index < c.cells.size → (c.bind name b).read d = c.read d) ∧
      ∃ cell, (c.bind name b).Binds c.cells.size cell b ∧
        (c.bind name b).current.root = c.current.root.insert name cell := by
  have hset : ∀ block, c.current.setInnermost block = { c.current with root := block } := by
    intro block
    simp [Frame.setInnermost, hinner]
  have hinnermost : c.current.innermost = c.current.root := by
    rw [Frame.innermost, hinner]
  cases b with
  | fresh v =>
    have hbind : c.bind name (.fresh v) =
        { c with
          current := { c.current with root := c.current.root.insert name ⟨c.cells.size⟩ }
          cells := c.cells.push v } := by
      rw [bind, define, hset, hinnermost]
    rw [hbind]
    refine ⟨hinner, by simp, fun {d} hd => ?_, ⟨c.cells.size⟩, ⟨Nat.le_refl _, by simp, ?_⟩, rfl⟩
    · simp [read, Array.getElem?_push, Nat.ne_of_lt hd]
    · simp [read]
  | shared d =>
    have hbind : c.bind name (.shared d) =
        { c with current := { c.current with root := c.current.root.insert name d } } := by
      rw [bind, hset, hinnermost]
    rw [hbind]
    exact ⟨hinner, Nat.le_refl _, fun _ => rfl, d, rfl, rfl⟩

/-- Names bound in a row, in a frame with one block. -/
theorem bound_bindAll (hinner : c.current.inner = []) (bindings : List (String × Binding)) :
    Bound c (c.bindAll bindings) bindings := by
  -- From the end of the list, since a later binding hides an earlier one.
  induction bindings using List.reverseRecOn with
  | nil => exact ⟨hinner, Nat.le_refl _, fun _ => rfl, nofun, fun _ => rfl⟩
  | append_singleton bindings b ih =>
    have hlast : c.bindAll (bindings ++ [b]) = (c.bindAll bindings).bind b.1 b.2 := by
      simp [bindAll]
    rw [hlast]
    obtain ⟨hinner', hsize, hread, cell, hbinds, hroot⟩ := bind_of_inner ih.inner b.1 b.2
    refine ⟨hinner', Nat.le_trans ih.size_le hsize, fun hd => ?_, fun {name b'} hname => ?_,
      fun {name} hname => ?_⟩
    · exact (hread (Nat.lt_of_lt_of_le hd ih.size_le)).trans (ih.read_eq hd)
    · rw [List.reverse_concat, Table.lookup] at hname
      rw [hroot]
      by_cases hkey : b.1 = name
      · rw [if_pos hkey] at hname
        cases hname
        exact ⟨cell, by rw [Table.find?_insert, if_pos hkey.symm],
          hbinds.mono ih.size_le (Nat.le_refl _) fun _ => rfl⟩
      · rw [if_neg hkey] at hname
        obtain ⟨cell', hfind, hbinds'⟩ := ih.bound hname
        exact ⟨cell', by rw [Table.find?_insert, if_neg (Ne.symm hkey), hfind],
          hbinds'.mono (Nat.le_refl _) hsize hread⟩
    · rw [List.map_append, List.mem_append, not_or] at hname
      rw [hroot, Table.find?_insert, if_neg (by simpa using hname.2), ih.other hname.1]

theorem cell?_of_inner (hinner : c.current.inner = []) (name : String) :
    c.cell? name = c.current.root.find? name := by
  rw [cell?, Frame.cell?, Frame.blocks, hinner]
  simp

/-- The names that a lookup finds in a frame with one block. -/
theorem Bound.isSome_cell? {bindings : List (String × Binding)} (h : Bound c c' bindings)
    (hinner : c.current.inner = []) (name : String) :
    (c'.cell? name).isSome ↔ name ∈ bindings.map Prod.fst ∨ (c.cell? name).isSome := by
  rw [cell?_of_inner h.inner, cell?_of_inner hinner]
  by_cases hname : name ∈ bindings.map Prod.fst
  · obtain ⟨b, hb⟩ := Option.ne_none_iff_exists'.mp fun hnone =>
      Table.lookup_eq_none_iff.mp hnone (show name ∈ bindings.reverse.map Prod.fst by
        rw [List.map_reverse]
        exact List.mem_reverse.mpr hname)
    obtain ⟨cell, hfind, -⟩ := h.bound hb
    simp [hname, hfind]
  · rw [h.other hname]
    simp [hname]

end ScopeStack

/-! ### Calls -/

/-- Captured values come into the frame of a call: the first line of the body declares a
lambda, or was read inside of one. -/
def Image.Captures (img : Image) (sig : Signature) : Prop :=
  (img.functions.lambdaResult? sig.start).isSome = true

/-- The copies of captured values, as bindings. -/
def State.captureBindings (s : State) (captured : Table Value) : List (String × Binding) :=
  (s.heap.deepCopyAll captured.entries).1.map fun e => (e.1, .fresh e.2)

section
variable {img : Image} {cfg : Config} {s : State} {sig : Signature}
  {bindings : List (String × Binding)}

theorem Heap.names_deepCopyAll (h : Heap) (entries : List (String × Value)) :
    (h.deepCopyAll entries).1.map Prod.fst = entries.map Prod.fst := by
  induction entries generalizing h with
  | nil => rfl
  | cons e rest ih => exact congrArg (e.1 :: ·) (ih _)

theorem State.names_captureBindings (s : State) (captured : Table Value) :
    (s.captureBindings captured).map Prod.fst = captured.names := by
  rw [captureBindings, List.map_map, Table.names, ← s.heap.names_deepCopyAll captured.entries]
  rfl

theorem enter_of_captures (h : img.Captures sig) (bindings : List (String × Binding)) :
    s.enter img.functions sig bindings =
      (s.called sig).restoreCapture.withBindings bindings := by
  rw [Image.Captures] at h
  rw [State.enter_eq, if_pos h]

theorem enter_of_not_captures (h : ¬ img.Captures sig) (bindings : List (String × Binding)) :
    s.enter img.functions sig bindings = (s.called sig).withBindings bindings := by
  rw [Image.Captures] at h
  rw [State.enter_eq, if_neg h]

theorem bound_withBindings (hinner : s.scopes.current.inner = [])
    (bindings : List (String × Binding)) :
    s.scopes.Bound (s.withBindings bindings).scopes bindings :=
  ScopeStack.bound_bindAll hinner bindings

/-- Captured values come first. -/
theorem bound_restoreCapture (sig : Signature) {captured : Table Value}
    (hcapture : s.capture = some captured) :
    (s.called sig).scopes.Bound (s.called sig).restoreCapture.scopes
      (s.captureBindings captured) := by
  rw [State.restoreCapture, show (s.called sig).capture = some captured from hcapture]
  exact ScopeStack.bound_bindAll rfl _

/-- The variables when a body begins: copies of captured values, in cells of their own,
and then what the call binds. -/
theorem State.scopes_enter (s : State) (functions : FunctionTable) (sig : Signature)
    (bindings : List (String × Binding)) :
    ∃ copies : List (String × Value), (s.enter functions sig bindings).scopes =
      s.scopes.pushFrame.bindAll (copies.map (fun e => (e.1, .fresh e.2)) ++ bindings) := by
  rw [enter_eq]
  split
  · rw [restoreCapture]
    split
    · exact ⟨[], rfl⟩
    · exact ⟨_, by rw [ScopeStack.bindAll, List.foldl_append]; rfl⟩
  · exact ⟨[], rfl⟩

/-- What a call binds is in its frame, what it binds last stays, and the cells of its
caller hold what they held. -/
theorem exists_cell_of_binding (s : State) (functions : FunctionTable) (sig : Signature)
    {name : String} {b : Binding} (hb : Table.lookup name bindings.reverse = some b) :
    ∃ cell, (s.enter functions sig bindings).scopes.cell? name = some cell ∧
      (s.enter functions sig bindings).scopes.Binds s.scopes.cells.size cell b ∧
      ∀ {d : CellId}, d.index < s.scopes.cells.size →
        (s.enter functions sig bindings).scopes.read d = s.scopes.read d := by
  obtain ⟨copies, hscopes⟩ := s.scopes_enter functions sig bindings
  have hbound := ScopeStack.bound_bindAll (c := s.scopes.pushFrame) rfl
    (copies.map (fun e => (e.1, .fresh e.2)) ++ bindings)
  rw [← hscopes] at hbound
  have hlast : Table.lookup name
      (copies.map (fun e => (e.1, Binding.fresh e.2)) ++ bindings).reverse = some b := by
    rw [List.reverse_append, Table.lookup_append, hb]
    rfl
  obtain ⟨cell, hroot, hbinds⟩ := hbound.bound hlast
  exact ⟨cell, by rw [ScopeStack.cell?_of_inner hbound.inner, hroot], hbinds, hbound.read_eq⟩

/-- The frame of a call has one block, and a lookup finds the names of the bindings and,
where captured values come in, theirs. -/
theorem frame_enter (img : Image) (s : State) (sig : Signature)
    (bindings : List (String × Binding)) :
    (s.enter img.functions sig bindings).scopes.current.inner = [] ∧
    ∀ name, ((s.enter img.functions sig bindings).scopes.cell? name).isSome ↔
      name ∈ bindings.map Prod.fst ∨
        img.Captures sig ∧ ∃ captured, s.capture = some captured ∧ name ∈ captured.names := by
  have hnone : ∀ name, (s.called sig).scopes.cell? name = none := fun name => rfl
  have hclean := bound_withBindings (s := s.called sig) rfl bindings
  by_cases hcaptures : img.Captures sig
  · rw [enter_of_captures hcaptures]
    cases hcapture : s.capture with
    | none =>
      rw [State.restoreCapture, show (s.called sig).capture = none from hcapture]
      refine ⟨hclean.inner, ?_⟩
      intro name
      rw [hclean.isSome_cell? rfl, hnone]
      simp
    | some captured =>
      -- Two rows of bindings in the same block, first the captured values.
      have hrestored := bound_restoreCapture sig hcapture
      have hbound := bound_withBindings hrestored.inner bindings
      refine ⟨hbound.inner, ?_⟩
      intro name
      rw [hbound.isSome_cell? hrestored.inner, hrestored.isSome_cell? rfl, hnone,
        State.names_captureBindings]
      simp [hcaptures]
  · rw [enter_of_not_captures hcaptures]
    refine ⟨hclean.inner, ?_⟩
    intro name
    rw [hclean.isSome_cell? rfl, hnone]
    simp [hcaptures]

/-! ### Lines that call -/

/-- The call that the current line makes: the signature and what is bound. -/
def call? (img : Image) (cfg : Config) (s : State) :
    Option (Signature × List (String × Binding)) :=
  match Plan.next img cfg s with
  | .ok (.effect (.enter sig bindings)) => some (sig, bindings)
  | _ => none

theorem call?_eq_some (h : call? img cfg s = some (sig, bindings)) :
    Plan.next img cfg s = .ok (.effect (.enter sig bindings)) := by
  rw [call?] at h
  split at h
  · next hplan =>
    cases h
    exact hplan
  · cases h

/-- Such a call succeeds. -/
theorem run_step_of_call? {σ : Type} (con : Console σ) (w : σ)
    (h : call? img cfg s = some (sig, bindings)) :
    (step img cfg s).run con w = (⟨s.enter img.functions sig bindings, none⟩, w) := by
  rw [step, call?_eq_some h]
  rfl

/-- The line calls a method: what it calls is a field of an object. -/
def Program.CallsMethod (p : Program) (n : Nat) : Prop :=
  ∃ target actuals, (p.line n).tokens.tail = target :: actuals ∧
    (Operand.path? target).isSome = true

theorem Operand.isSome_receiver {target : String} {callee : Callee}
    (h : Operand.callee img s target = .ok callee) :
    callee.receiver.isSome = (path? target).isSome := by
  rcases Operand.receiver_of_callee h with ⟨hpath, hnone⟩ | ⟨_, _, _, hpath, -, hsome⟩
  · rw [hpath, hnone]
    rfl
  · rw [hpath, hsome]
    rfl

theorem Plan.names_arguments {target : String} {params : List Param} {actuals : List String}
    (h : Plan.arguments img s target params actuals = .ok bindings)
    (harity : params.length = actuals.length) :
    bindings.map Prod.fst = params.map Param.name := by
  have hnames : (params.zip actuals).map (fun q => q.1.name) = bindings.map Prod.fst := by
    rw [← List.forall₂_eq_eq_eq, List.forall₂_map_left_iff, List.forall₂_map_right_iff]
    exact (Plan.arguments_eq_ok h).imp fun _ _ hb => hb.1.symm
  have hparams : ((params.zip actuals).map Prod.fst).map Param.name = params.map Param.name := by
    rw [List.map_fst_zip (Nat.le_of_eq harity)]
  rw [← hnames, ← hparams, List.map_map]
  rfl

/-- A call binds the object, in a call of a method, and then the parameters. -/
theorem bindings_of_call? (h : call? img cfg s = some (sig, bindings)) :
    (∃ id, img.functions.signature? id = some sig) ∧
    ∃ this args, bindings = this ++ args ∧
      (∀ name, name ∈ this.map Prod.fst ↔
        name = receiverName ∧ img.program.CallsMethod s.ip) ∧
      args.map Prod.fst = sig.params.map Param.name := by
  cases planned_of_next (call?_eq_some h) with
  | @call target actuals callee _ args _ htarget _ hcallee found arity passed _ =>
    refine ⟨⟨_, found⟩, _, args, rfl, ?_, Plan.names_arguments passed arity⟩
    intro name
    have hmethod : img.program.CallsMethod s.ip ↔ callee.receiver.isSome = true := by
      rw [Operand.isSome_receiver hcallee]
      constructor
      · rintro ⟨target', actuals', htarget', hpath⟩
        obtain ⟨rfl, -⟩ := List.cons.inj (htarget.symm.trans htarget')
        exact hpath
      · exact fun hpath => ⟨target, actuals, htarget, hpath⟩
    rw [hmethod]
    cases callee.receiver <;> simp

/-! ### Named functions -/

/-- The number of lambdas that have begun before a line and have not ended. -/
def Program.lambdaDepth (p : Program) : Nat → Nat
  | 0 => 0
  | n + 1 =>
    match p.keyword? n with
    | some .lambda => p.lambdaDepth n + 1
    | some .endLambda => p.lambdaDepth n - 1
    | _ => p.lambdaDepth n

theorem Image.Loaded.length_openLambdas (h : img.Loaded) {n : Nat} (hn : n ≤ img.program.size) :
    (img.program.survey n).openLambdas.length = img.program.lambdaDepth n := by
  induction n with
  | zero => rfl
  | succ n ih =>
    have ih := ih (Nat.le_of_succ_le hn)
    rw [Program.lambdaDepth]
    split
    · next hk =>
      obtain ⟨sig, hsig⟩ := h.exists_header (.inr hk)
      rw [(h.open_succ_of_lambda hk hsig).2, List.length_cons, ih]
    · next hk => rw [(h.open_succ_of_endLambda hk).2, List.length_tail, ih]
    · next hlambda hend =>
      rw [← ih]
      by_cases hfunc : img.program.keyword? n = some .func
      · obtain ⟨sig, hsig⟩ := h.exists_header (.inl hfunc)
        rw [(h.open_succ_of_func hfunc hsig).2]
      by_cases hendFunc : img.program.keyword? n = some .endFunc
      · rw [(h.open_succ_of_endFunc hendFunc).2]
      · have hother : ∀ k ∈ [Keyword.func, .endFunc, .lambda, .endLambda],
            img.program.keyword? n ≠ some k := by
          simpa [hfunc, hendFunc] using ⟨hlambda, hend⟩
        rw [(h.open_succ_of_other hn hother).2]

theorem Image.Loaded.lambdaResult?_of_ge (h : img.Loaded) {n : Nat} (hn : img.program.size ≤ n) :
    img.functions.lambdaResult? n = none := by
  have hsize := (h.size_results (Nat.le_refl _)).2
  rw [FunctionTable.lambdaResult?, h.functions_eq, Array.getD_eq_getD_getElem?,
    Array.getElem?_eq_none (by rw [hsize]; exact hn)]
  rfl

/-- Captured values come in if the body begins with a lambda or inside of one. -/
theorem Image.Loaded.captures_iff_open (h : img.Loaded) (hstart : sig.start < img.program.size) :
    img.Captures sig ↔ img.program.keyword? sig.start = some .lambda ∨
      (img.program.survey sig.start).openLambdas ≠ [] := by
  rw [Image.Captures, (h.recorded hstart).2]
  by_cases hk : img.program.keyword? sig.start = some .lambda
  · obtain ⟨header, hheader⟩ := h.exists_header (.inr hk)
    simp [hk, hheader]
  · simp [hk]

/-- Captured values come into the frame of a named function exactly if its body begins
with a lambda or the function itself was read inside of one. -/
theorem Image.Loaded.captures_iff (h : img.Loaded) {id : FuncId}
    (found : img.functions.signature? id = some sig)
    (hfunc : img.program.keyword? sig.definition = some .func) :
    img.Captures sig ↔ img.program.keyword? sig.start = some .lambda ∨
      sig.start < img.program.size ∧ 0 < img.program.lambdaDepth sig.definition := by
  have hdef := Program.lt_size_of_keyword? hfunc
  by_cases hstart : sig.start < img.program.size
  · -- The header opens no lambda, so the same ones are open before and after it.
    have hopen : (img.program.survey sig.start).openLambdas =
        (img.program.survey sig.definition).openLambdas :=
      (h.open_succ_of_func hfunc (h.header_of_signature found)).2
    rw [h.captures_iff_open hstart, hopen, ← h.length_openLambdas (Nat.le_of_lt hdef)]
    simp [hstart, List.length_pos_iff]
  · have hk : img.program.keyword? sig.start ≠ some .lambda :=
      fun hk => hstart (Program.lt_size_of_keyword? hk)
    rw [Image.Captures, h.lambdaResult?_of_ge (Nat.le_of_not_lt hstart)]
    simp [hk, hstart]

end

/-- The frame of a named function has one block. A lookup finds the parameters there and,
in a call of a method, its object. It finds nothing else unless the body begins with a
lambda or the function was read inside of one: then it finds all that the last lambda has
captured, too. -/
theorem named_call_frame {σ : Type} {p : Program} {img : Image} {cfg : Config} {s : State}
    {sig : Signature} {bindings : List (String × Binding)} (con : Console σ) (w : σ)
    (hload : Image.load p = .ok img) (hcall : call? img cfg s = some (sig, bindings))
    (hfunc : p.keyword? sig.definition = some .func) :
    ∃ s', (step img cfg s).run con w = (⟨s', none⟩, w) ∧ s'.scopes.current.inner = [] ∧
      ∀ name, (s'.scopes.cell? name).isSome ↔
        name ∈ sig.params.map Param.name ∨
        name = receiverName ∧ p.CallsMethod s.ip ∨
        (p.keyword? sig.start = some .lambda ∨
            sig.start < p.size ∧ 0 < p.lambdaDepth sig.definition) ∧
          ∃ captured, s.capture = some captured ∧ name ∈ captured.names := by
  obtain ⟨rfl, hloaded⟩ := Image.loaded_of_load hload
  obtain ⟨⟨id, found⟩, this, args, rfl, hthis, hargs⟩ := bindings_of_call? hcall
  obtain ⟨hinner, hcell⟩ := frame_enter img s sig (this ++ args)
  refine ⟨_, run_step_of_call? con w hcall, hinner, ?_⟩
  intro name
  rw [hcell, List.map_append, List.mem_append, hthis, hargs, hloaded.captures_iff found hfunc,
    or_comm (a := _ ∧ _), or_assoc]

/-- Two functions that begin their work with a lambda each; the second has no variable of
its own. -/
def leakingProgram : Program := .ofLines [
  "func main void",
  "  var int counter",
  "  lambda int",
  "    return 1",
  "  endlambda",
  "  funccall helper",
  "endfunc",
  "func helper void",
  "  lambda int",
  "    return 2",
  "  endlambda",
  "  funccall print counter",
  "endfunc"]

/-- No function is inside of a lambda, and yet the second function sees the variable of the
first. -/
theorem named_call_frame_leaks :
    (∀ n, leakingProgram.keyword? n = some .func → leakingProgram.lambdaDepth n = 0) ∧
    ∃ s s' w, ∃ sig : Signature,
      Machine.Reached { image := .ofProgram leakingProgram } Buffer.console {} s w ∧
      leakingProgram.keyword? sig.definition = some .func ∧ sig.params = [] ∧
      ¬ leakingProgram.CallsMethod s.ip ∧
      (step (.ofProgram leakingProgram) {} s).run Buffer.console w = (⟨s', none⟩, w) ∧
      (s'.scopes.cell? "counter").isSome = true := by
  have hload := Image.load_eq_ofProgram (p := leakingProgram) (by decide +kernel)
  have hfuncs : ∀ n < 13, leakingProgram.keyword? n = some .func →
      leakingProgram.lambdaDepth n = 0 := by decide +kernel
  refine ⟨fun n hk => hfuncs n (Program.lt_size_of_keyword? hk) hk, ?_⟩
  have hstate : (stateAfter (.ofProgram leakingProgram) {} Buffer.console 2 (.start 1) {}).map
      (fun x => (x.1.ip, x.1.capture.map Table.names,
        (call? (.ofProgram leakingProgram) {} x.1).map Prod.fst)) =
      some (5, some ["counter"], some ⟨"helper", [], 7, .void⟩) := by decide +kernel
  obtain ⟨⟨s, w⟩, hstate, hx⟩ := Option.map_eq_some_iff.mp hstate
  simp only [Prod.mk.injEq, Option.map_eq_some_iff] at hx
  obtain ⟨hip, ⟨captured, hcapture, hcaptured⟩, ⟨_, bindings⟩, hcall, rfl⟩ := hx
  have hreached := Machine.reached_of_stateAfter (m := { image := .ofProgram leakingProgram })
    (by decide +kernel) hstate
  have hfunc : leakingProgram.keyword? 7 = some .func := by decide +kernel
  have hlambda : leakingProgram.keyword? 8 = some .lambda := by decide +kernel
  obtain ⟨s', hstep, -, hcells⟩ := named_call_frame Buffer.console w hload hcall hfunc
  refine ⟨s, s', w, ⟨"helper", [], 7, .void⟩, hreached, hfunc, rfl, ?_, hstep,
    (hcells "counter").mpr ?_⟩
  · rw [hip]
    rintro ⟨target, actuals, htarget, hpath⟩
    have htokens : (leakingProgram.line 5).tokens.tail = ["helper"] := by decide +kernel
    obtain ⟨rfl, -⟩ := List.cons.inj (htokens.symm.trans htarget)
    exact absurd hpath (by decide +kernel)
  · exact .inr (.inr ⟨.inl hlambda, captured, hcapture, by rw [hcaptured]; decide⟩)

end LineScript
