/-
What a function is given.

The value of an argument is found by what the token says: a literal stands for itself, a
path for a field, and only a name for a variable. A parameter by reference shares the
variable that has the token for its name. These agree for names; but a declaration
accepts any token for a name, so there may be a variable `5` and a variable `a.b`, and
then a literal or a path that is passed by reference arrives as that variable.

`call_delivers_arguments` says what each parameter is bound to, and what the object of a
method is bound to; in `call_delivers_text_for_number` a parameter for a number is bound
to a text.
-/
import LineScript.Proofs.Sharing

namespace LineScript

variable {img : Image} {cfg : Config} {s s' : State}

/-! ### Names -/

/-- The token can only be a name: it is neither a literal nor a path. -/
def Operand.IsName (token : String) : Prop := literal? token = none ∧ path? token = none

theorem Operand.resolve_of_isName {token : String} (h : IsName token) :
    resolve img s token = ofName img s token := by
  rw [resolve]
  cases dots token with
  | zero => simp [resolveWithin, h.1]
  | succ n => simp [resolveWithin, h.1, h.2]

/-- A name stands for the value of the variable that has it. -/
theorem Operand.read_of_resolve {token : String} {v : Value} {c : CellId} (h : IsName token)
    (hcell : s.scopes.cell? token = some c) (hv : resolve img s token = .ok v) :
    s.scopes.read c = v := by
  have hget : s.scopes.get? token = some (s.scopes.read c) := by
    rw [ScopeStack.get?, hcell]
    rfl
  rw [resolve_of_isName h, ofName, hget] at hv
  exact Except.ok.inj hv

theorem Operand.read_of_resolveObject {token : String} {o : ObjId} {c : CellId} (h : IsName token)
    (hcell : s.scopes.cell? token = some c) (ho : resolveObject img s token = .ok o) :
    s.scopes.read c = .object o := by
  obtain ⟨v, hv, ho⟩ := Except.bind_eq_ok_iff.mp ho
  rw [read_of_resolve h hcell hv]
  rw [asObject.eq_def] at ho
  split at ho <;> cases ho
  rfl

/-! ### What arrives -/

/-- The name is bound to the variable that is shared, if one is, and this variable is as it
was before. If none is shared, or if the token is a name, then the name has the value. -/
def Delivered (s s' : State) (shared : Option CellId) (token : String) (v : Value)
    (name : String) : Prop :=
  ∃ cell, s'.scopes.cell? name = some cell ∧
    (∀ c, shared = some c → cell = c ∧ s'.scopes.read cell = s.scopes.read c) ∧
    (shared = none ∨ Operand.IsName token → s'.scopes.read cell = v)

/-- What is bound to a shared cell, or else to a value, is delivered; for a name the two
are the same. -/
theorem delivered_of_shareOr (hrange : s.scopes.InRange) {functions : FunctionTable}
    {sig : Signature} {bindings : List (String × Binding)} {name token : String} {v : Value}
    {shared : Option CellId}
    (hb : Table.lookup name bindings.reverse = some (.shareOr v shared))
    (hcell : ∀ c, shared = some c → s.scopes.cell? token = some c)
    (hname : ∀ c, shared = some c → Operand.IsName token → s.scopes.read c = v) :
    Delivered s (s.enter functions sig bindings) shared token v name := by
  obtain ⟨cell, hbound, hbinds, hread⟩ := exists_cell_of_binding s functions sig hb
  refine ⟨cell, hbound, ?_, ?_⟩
  · rintro c rfl
    obtain rfl : cell = c := hbinds
    exact ⟨rfl, hread (hrange.cell? (hcell cell rfl))⟩
  · intro hor
    cases shared with
    | none => exact hbinds.2.2
    | some c =>
      obtain rfl : cell = c := hbinds
      rw [hread (hrange.cell? (hcell cell rfl))]
      exact hname cell rfl (hor.resolve_left nofun)

/-- The last parameter of a name is bound to its argument. -/
theorem exists_argument_of_find? {callee name : String} {pairs : List (Param × String)}
    {args : List (String × Binding)} {q : Param × String}
    (h : List.Forall₂ (fun q b => b.1 = q.1.name ∧ Plan.argument img s callee q.1 q.2 = .ok b.2)
      pairs args) (hq : pairs.find? (fun q => q.1.name = name) = some q) :
    ∃ b, Table.lookup name args = some b ∧ Plan.argument img s callee q.1 q.2 = .ok b := by
  induction h with
  | nil => cases hq
  | @cons q' b _ _ hb _ ih =>
    rw [Table.lookup]
    by_cases hname : q'.1.name = name
    · rw [List.find?_cons_of_pos (by simpa using hname)] at hq
      cases hq
      rw [if_pos (hb.1.trans hname)]
      exact ⟨b.2, rfl, hb.2⟩
    · rw [List.find?_cons_of_neg (by simpa using hname)] at hq
      rw [if_neg (hb.1 ▸ hname)]
      exact ih hq

/-- The object of a method has a name of its own: no parameter can have it. -/
theorem receiverName_not_mem_params (hload : img.Loaded) {id : FuncId} {sig : Signature}
    (found : img.functions.signature? id = some sig) :
    receiverName ∉ sig.params.map Param.name := by
  intro hmem
  obtain ⟨q, hq, hname⟩ := List.mem_map.mp hmem
  have hfree := Program.not_reserved_of_header? (hload.header_of_signature found) q hq
  rw [hname] at hfree
  revert hfree
  decide +kernel

/-- Every parameter name has a last parameter, with its argument. -/
theorem exists_last_parameter {params : List Param} {actuals : List String} {name : String}
    (harity : params.length = actuals.length) (hname : name ∈ params.map Param.name) :
    ∃ param actual,
      (params.zip actuals).reverse.find? (fun q => q.1.name = name) = some (param, actual) := by
  rw [← List.map_fst_zip (Nat.le_of_eq harity), List.map_map] at hname
  obtain ⟨q, hq, hname⟩ := List.mem_map.mp hname
  have hsome : ((params.zip actuals).reverse.find? (fun q => q.1.name = name)).isSome = true :=
    List.find?_isSome.mpr ⟨q, List.mem_reverse.mpr hq, by simpa using hname⟩
  obtain ⟨⟨param, actual⟩, hfind⟩ := Option.isSome_iff_exists.mp hsome
  exact ⟨param, actual, hfind⟩

/-- A call finds a value of the right kind for each parameter, taking the last of a name,
and delivers it, sharing a variable if the parameter is one by reference. In a call of a
method it delivers the object that the owner stands for. -/
theorem call_delivers_arguments {σ : Type} {p : Program} {cfg : Config} {m : Machine}
    {con : Console σ} {w₀ w : σ} {s : State} {sig : Signature} {bindings : List (String × Binding)}
    (hload : Machine.load p cfg = .ok m) (h : m.Reached con w₀ s w)
    (hcall : call? m.image cfg s = some (sig, bindings)) :
    ∃ s' target actuals, (step m.image cfg s).run con w = (⟨s', none⟩, w) ∧
      (p.line s.ip).tokens.tail = target :: actuals ∧ sig.params.length = actuals.length ∧
      (∀ name ∈ sig.params.map Param.name, ∃ param actual v,
        (sig.params.zip actuals).reverse.find? (fun q => q.1.name = name) = some (param, actual) ∧
        Operand.resolve m.image s actual = .ok v ∧ v.kind = param.type.kind ∧
        Delivered s s' (s.shared? param actual) actual v name) ∧
      ∀ owner method, Operand.path? target = some (owner, method) →
        ∃ o, Operand.resolveObject m.image s owner = .ok o ∧
          Delivered s s' (s.scopes.cell? owner) owner (.object o) receiverName := by
  obtain ⟨rfl, hloaded, rfl⟩ := Machine.load_eq_ok hload
  have hrange := h.inRange
  have hstep := run_step_of_call? con w hcall
  cases planned_of_next (call?_eq_some hcall) with
  | @call target actuals callee _ args _ here _ resolved found arity passed _ =>
    have hargs := Plan.arguments_eq_ok passed
    refine ⟨_, target, actuals, hstep, here, arity, ?_, ?_⟩
    · intro name hname
      obtain ⟨param, actual, hfind⟩ := exists_last_parameter arity hname
      obtain ⟨b, hb, hargument⟩ := exists_argument_of_find?
        (List.forall₂_reverse_iff.mpr hargs) hfind
      obtain ⟨v, hv, hkind, rfl⟩ := Plan.argument_eq_ok hargument
      refine ⟨param, actual, v, hfind, hv, hkind, ?_⟩
      have hcell : ∀ c, s.shared? param actual = some c → s.scopes.cell? actual = some c :=
        fun c hc => (State.shared?_eq_some.mp hc).2
      refine delivered_of_shareOr hrange ?_ hcell
        fun c hc hactual => Operand.read_of_resolve hactual (hcell c hc) hv
      rw [List.reverse_append, Table.lookup_append, hb]
      rfl
    · intro owner method hpath
      rcases Operand.receiver_of_callee resolved with ⟨hnone, -⟩ | ⟨_, _, o, hpath', ho, hreceiver⟩
      · rw [hpath] at hnone
        cases hnone
      · cases hpath.symm.trans hpath'
        refine ⟨o, ho, delivered_of_shareOr hrange ?_ (fun _ => id)
          fun c hc howner => Operand.read_of_resolveObject howner hc ho⟩
        -- The parameters come later, but none of them has this name.
        have hother : Table.lookup receiverName args.reverse = none := by
          rw [Table.lookup_eq_none_iff, List.map_reverse, List.mem_reverse,
            Plan.names_arguments passed arity]
          exact receiverName_not_mem_params hloaded found
        rw [List.reverse_append, Table.lookup_append, hother, hreceiver, Operand.receiver_eq]
        rfl

/-- A function that declares a text and passes a number. -/
def mistakenProgram : Program := .ofLines [
  "func main void",
  "  var string 5",
  "  funccall show 5",
  "endfunc",
  "func show n:refint void",
  "  funccall print n",
  "endfunc"]

/-- The argument is the number five, and the parameter is for a number; but there is a
variable `5`, which holds an empty text, and this is what arrives. -/
theorem call_delivers_text_for_number :
    ∃ s s' w, ∃ sig : Signature, ∃ cell,
      Machine.Reached { image := .ofProgram mistakenProgram } Buffer.console {} s w ∧
      (call? (.ofProgram mistakenProgram) {} s).map Prod.fst = some sig ∧
      sig.params = [⟨"n", .refInt⟩] ∧
      (mistakenProgram.line s.ip).tokens.tail = ["show", "5"] ∧
      Operand.resolve (.ofProgram mistakenProgram) s "5" = .ok (.int 5) ∧
      (step (.ofProgram mistakenProgram) {} s).run Buffer.console w = (⟨s', none⟩, w) ∧
      s'.scopes.cell? "n" = some cell ∧ s'.scopes.read cell = .str "" := by
  have hload := Machine.load_eq_ofProgram (p := mistakenProgram) (by decide +kernel) {}
  have hstate : (stateAfter (.ofProgram mistakenProgram) {} Buffer.console 1 (.start 1) {}).map
      (fun x => (x.1.ip, (call? (.ofProgram mistakenProgram) {} x.1).map Prod.fst,
        x.1.scopes.cell? "5", x.1.scopes.read ⟨0⟩)) =
      some (2, some ⟨"show", [⟨"n", .refInt⟩], 4, .void⟩, some ⟨0⟩, .str "") := by decide +kernel
  obtain ⟨⟨s, w⟩, hstate, hx⟩ := Option.map_eq_some_iff.mp hstate
  simp only [Prod.mk.injEq, Option.map_eq_some_iff] at hx
  obtain ⟨hip, ⟨⟨sig, bindings⟩, hcall, rfl⟩, hcell, htext⟩ := hx
  have hreached := Machine.reached_of_stateAfter (m := { image := .ofProgram mistakenProgram })
    (by decide +kernel) hstate
  have htokens : (mistakenProgram.line s.ip).tokens.tail = ["show", "5"] := by
    rw [hip]
    decide +kernel
  obtain ⟨s', target, actuals, hstep, hline, -, hparams, -⟩ :=
    call_delivers_arguments hload hreached hcall
  obtain ⟨rfl, rfl⟩ := List.cons.inj (hline.symm.trans htokens)
  obtain ⟨param, actual, v, hfind, -, -, cell, hbound, hshared, -⟩ := hparams "n" (by decide)
  obtain ⟨rfl, rfl⟩ : param = ⟨"n", .refInt⟩ ∧ actual = "5" := by
    simpa [eq_comm] using hfind
  obtain ⟨-, hread⟩ := hshared ⟨0⟩ (State.shared?_eq_some.mpr ⟨rfl, hcell⟩)
  exact ⟨s, s', w, _, cell, hreached, by rw [hcall]; rfl, rfl, htokens, rfl, hstep, hbound,
    hread.trans htext⟩

end LineScript
