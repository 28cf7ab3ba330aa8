/-
Values in circulation.

A line works with values that it finds in variables, in fields, and under the names of
functions; it makes up no object and no function of its own. So if all of these refer
to objects of one kind and to functions of one kind only (`Held`), then so does every
operand, every expression, every argument and the target of every call.
-/
import LineScript.Proofs.Planned

namespace LineScript

/-- What the value refers to, if anything, is of the given kind. -/
structure Value.Fit (object : ObjId → Prop) (function : FuncId → Prop) (v : Value) : Prop where
  object : ∀ {o : ObjId}, v = .object o → object o
  function : ∀ {id : FuncId}, v = .func (some id) → function id

/-- A value that a name is newly bound to is of the given kind. -/
def Binding.Fit (object : ObjId → Prop) (function : FuncId → Prop) : Binding → Prop
  | .fresh v => v.Fit object function
  | .shared _ => True

/-- All that a line can find in the state is of the given kind. -/
structure Held (img : Image) (object : ObjId → Prop) (function : FuncId → Prop) (s : State) :
    Prop where
  named : ∀ {name : String} {id : FuncId}, img.functions.named? name = some id → function id
  aliases : ∀ {name : String} {id : FuncId}, s.aliases.find? name = some id → function id
  cells : ∀ c : CellId, (s.scopes.read c).Fit object function
  fields : ∀ {o : ObjId} {e : String × Value}, object o → e ∈ (s.heap.fields o).entries →
    e.2.Fit object function

variable {img : Image} {cfg : Config} {object object' : ObjId → Prop}
  {function function' : FuncId → Prop} {s : State} {v : Value}

namespace Value.Fit

theorem mono (h : v.Fit object function) (hobject : ∀ o, object o → object' o)
    (hfunction : ∀ id, function id → function' id) : v.Fit object' function' :=
  ⟨fun ho => hobject _ (h.object ho), fun hid => hfunction _ (h.function hid)⟩

theorem int (n : Int64) : (Value.int n).Fit object function :=
  ⟨nofun, nofun⟩

theorem bool (b : Bool) : (Value.bool b).Fit object function :=
  ⟨nofun, nofun⟩

theorem str (text : String) : (Value.str text).Fit object function :=
  ⟨nofun, nofun⟩

theorem void : Value.void.Fit object function := ⟨nofun, nofun⟩

theorem unassigned : (Value.func none).Fit object function :=
  ⟨nofun, nofun⟩

theorem ofObject {o : ObjId} (h : object o) : (Value.object o).Fit object function :=
  ⟨fun ho => Value.object.inj ho ▸ h, nofun⟩

theorem ofFunction {id : FuncId} (h : function id) : (Value.func (some id)).Fit object function :=
  ⟨nofun, fun hid => Option.some.inj (Value.func.inj hid) ▸ h⟩

end Value.Fit

theorem Binding.Fit.mono {b : Binding} (h : b.Fit object function)
    (hobject : ∀ o, object o → object' o) : b.Fit object' function := by
  cases b with
  | fresh v => exact Value.Fit.mono h hobject fun _ => id
  | shared cell => trivial

theorem Table.mem_of_find? {α : Type} {t : Table α} {name : String} {a : α}
    (h : t.find? name = some a) : (name, a) ∈ t.entries := by
  obtain ⟨entries⟩ := t
  induction entries with
  | nil => cases h
  | cons e rest ih =>
    obtain ⟨key, b⟩ := e
    rw [find?, lookup] at h
    split at h
    · next hkey =>
      cases h
      exact hkey ▸ List.mem_cons_self
    · exact List.mem_cons_of_mem _ (ih h)

namespace Held

theorem field? (h : Held img object function s) {o : ObjId} {name : String} (ho : object o)
    (hv : s.heap.field? o name = some v) : v.Fit object function :=
  h.fields ho (Table.mem_of_find? hv)

/-! ### Operands -/

theorem fit_literal {token : String} (hv : Operand.literal? token = some (.ok v)) :
    v.Fit object function := by
  rw [Operand.literal?] at hv
  split at hv
  · cases hv
    exact .str _
  · split at hv
    · obtain ⟨n, -, rfl⟩ := Except.map_eq_ok_iff.mp (Option.some.inj hv)
      exact .int n
    · split at hv
      · cases hv
        exact .bool true
      · split at hv
        · cases hv
          exact .bool false
        · cases hv

theorem get? (h : Held img object function s) {name : String} (hv : s.scopes.get? name = some v) :
    v.Fit object function := by
  obtain ⟨c, -, rfl⟩ := Option.map_eq_some_iff.mp hv
  exact h.cells c

theorem function? (h : Held img object function s) {name : String} {id : FuncId}
    (hid : Operand.function? img s name = some id) : function id := by
  rcases Option.or_eq_some_iff.mp hid with hid | ⟨-, hid⟩
  · exact h.named hid
  · exact h.aliases hid

theorem fit_ofName (h : Held img object function s) {name : String}
    (hv : Operand.ofName img s name = .ok v) : v.Fit object function := by
  rw [Operand.ofName] at hv
  split at hv
  · next hget =>
    cases hv
    exact h.get? hget
  · split at hv
    · next id hid =>
      cases hv
      exact .ofFunction (h.function? hid)
    · cases hv

theorem object_of_asObject {token : String} {o : ObjId} (hv : v.Fit object function)
    (ho : Operand.asObject token v = .ok o) : object o := by
  cases v with
  | object q =>
    cases ho
    exact hv.object rfl
  | int n => cases ho
  | bool b => cases ho
  | str text => cases ho
  | void => cases ho
  | func id => cases ho

/-- A path is followed from the left, and each of its objects is of the kind. -/
theorem fit_resolveWithin (h : Held img object function s) {dots : Nat} {token : String}
    (hv : Operand.resolveWithin img s dots token = .ok v) : v.Fit object function := by
  induction dots generalizing token v with
  | zero =>
    rw [Operand.resolveWithin] at hv
    split at hv
    · next hliteral => exact fit_literal (hliteral.trans (congrArg some hv))
    · exact h.fit_ofName hv
  | succ dots ih =>
    rw [Operand.resolveWithin] at hv
    split at hv
    · next hliteral => exact fit_literal (hliteral.trans (congrArg some hv))
    · split at hv
      · exact h.fit_ofName hv
      · split at hv
        · cases hv
        · next o ho =>
          split at hv
          · next hfield =>
            cases hv
            obtain ⟨owner, howner, ho⟩ := Except.bind_eq_ok_iff.mp ho
            exact h.field? (object_of_asObject (ih howner) ho) hfield
          · cases hv

theorem fit_resolve (h : Held img object function s) {token : String}
    (hv : Operand.resolve img s token = .ok v) : v.Fit object function :=
  h.fit_resolveWithin hv

theorem object_of_resolveObject (h : Held img object function s) {token : String} {o : ObjId}
    (ho : Operand.resolveObject img s token = .ok o) : object o := by
  obtain ⟨v, hv, ho⟩ := Except.bind_eq_ok_iff.mp ho
  exact object_of_asObject (h.fit_resolve hv) ho

/-! ### Expressions -/

theorem fit_onInts {op : BinaryOp} {a b : Int64} (hv : Arithmetic.onInts op a b = .ok v) :
    v.Fit object function := by
  have hint : ∀ {x : Except Cause Int64}, x.map Value.int = .ok v → v.Fit object function := by
    intro x hx
    obtain ⟨n, -, rfl⟩ := Except.map_eq_ok_iff.mp hx
    exact .int n
  rw [Arithmetic.onInts.eq_def] at hv
  split at hv
  · exact hint hv
  · exact hint hv
  · exact hint hv
  · exact hint hv
  · exact hint hv
  · cases hv
    exact .bool _

theorem fit_binary {op : BinaryOp} {left right : Value}
    (hv : Arithmetic.binary op left right = .ok v) : v.Fit object function := by
  unfold Arithmetic.binary at hv
  split at hv
  · cases hv
  · split at hv
    · cases hv
    · split at hv
      · exact fit_onInts hv
      · cases hv
        rw [Arithmetic.onStrings.eq_def]
        split
        · exact .str _
        · exact .bool _
      · cases hv
        exact .bool _
      · cases hv

theorem fit_negate {operand : Value} (hv : Arithmetic.negate operand = .ok v) :
    v.Fit object function := by
  rw [Arithmetic.negate.eq_def] at hv
  split at hv
  · cases hv
    exact .bool _
  · cases hv

theorem fit_push (h : Held img object function s) {token : String} {stack stack' : List Value}
    (hstack : ∀ v ∈ stack, v.Fit object function)
    (hpush : Expression.push img s token stack = .ok stack') :
    ∀ v ∈ stack', v.Fit object function := by
  rw [Expression.push.eq_def] at hpush
  split at hpush
  · split at hpush
    · obtain ⟨v, hv, rfl⟩ := Except.map_eq_ok_iff.mp hpush
      simp only [List.forall_mem_cons] at hstack ⊢
      exact ⟨fit_binary hv, hstack.2.2⟩
    · cases hpush
  · split at hpush
    · split at hpush
      · obtain ⟨v, hv, rfl⟩ := Except.map_eq_ok_iff.mp hpush
        simp only [List.forall_mem_cons] at hstack ⊢
        exact ⟨fit_negate hv, hstack.2⟩
      · cases hpush
    · obtain ⟨v, hv, rfl⟩ := Except.map_eq_ok_iff.mp hpush
      simp only [List.forall_mem_cons]
      exact ⟨h.fit_resolve hv, hstack⟩

theorem fit_stack (h : Held img object function s) {tokens : List String} {stack : List Value}
    (hstack : Expression.stack img s tokens = .ok stack) : ∀ v ∈ stack, v.Fit object function := by
  induction tokens generalizing stack with
  | nil =>
    cases hstack
    exact List.forall_mem_nil _
  | cons token rest ih =>
    obtain ⟨before, hbefore, hpush⟩ := Except.bind_eq_ok_iff.mp hstack
    exact h.fit_push (ih hbefore) hpush

theorem fit_eval (h : Held img object function s) {tokens : List String}
    (hv : Expression.eval img s tokens = .ok v) : v.Fit object function := by
  rw [Expression.eval] at hv
  split at hv
  · cases hv
  · next hstack =>
    cases hv
    exact h.fit_stack hstack v (List.mem_singleton_self v)
  · cases hv

theorem fit_returnValue (h : Held img object function s) {type : DeclaredType}
    {args : List String} (hv : Plan.returnValue img s type args = .ok v) :
    v.Fit object function := by
  have hchecked : ∀ {v' : Value}, (if v'.kind ≠ type.kind then
      .error (.mismatch .result type v'.kind) else pure v' : Except Cause Value) = .ok v →
        v' = v := by
    intro v' hv'
    split at hv' <;> cases hv'
    rfl
  rw [Plan.returnValue.eq_def] at hv
  dsimp only at hv
  split at hv
  · obtain ⟨v', hv', hv⟩ := Except.bind_eq_ok_iff.mp hv
    obtain rfl := hchecked hv
    rw [Operand.functionValue] at hv'
    split at hv'
    · next hresolve =>
      cases hv'
      exact h.fit_resolve hresolve
    · cases hv'
  · obtain ⟨v', hv', hv⟩ := Except.bind_eq_ok_iff.mp hv
    cases hv'
  · obtain ⟨v', hv', hv⟩ := Except.bind_eq_ok_iff.mp hv
    obtain rfl := hchecked hv
    exact h.fit_eval hv'

/-! ### Calls -/

theorem function_of_asFunction {name : String} {id : FuncId} (hv : v.Fit object function)
    (hid : Operand.asFunction name v = .ok id) : function id := by
  rw [Operand.asFunction.eq_def] at hid
  split at hid
  · cases hid
    exact hv.function rfl
  · cases hid
  · cases hid

theorem fit_receiver {owner : String} {o : ObjId} (ho : object o) :
    (Operand.receiver s owner o).Fit object function := by
  rw [Operand.receiver]
  split
  · trivial
  · exact Value.Fit.ofObject ho

/-- The target of a call and the object it is called on. -/
theorem fit_callee (h : Held img object function s) {name : String} {callee : Operand.Callee}
    (hcallee : Operand.callee img s name = .ok callee) :
    function callee.id ∧ ∀ b ∈ callee.receiver, b.Fit object function := by
  have hnone : ∀ b ∈ (none : Option Binding), b.Fit object function := by
    intro b hb
    cases hb
  rw [Operand.callee] at hcallee
  split at hcallee
  · obtain ⟨o, ho, hcallee⟩ := Except.bind_eq_ok_iff.mp hcallee
    have ho := h.object_of_resolveObject ho
    split at hcallee
    · cases hcallee
    · next v hv =>
      obtain ⟨id, hid, hcallee⟩ := Except.bind_eq_ok_iff.mp hcallee
      cases hcallee
      refine ⟨function_of_asFunction (h.field? ho hv) hid, fun b hb => ?_⟩
      cases hb
      exact fit_receiver ho
  · split at hcallee
    · next v hv =>
      obtain ⟨id, hid, hcallee⟩ := Except.bind_eq_ok_iff.mp hcallee
      cases hcallee
      exact ⟨function_of_asFunction (h.get? hv) hid, hnone⟩
    · split at hcallee
      · next id hid =>
        cases hcallee
        exact ⟨h.function? hid, hnone⟩
      · cases hcallee

theorem fit_argument (h : Held img object function s) {callee actual : String} {param : Param}
    {b : Binding} (hb : Plan.argument img s callee param actual = .ok b) :
    b.Fit object function := by
  obtain ⟨v, hv, hb⟩ := Except.bind_eq_ok_iff.mp hb
  have hv := h.fit_resolve hv
  split at hb
  · cases hb
  · split at hb
    · split at hb
      · cases hb
        trivial
      · cases hb
        exact hv
    · cases hb
      exact hv

theorem fit_arguments (h : Held img object function s) {callee : String} {params : List Param}
    {actuals : List String} {bindings : List (String × Binding)}
    (hb : Plan.arguments img s callee params actuals = .ok bindings) :
    ∀ b ∈ bindings, b.2.Fit object function := by
  induction params generalizing actuals bindings with
  | nil =>
    rw [Plan.arguments] at hb
    · cases hb
      exact List.forall_mem_nil _
    · nofun
  | cons param params ih =>
    cases actuals with
    | nil =>
      cases hb
      exact List.forall_mem_nil _
    | cons actual actuals =>
      obtain ⟨b, hone, hb⟩ := Except.bind_eq_ok_iff.mp hb
      obtain ⟨rest, hrest, hb⟩ := Except.bind_eq_ok_iff.mp hb
      cases hb
      exact List.forall_mem_cons.mpr ⟨h.fit_argument hone, ih hrest⟩

end Held

end LineScript
