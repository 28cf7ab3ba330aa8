/-
Paths.

A path such as `a.b.c` is divided at its last dot, and what stands before that dot is resolved
first, as a token of its own. So a path is followed from the left: `follow` reads one field after
the other, and stops at the first value that is no object or that lacks the field.

* `resolve_eq` is the equation of the recursion on the last dot;
* `resolve_dotted`: a token with dots is resolved by following its parts;
* `step_assign_dotted`: an assignment to a path writes the last field of the object at which the
  parts before it arrive;
* `exists_callee_iff`: a call is to the function that its target denotes as an operand.

`paths_followed_from_left` puts them together.
-/
import LineScript.Proofs.Headers
import LineScript.Proofs.LambdaCalls
import Mathlib.Data.List.Induction

namespace LineScript

variable {img : Image} {cfg : Config} {s : State}

namespace Operand

/-! ### The last dot -/

theorem splitLastDot_eq_none_iff {cs : List Char} : splitLastDot cs = none ↔ '.' ∉ cs := by
  induction cs with
  | nil => simp [splitLastDot]
  | cons c cs ih =>
    rw [splitLastDot]
    cases hsplit : splitLastDot cs with
    | none =>
      have hrest := ih.mp hsplit
      by_cases hc : c = '.'
      · simp [hc]
      · simp [hc, hrest, Ne.symm hc]
    | some parts =>
      have hrest : '.' ∈ cs := by
        by_contra hnot
        rw [ih.mpr hnot] at hsplit
        cases hsplit
      simp [hrest]

theorem splitLastDot_append {a b : List Char} (h : '.' ∉ b) :
    splitLastDot (a ++ '.' :: b) = some (a, b) := by
  induction a with
  | nil => simp [splitLastDot, splitLastDot_eq_none_iff.mpr h]
  | cons c a ih => rw [List.cons_append, splitLastDot, ih]

theorem exists_of_splitLastDot {cs a b : List Char} (h : splitLastDot cs = some (a, b)) :
    cs = a ++ '.' :: b ∧ '.' ∉ b := by
  induction cs generalizing a with
  | nil => cases h
  | cons c cs ih =>
    rw [splitLastDot] at h
    cases hsplit : splitLastDot cs with
    | none =>
      rw [hsplit] at h
      by_cases hc : c = '.'
      · simp only [hc, if_true, Option.some.injEq, Prod.mk.injEq] at h
        obtain ⟨rfl, rfl⟩ := h
        exact ⟨by rw [hc]; rfl, splitLastDot_eq_none_iff.mp hsplit⟩
      · simp [hc] at h
    | some parts =>
      rw [hsplit] at h
      obtain ⟨a', b'⟩ := parts
      simp only [Option.some.injEq, Prod.mk.injEq] at h
      obtain ⟨rfl, rfl⟩ := h
      obtain ⟨rfl, hb⟩ := ih hsplit
      exact ⟨rfl, hb⟩

theorem path?_dotted (owner : String) {field : String} (h : '.' ∉ field.toList) :
    path? (owner ++ "." ++ field) = some (owner, field) := by
  have htext : (owner ++ "." ++ field).toList = owner.toList ++ '.' :: field.toList := by
    simp [String.toList_append]
  rw [path?, htext, splitLastDot_append h]
  simp

theorem exists_of_path? {token owner field : String} (h : path? token = some (owner, field)) :
    token = owner ++ "." ++ field ∧ '.' ∉ field.toList := by
  obtain ⟨⟨a, b⟩, hsplit, hparts⟩ := Option.map_eq_some_iff.mp h
  simp only [Prod.mk.injEq] at hparts
  obtain ⟨rfl, rfl⟩ := hparts
  obtain ⟨htext, hb⟩ := exists_of_splitLastDot hsplit
  refine ⟨?_, by simpa using hb⟩
  rw [← String.toList_inj, htext]
  simp [String.toList_append]

theorem dots_of_path? {token owner field : String} (h : path? token = some (owner, field)) :
    dots token = dots owner + 1 := by
  obtain ⟨rfl, hfield⟩ := exists_of_path? h
  have hnone : field.toList.count '.' = 0 := List.count_eq_zero.mpr hfield
  simp [dots, String.toList_append, List.count_append, hnone]

/-! ### Resolving at the last dot -/

/-- Reads a field of the value at which the path `owner` has arrived. It is a type error if the
value is no object, and a name error if the object lacks the field. -/
def readField (s : State) (owner field : String) : Value → Except Cause Value
  | .object o =>
    match s.heap.field? o field with
    | some v => .ok v
    | none => .error (.noField owner field)
  | v => .error (.mismatch (.fieldAccess owner) .object v.kind)

theorem readField_eq (s : State) (owner field : String) (v : Value) :
    readField s owner field v =
      match asObject owner v with
      | .error cause => .error cause
      | .ok o =>
        match s.heap.field? o field with
        | some v => .ok v
        | none => .error (.noField owner field) := by
  cases v <;> rfl

theorem kind_of_readField_error {owner field : String} {v : Value} {cause : Cause}
    (h : readField s owner field v = .error cause) :
    cause.diagnostic.kind = if v.kind = .object then .naming else .typing := by
  cases v with
  | object o =>
    rw [readField] at h
    split at h
    · cases h
    · cases h
      rfl
  | int n => cases h; rfl
  | bool b => cases h; rfl
  | str text => cases h; rfl
  | void => cases h; rfl
  | func id => cases h; rfl

/-- A token is a literal, or a path that is divided at its last dot, or a name. -/
theorem resolve_eq (img : Image) (s : State) (token : String) :
    resolve img s token =
      match literal? token with
      | some value => value
      | none =>
        match path? token with
        | none => ofName img s token
        | some (owner, field) => (resolve img s owner).bind (readField s owner field) := by
  rw [resolve]
  cases hliteral : literal? token with
  | some value => cases dots token <;> simp [resolveWithin, hliteral]
  | none =>
    cases hpath : path? token with
    | none => cases dots token <;> simp [resolveWithin, hliteral, hpath]
    | some parts =>
      obtain ⟨owner, field⟩ := parts
      rw [dots_of_path? hpath]
      simp only [resolveWithin, hliteral, hpath]
      show _ = (resolveWithin img s (dots owner) owner).bind (readField s owner field)
      cases resolveWithin img s (dots owner) owner with
      | error cause => rfl
      | ok v => exact (readField_eq s owner field v).symm

theorem resolve_path {token owner field : String} (hliteral : literal? token = none)
    (hpath : path? token = some (owner, field)) :
    resolve img s token = (resolve img s owner).bind (readField s owner field) := by
  rw [resolve_eq, hliteral, hpath]

/-! ### Literals -/

/-- The token does not begin like a string or like a negative number. -/
def StartsPlain (token : String) : Prop :=
  token.toList.head? ≠ some '"' ∧ token.toList.head? ≠ some '-'

instance (token : String) : Decidable (StartsPlain token) := inferInstanceAs (Decidable (_ ∧ _))

theorem literal?_eq_none {token : String} (hstart : StartsPlain token)
    (hdigits : token.toList = [] ∨ ∃ c ∈ token.toList, c.isDigit = false) (htrue : token ≠ "true")
    (hfalse : token ≠ "false") : literal? token = none := by
  obtain ⟨hquote, hminus⟩ := hstart
  have hinteger : isIntegerLike token.toList = false := by
    rw [isIntegerLike.eq_def]
    split
    · next cs htext => simp [htext] at hminus
    · rcases hdigits with hnil | ⟨c, hc, hdigit⟩
      · simp [hnil]
      · rw [Bool.and_eq_false_iff]
        right
        rw [List.all_eq_false]
        exact ⟨c, hc, by simp [hdigit]⟩
  rw [literal?]
  split
  · next body htext => simp [htext] at hquote
  · simp [hinteger, htrue, hfalse]

theorem literal?_of_dot {token : String} (hstart : StartsPlain token) (hdot : '.' ∈ token.toList) :
    literal? token = none := by
  refine literal?_eq_none hstart (.inr ⟨'.', hdot, rfl⟩) ?_ ?_
  · rintro rfl
    revert hdot
    decide
  · rintro rfl
    revert hdot
    decide

/-! ### Following a path -/

/-- The parts of a path, joined by dots. -/
def dotted (first : String) (fields : List String) : String := ".".intercalate (first :: fields)

/-- One step along a path: the path so far and what it has come to, and then one field more. -/
def walk (s : State) (reached : String × Except Cause Value) (field : String) :
    String × Except Cause Value :=
  (reached.1 ++ "." ++ field, reached.2.bind (readField s reached.1 field))

/-- Follows a path from its first part, field after field. The first error is kept. -/
def follow (img : Image) (s : State) (first : String) (fields : List String) :
    Except Cause Value :=
  (fields.foldl (walk s) (first, resolve img s first)).2

variable {first field : String} {fields : List String}

theorem dotted_nil (first : String) : dotted first [] = first := String.intercalate_singleton

theorem dotted_concat (first : String) (fields : List String) (field : String) :
    dotted first (fields ++ [field]) = dotted first fields ++ "." ++ field := by
  rw [dotted, ← List.cons_append, String.intercalate_append_of_ne_nil (by simp) (by simp),
    String.intercalate_singleton, dotted]

theorem fst_foldl_walk (s : State) (first : String) (v : Except Cause Value)
    (fields : List String) : (fields.foldl (walk s) (first, v)).1 = dotted first fields := by
  induction fields using List.reverseRecOn with
  | nil => exact (dotted_nil first).symm
  | append_singleton fields field ih =>
    rw [List.foldl_append, dotted_concat, ← ih]
    rfl

theorem follow_concat (img : Image) (s : State) (first : String) (fields : List String)
    (field : String) :
    follow img s first (fields ++ [field]) =
      (follow img s first fields).bind (readField s (dotted first fields) field) := by
  rw [follow, List.foldl_append, List.foldl_cons, List.foldl_nil, walk, fst_foldl_walk, follow]

/-- The beginning of a path begins as the path does, unless it is empty. -/
theorem startsPlain_of_dotted (h : StartsPlain (dotted first (fields ++ [field]))) :
    StartsPlain (dotted first fields) := by
  rw [dotted_concat] at h
  cases htext : (dotted first fields).toList with
  | nil => simp [StartsPlain, htext]
  | cons c cs =>
    simp only [StartsPlain, String.toList_append, htext] at h ⊢
    exact h

theorem literal?_dotted (h : StartsPlain (dotted first (fields ++ [field]))) :
    literal? (dotted first (fields ++ [field])) = none := by
  refine literal?_of_dot h ?_
  rw [dotted_concat]
  simp [String.toList_append]

/-- A token with dots is resolved by following its parts from the left. -/
theorem resolve_dotted (hparts : ∀ part ∈ fields, '.' ∉ part.toList)
    (hstart : StartsPlain (dotted first fields)) :
    resolve img s (dotted first fields) = follow img s first fields := by
  -- The fields come off one by one from the end, as the recursion takes them off at the last dot.
  induction fields using List.reverseRecOn with
  | nil =>
    rw [dotted_nil]
    rfl
  | append_singleton fields field ih =>
    have hfields : ∀ part ∈ fields, '.' ∉ part.toList := fun part hpart =>
      hparts part (List.mem_append_left _ hpart)
    have hfield : '.' ∉ field.toList := hparts field (by simp)
    have hpath : path? (dotted first (fields ++ [field])) = some (dotted first fields, field) := by
      rw [dotted_concat]
      exact path?_dotted _ hfield
    rw [resolve_path (literal?_dotted hstart) hpath, ih hfields (startsPlain_of_dotted hstart),
      follow_concat]

/-! ### Callees -/

theorem asFunction_eq_ok_iff (name : String) {v : Value} {id : FuncId} :
    asFunction name v = .ok id ↔ v = .func (some id) := by
  rw [asFunction.eq_def]
  split <;> simp_all

/-- A callee that is made from a value has the function that the value is. -/
theorem exists_callee_of_value (name : String) (v : Value) {id : FuncId} (make : FuncId → Callee)
    (hmake : ∀ id, (make id).id = id) :
    (∃ c, (asFunction name v).map make = .ok c ∧ c.id = id) ↔ v = .func (some id) := by
  rw [← asFunction_eq_ok_iff name]
  cases asFunction name v with
  | error cause => simp [Except.map]
  | ok id' => simp [Except.map, hmake]

/-- A target that is no literal can be called just if it denotes a function as an operand, and then
the call is to this function. -/
theorem exists_callee_iff {name : String} (hliteral : literal? name = none) {id : FuncId} :
    (∃ c, callee img s name = .ok c ∧ c.id = id) ↔
      resolve img s name = .ok (.func (some id)) := by
  rw [resolve_eq, hliteral, callee]
  cases hpath : path? name with
  | some parts =>
    obtain ⟨owner, field⟩ := parts
    simp only [resolveObject]
    cases resolve img s owner with
    | error cause => simp [Except.bind, bind]
    | ok v =>
      simp only [Except.bind, bind, readField_eq]
      cases asObject owner v with
      | error cause => simp
      | ok o =>
        simp only
        cases s.heap.field? o field with
        | none => simp
        | some w =>
          refine Iff.trans (exists_callee_of_value name w
            (fun id => ⟨id, some (receiver s owner o)⟩) fun _ => rfl) ?_
          simp
  | none =>
    -- Both look for a variable first and then for a function.
    simp only [ofName]
    cases s.scopes.get? name with
    | some v =>
      refine Iff.trans (exists_callee_of_value name v (fun id => ⟨id, none⟩) fun _ => rfl) ?_
      simp
    | none =>
      cases function? img s name with
      | some id' => simp
      | none => simp

end Operand

/-! ### Assignments -/

open Operand

/-- The outcome of an assignment to a field of what the path `owner` has come to. -/
def fieldAssigned (img : Image) (s : State) (owner : String) (reached : Except Cause Value)
    (field : String) (tokens : List String) : Outcome :=
  match reached with
  | .error cause => { state := s, error := some cause }
  | .ok (.object o) =>
    match Expression.eval img s tokens with
    | .error cause => { state := s, error := some cause }
    | .ok v => { state := (s.storeField o field v).advance }
  | .ok v => { state := s, error := some (.mismatch (.fieldAccess owner) .object v.kind) }

variable {first field token : String} {fields tokens : List String}

/-- An assignment to a path writes the last field of the object at which the other parts arrive. -/
theorem step_assign_dotted
    (hline : (img.program.line s.ip).tokens =
      Keyword.assign.text :: dotted first (fields ++ [field]) :: token :: tokens)
    (hparts : ∀ part ∈ fields ++ [field], '.' ∉ part.toList)
    (hstart : StartsPlain (dotted first (fields ++ [field]))) :
    step img cfg s = .done (fieldAssigned img s (dotted first fields) (follow img s first fields)
      field (token :: tokens)) := by
  have hpath : path? (dotted first (fields ++ [field])) = some (dotted first fields, field) := by
    rw [dotted_concat]
    exact path?_dotted _ (hparts field (by simp))
  have howner : resolve img s (dotted first fields) = follow img s first fields :=
    resolve_dotted (fun part hpart => hparts part (List.mem_append_left _ hpart))
      (startsPlain_of_dotted hstart)
  have hplan : Plan.statement img cfg s .assign
      (dotted first (fields ++ [field]) :: token :: tokens) =
      (resolveObject img s (dotted first fields)).bind fun o =>
        (Expression.eval img s (token :: tokens)).map fun v => .effect (.storeField o field v) := by
    simp only [Plan.statement, Plan.assignment, hpath]
    rfl
  rw [step_of_keyword (Program.keyword?_of_tokens hline), hline, List.tail_cons, perform, hplan,
    resolveObject, howner]
  -- The path is followed before the expression is evaluated, so its errors come first.
  cases follow img s first fields with
  | error cause => rfl
  | ok v =>
    cases v with
    | object o =>
      simp only [fieldAssigned]
      cases Expression.eval img s (token :: tokens) with
      | error cause => rfl
      | ok v => rfl
    | int n => rfl
    | bool b => rfl
    | str text => rfl
    | void => rfl
    | func id => rfl

/-- The write changes this field of this object and nothing else. -/
theorem field?_storeField (s : State) (o : ObjId) (field : String) (v : Value) (q : ObjId)
    (name : String) :
    (s.storeField o field v).heap.field? q name =
      if q = o ∧ name = field ∧ o.index < s.heap.size then some v else s.heap.field? q name := by
  show ((s.heap.setField o field v).fields q).find? name = _
  rw [Heap.fields_setField]
  by_cases hq : q = o ∧ o.index < s.heap.size
  · rw [if_pos hq, Table.find?_insert]
    obtain ⟨rfl, hlt⟩ := hq
    simp [hlt, Heap.field?]
  · rw [if_neg hq, if_neg fun h => hq ⟨h.1, h.2.2⟩, Heap.field?]

/-! ### Objects -/

/-- Following a path comes only to values that can be found in the state. -/
theorem fit_follow {object : ObjId → Prop} {function : FuncId → Prop}
    (h : Held img object function s) {v : Value} (hv : follow img s first fields = .ok v) :
    v.Fit object function := by
  induction fields using List.reverseRecOn generalizing v with
  | nil => exact h.fit_resolve hv
  | append_singleton fields field ih =>
    rw [follow_concat] at hv
    obtain ⟨owner, howner, hread⟩ := Except.bind_eq_ok_iff.mp hv
    rw [readField_eq] at hread
    split at hread
    · cases hread
    · next o ho =>
      split at hread
      · next hfield =>
        cases hread
        exact h.field? (Held.object_of_asObject (ih howner) ho) hfield
      · cases hread

/-- In a run a path comes only to objects that there are. -/
theorem lt_size_of_follow {σ : Type} {m : Machine} {con : Console σ} {w₀ w : σ} {o : ObjId}
    (hload : m.image.Loaded) (h : m.Reached con w₀ s w)
    (ho : follow m.image s first fields = .ok (.object o)) : o.index < s.heap.size := by
  obtain ⟨kept, h₀, hs⟩ := h.guarded hload
  exact ((fit_follow hs.isSealed.held ho).object rfl).1

/-! ### The three uses of a path -/

/-- A path means the same as an operand, as the target of an assignment and as the target of a
call. As an operand it is followed from its first part, field after field, and the first error is
the error: a type error if a value on the way is no object, a name error if an object lacks the
field. An assignment writes the last field of the object at which the parts before it arrive, which
exists in every state of a run, and it changes no other field of any object. And a name or a path
that is no literal can be called just if it denotes a function, and the call is to this function. -/
theorem paths_followed_from_left (img : Image) (cfg : Config) (s : State) :
    (∀ first fields, (∀ part ∈ fields, '.' ∉ part.toList) → StartsPlain (dotted first fields) →
      resolve img s (dotted first fields) = follow img s first fields) ∧
    (∀ owner field v cause, readField s owner field v = .error cause →
      cause.diagnostic.kind = if v.kind = .object then .naming else .typing) ∧
    (∀ first fields field token tokens,
      (img.program.line s.ip).tokens =
        Keyword.assign.text :: dotted first (fields ++ [field]) :: token :: tokens →
      (∀ part ∈ fields ++ [field], '.' ∉ part.toList) →
      StartsPlain (dotted first (fields ++ [field])) →
      step img cfg s = .done (fieldAssigned img s (dotted first fields)
        (follow img s first fields) field (token :: tokens))) ∧
    (∀ o field v q name, (s.storeField o field v).heap.field? q name =
      if q = o ∧ name = field ∧ o.index < s.heap.size then some v else s.heap.field? q name) ∧
    (∀ (σ : Type) (p : Program) (m : Machine) (con : Console σ) (w₀ w : σ),
      Machine.load p cfg = .ok m → m.Reached con w₀ s w →
      ∀ first fields o, follow m.image s first fields = .ok (.object o) →
        o.index < s.heap.size) ∧
    ∀ name id, StartsPlain name → ¬ (name ≠ "" ∧ ∀ c ∈ name.toList, c.isDigit = true) →
      name ≠ "true" → name ≠ "false" →
      ((∃ c, callee img s name = .ok c ∧ c.id = id) ↔
        resolve img s name = .ok (.func (some id))) := by
  refine ⟨fun _ _ => resolve_dotted, fun _ _ _ _ => kind_of_readField_error,
    fun _ _ _ _ _ => step_assign_dotted, field?_storeField s, ?_, ?_⟩
  · intro σ p m con w₀ w hload hreached first fields o
    obtain ⟨-, hloaded, -⟩ := Machine.load_eq_ok hload
    exact lt_size_of_follow hloaded hreached
  · intro name id hstart hdigits htrue hfalse
    refine exists_callee_iff (literal?_eq_none hstart ?_ htrue hfalse)
    by_cases hname : name = ""
    · exact .inl (by rw [hname]; rfl)
    · right
      by_contra hnone
      push Not at hnone
      exact hdigits ⟨hname, fun c hc => by simpa using hnone c hc⟩

/-- A function that makes an object in a field of another, and writes and calls fields of it. -/
def chainedProgram : Program := .ofLines [
  "func main void",
  "  var object a b",
  "  assign b.act leaf",
  "  assign a.in b",
  "  assign a.in.n 7",
  "  funccall a.in.act",
  "endfunc",
  "func leaf void",
  "endfunc"]

/-- The field of the inner object is written through both objects, which it lacks before, and its
method is found through both. -/
theorem paths_followed_from_left_chainedProgram :
    ∃ s w s' o, Machine.Reached { image := .ofProgram chainedProgram } Buffer.console {} s w ∧
      follow (.ofProgram chainedProgram) s "a" ["in"] = .ok (.object o) ∧
      resolve (.ofProgram chainedProgram) s "a.in.n" = .error (.noField "a.in" "n") ∧
      (Cause.noField "a.in" "n").diagnostic.kind = .naming ∧
      step (.ofProgram chainedProgram) {} s = .done { state := s' } ∧
      s'.heap.field? o "n" = some (.int 7) ∧ s'.heap.field? o "act" = some (.func (some ⟨1⟩)) ∧
      ∃ c, callee (.ofProgram chainedProgram) s "a.in.act" = .ok c ∧ c.id = ⟨1⟩ := by
  have hload := Machine.load_eq_ofProgram (p := chainedProgram) (by decide +kernel) {}
  have hstate : (stateAfter (.ofProgram chainedProgram) {} Buffer.console 3 (.start 1) {}).map
      (fun x => (x.1.ip, [x.1.heap.field? ⟨1⟩ "n", x.1.heap.field? ⟨1⟩ "act"],
        [follow (.ofProgram chainedProgram) x.1 "a" ["in"],
          follow (.ofProgram chainedProgram) x.1 "a" ["in", "n"],
          Expression.eval (.ofProgram chainedProgram) x.1 ["7"],
          resolve (.ofProgram chainedProgram) x.1 "a.in.act"])) =
      some (4, [none, some (.func (some ⟨1⟩))],
        [.ok (.object ⟨1⟩), .error (.noField "a.in" "n"), .ok (.int 7),
          .ok (.func (some ⟨1⟩))]) := by
    decide +kernel
  obtain ⟨⟨s, w⟩, hstate, hx⟩ := Option.map_eq_some_iff.mp hstate
  simp only [Prod.mk.injEq, List.cons.injEq, and_true] at hx
  obtain ⟨hip, ⟨hbefore, hact⟩, howner, hfollow, heval, hmethod⟩ := hx
  have hreached := Machine.reached_of_stateAfter (m := { image := .ofProgram chainedProgram })
    (by decide +kernel) hstate
  obtain ⟨hresolve, hkind, hassign, hfields, hexists, hcallee⟩ :=
    paths_followed_from_left (.ofProgram chainedProgram) {} s
  have hread : resolve (.ofProgram chainedProgram) s "a.in.n" = .error (.noField "a.in" "n") :=
    (hresolve "a" ["in", "n"] (by decide) (by decide)).trans hfollow
  have hcause : (Cause.noField "a.in" "n").diagnostic.kind = .naming :=
    hkind "a.in" "n" (.object ⟨1⟩) _ (by rw [readField, hbefore])
  have hlt : (⟨1⟩ : ObjId).index < s.heap.size := hexists _ _ _ _ _ _ hload hreached _ _ _ howner
  have hline : (chainedProgram.line s.ip).tokens = ["assign", "a.in.n", "7"] := by
    rw [hip]
    decide +kernel
  have hstep := hassign "a" ["in"] "n" "7" [] hline (by decide) (by decide)
  rw [howner, fieldAssigned, heval] at hstep
  refine ⟨s, w, _, ⟨1⟩, hreached, howner, hread, hcause, hstep, ?_, ?_, ?_⟩
  · exact (hfields ⟨1⟩ "n" (.int 7) ⟨1⟩ "n").trans (if_pos ⟨rfl, rfl, hlt⟩)
  · exact (hfields ⟨1⟩ "n" (.int 7) ⟨1⟩ "act").trans ((if_neg (by simp)).trans hact)
  · refine (hcallee "a.in.act" ⟨1⟩ (by decide) ?_ (by decide) (by decide)).mpr hmethod
    rintro ⟨-, hdigits⟩
    exact absurd (hdigits '.' (by decide)) (by decide)

end LineScript
