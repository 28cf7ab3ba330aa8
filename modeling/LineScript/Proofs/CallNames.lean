/-
Under which names functions can be called.

A header gives a function any name that is new. A call looks at the name first for a built-in
function, then for a path, then for a variable, and only then into the table, where names of the
form that lambdas have are passed over. So some names are out of reach (`IsCallName`), and the rule
is exact: while no variable has its name, a function is what its name calls if and only if the name
is none of these. For the dots and for the built-in names this is how a call is resolved
(`Operand.callee_of_lookup?`); for the names of lambdas it takes all states of a run, because a
field of such a name might refer to the function, if only the program could get hold of it
(`Machine.Reached.obtainable`).

Main statement: `called_by_name`.
-/
import LineScript.Proofs.Headers
import LineScript.Proofs.Paths

namespace LineScript

/-- A function of this name can be called by it: the name is not built in, it is no path, and it
does not begin as the names of lambdas do. -/
structure IsCallName (name : String) : Prop where
  not_builtin : Builtin.ofText? name = none
  no_dot : '.' ∉ name.toList
  not_lambda : isLambdaName name = false

/-- A call of the name is one of a function with the signature: the name is not built in, and in the
state it stands for such a function, which is called on no object. -/
def Image.Targets (img : Image) (s : State) (name : String) (sig : Signature) : Prop :=
  Builtin.ofText? name = none ∧
    ∃ id, Operand.callee img s name = .ok ⟨id, none⟩ ∧ img.functions.signature? id = some sig

section
variable {img : Image} {cfg : Config} {s : State} {name : String} {id : FuncId} {sig : Signature}

/-! ### Resolution of a name -/

theorem FunctionTable.named?_of_lookup? {t : FunctionTable} (h : t.lookup? name = some id) :
    t.named? name = if isLambdaName name then none else some id := by
  rw [named?, h]

theorem Operand.path?_eq_none_iff {token : String} : path? token = none ↔ '.' ∉ token.toList := by
  rw [path?, Option.map_eq_none_iff, splitLastDot_eq_none_iff]

/-- A name of the table that is no path and no variable stands for its function. -/
theorem Operand.callee_of_lookup? (hname : IsCallName name)
    (hfree : s.scopes.cell? name = none) (hlookup : img.functions.lookup? name = some id) :
    Operand.callee img s name = .ok ⟨id, none⟩ := by
  have hpath := path?_eq_none_iff.mpr hname.no_dot
  have hget : s.scopes.get? name = none := by rw [ScopeStack.get?, hfree]; rfl
  have hfunction : function? img s name = some id := by
    rw [function?, FunctionTable.named?_of_lookup? hlookup, hname.not_lambda]
    rfl
  simp only [callee, hpath, hget, hfunction]

/-- A call with its target known and its arguments in order enters the body. -/
theorem Plan.call_of_callee {actuals : List String} {bindings : List (String × Binding)}
    (hcallee : Operand.callee img s name = .ok ⟨id, none⟩)
    (found : img.functions.signature? id = some sig) (arity : sig.params.length = actuals.length)
    (passed : arguments img s name sig.params actuals = .ok bindings)
    (room : s.depth < cfg.maxCallDepth) :
    call img cfg s name actuals = .ok (.effect (.enter sig bindings)) := by
  rw [call, hcallee]
  simp only [bind, Except.bind, found, arity, ne_eq, not_true_eq_false, if_false, passed,
    Nat.not_le_of_lt room]
  rfl

/-! ### Functions that a program can get hold of -/

/-- If the function has a name like those of lambdas then it is a lambda. -/
def Image.Obtainable (img : Image) (id : FuncId) : Prop :=
  ∀ sig, img.functions.signature? id = some sig → isLambdaName sig.name = true →
    img.program.keyword? sig.definition = some .lambda

theorem Image.obtainable_of_named? (h : img.functions.named? name = some id) :
    img.Obtainable id := by
  intro sig found hlambda
  rw [FunctionTable.named?] at h
  split at h
  · cases h
  · next hname =>
    obtain ⟨sig', found', rfl⟩ := FunctionTable.signature?_of_lookup? h
    cases found.symm.trans found'
    exact absurd hlambda hname

theorem Image.Loaded.obtainable_of_lambda (hload : img.Loaded) {line : Nat}
    (hk : img.program.keyword? line = some .lambda)
    (hmade : img.functions.lookup? (lambdaName line) = some id) : img.Obtainable id := by
  intro sig found _
  obtain ⟨id', sig', hmade', found', hheader⟩ := hload.lookup?_lambdaName hk
  cases hmade.symm.trans hmade'
  cases found.symm.trans found'
  rw [(Program.header?_eq_some hheader).1]
  exact hk

/-- In all states of a run only such functions are referred to. -/
theorem Machine.Reached.obtainable {σ : Type} {m : Machine} {con : Console σ} {w₀ w : σ}
    (hload : m.image.Loaded) (h : m.Reached con w₀ s w) :
    Circulating m.image m.image.Obtainable s :=
  h.invariant (fun line => .start Image.obtainable_of_named? line) fun hs hstep =>
    hs.step (fun _ => hload.obtainable_of_lambda) hstep

/-! ### Calls by name -/

/-- What a name targets in a run has a name that it can be called by. -/
theorem isCallName_of_targets {σ : Type} {m : Machine} {con : Console σ} {w₀ w : σ}
    (hload : m.image.Loaded) (h : m.Reached con w₀ s w)
    (hfunc : m.image.program.keyword? sig.definition = some .func)
    (htargets : m.image.Targets s sig.name sig) : IsCallName sig.name := by
  obtain ⟨hbuiltin, id, hcallee, found⟩ := htargets
  refine ⟨hbuiltin, ?_, ?_⟩
  · have hpath : Operand.path? sig.name = none := by
      simpa using (Operand.isSome_receiver hcallee).symm
    exact Operand.path?_eq_none_iff.mp hpath
  · by_contra hlambda
    have hk := (h.obtainable hload).function_callee hcallee sig found (by simpa using hlambda)
    cases hfunc.symm.trans hk

end

theorem Program.name_of_declares {p : Program} {n : Nat} {sig : Signature} {name : String}
    {words : List String} (hline : (p.line n).tokens = Keyword.func.text :: name :: words)
    (h : p.Declares n sig) : sig.name = name ∧ sig.definition = n := by
  cases h with
  | func line written =>
    rw [hline] at line
    exact ⟨(List.cons.inj (List.cons.inj line).2).1.symm, rfl⟩
  | lambda line written =>
    rw [hline] at line
    exact absurd (List.cons.inj line).1 (by decide)

/-- In a program that is accepted every header of a function declares a signature, whatever the
name. In every state of a run in which no variable has the name, a call of the name is one of this
signature if and only if the name is one that functions can be called by, and then a call whose
arguments are in order goes on at the first line of the body. A run that is to begin with the
function begins there, unless the name begins as those of lambdas do: then there is no such entry. -/
theorem called_by_name {p : Program} {cfg : Config} {m : Machine} {n : Nat} {name : String}
    {words : List String} (hload : Machine.load p cfg = .ok m)
    (hline : (p.line n).tokens = Keyword.func.text :: name :: words) :
    ∃ sig : Signature, p.Declares n sig ∧ sig.name = name ∧
      (∀ (σ : Type) (con : Console σ) (w₀ w : σ) (s : State), m.Reached con w₀ s w →
        s.scopes.cell? name = none →
          (m.image.Targets s name sig ↔ IsCallName name) ∧
          ∀ actuals bindings, IsCallName name →
            (p.line s.ip).tokens = Keyword.call.text :: name :: actuals →
            sig.params.length = actuals.length →
            Plan.arguments m.image s name sig.params actuals = .ok bindings →
            s.depth < cfg.maxCallDepth →
            ∃ s', (step m.image cfg s).run con w = (⟨s', none⟩, w) ∧ s'.ip = n + 1 ∧
              s' = s.enter m.image.functions sig bindings) ∧
      ∀ (σ : Type) (con : Console σ) (fuel : Nat) (w : σ),
        Machine.run { m with config := { cfg with entry := name } } con fuel w =
          if isLambdaName name then ⟨.failed ⟨.missingEntry name, none⟩, m.state, w⟩
          else Machine.drive m.image { cfg with entry := name } con fuel (.start (n + 1)) w := by
  obtain ⟨rfl, hloaded, rfl⟩ := Machine.load_eq_ok hload
  have hk := Program.keyword?_of_tokens hline
  obtain ⟨sig, hheader⟩ := hloaded.exists_header (.inl hk)
  have hdeclares := Program.header?_eq_some_iff.mp hheader
  obtain ⟨rfl, hn⟩ := Program.name_of_declares hline hdeclares
  obtain ⟨id, found, hlookup⟩ :=
    hloaded.signature_of_header (Program.lt_size_of_keyword? hk) hheader
  refine ⟨sig, hdeclares, rfl, ?_, ?_⟩
  · intro σ con w₀ w s h hfree
    refine ⟨⟨isCallName_of_targets hloaded h (hn.symm ▸ hk), fun hname =>
      ⟨hname.not_builtin, id, Operand.callee_of_lookup? hname hfree hlookup, found⟩⟩, ?_⟩
    intro actuals bindings hname htokens arity passed room
    have hplan : Plan.next m.image m.config s = .ok (.effect (.enter sig bindings)) := by
      rw [next_of_keyword (Program.keyword?_of_tokens htokens), htokens]
      simp only [Plan.statement, List.tail_cons, Plan.invocation, hname.not_builtin]
      exact Plan.call_of_callee (Operand.callee_of_lookup? hname hfree hlookup) found arity passed
        room
    refine ⟨_, ?_, ?_, rfl⟩
    · rw [step, hplan]
      rfl
    · rw [(s.settled_enter m.image.functions sig bindings).2, Signature.start, hn]
  · intro σ con fuel w
    rw [Machine.run, Machine.entry]
    simp only [FunctionTable.named?_of_lookup? hlookup]
    cases isLambdaName sig.name with
    | true => rfl
    | false => simp [found, Signature.start, hn]

/-- Three functions, the first of which has the name of a built-in one and the last of which has a
name like those of lambdas. -/
def shadowedProgram : Program := .ofLines [
  "func main void",
  "  funccall print \"hi\"",
  "  funccall greet",
  "endfunc",
  "func print text:string void",
  "endfunc",
  "func greet void",
  "endfunc",
  "func lambda@8 void",
  "endfunc"]

/-- The program is accepted. Its first call prints, although there is a function of this name; its
second call goes on at the first line of the function that it names; and a run cannot begin with
the third function. -/
theorem called_by_name_shadowedProgram :
    Machine.load shadowedProgram {} = .ok { image := .ofProgram shadowedProgram } ∧
    (∃ sig, shadowedProgram.Declares 4 sig ∧ sig.name = "print" ∧
      ¬ (Image.ofProgram shadowedProgram).Targets (.start 1) "print" sig) ∧
    (step (.ofProgram shadowedProgram) {} (.start 1)).run Buffer.console {} =
      (⟨.start 2, none⟩, { output := #["hi"] }) ∧
    (∃ sig s', shadowedProgram.Declares 6 sig ∧ sig.name = "greet" ∧
      (Image.ofProgram shadowedProgram).Targets (.start 2) "greet" sig ∧
      (step (.ofProgram shadowedProgram) {} (.start 2)).run Buffer.console { output := #["hi"] } =
        (⟨s', none⟩, { output := #["hi"] }) ∧ s'.ip = 7) ∧
    Machine.run { image := .ofProgram shadowedProgram, config := { entry := "lambda@8" } }
        Buffer.console 9 {} = ⟨.failed ⟨.missingEntry "lambda@8", none⟩, {}, {}⟩ := by
  have hload := Machine.load_eq_ofProgram (p := shadowedProgram) (by decide +kernel) {}
  have hfirst : Machine.Reached { image := .ofProgram shadowedProgram } Buffer.console {}
      (.start 1) {} := ⟨.start 1, by decide +kernel, .refl⟩
  have hprints : (step (.ofProgram shadowedProgram) {} (.start 1)).run Buffer.console {} =
      (⟨.start 2, none⟩, { output := #["hi"] }) := by
    have hline : (shadowedProgram.line 1).tokens = ["funccall", "print", "\"hi\""] := by
      decide +kernel
    rw [step_of_keyword (Program.keyword?_of_tokens (k := .call) hline)]
    simp only [Image.ofProgram, State.start, hline]
    rfl
  have hsecond : Machine.Reached { image := .ofProgram shadowedProgram } Buffer.console {}
      (.start 2) { output := #["hi"] } :=
    ⟨.start 1, by decide +kernel, .one rfl hprints⟩
  have hprint : (shadowedProgram.line 4).tokens = ["func", "print", "text:string", "void"] := by
    decide +kernel
  have hgreet : (shadowedProgram.line 6).tokens = ["func", "greet", "void"] := by decide +kernel
  have hlambda : (shadowedProgram.line 8).tokens = ["func", "lambda@8", "void"] := by
    decide +kernel
  have hcall : (shadowedProgram.line 2).tokens = ["funccall", "greet"] := by decide +kernel
  obtain ⟨sig, hsig, hname, hcalls, -⟩ := called_by_name hload hprint
  obtain ⟨sig', hsig', hname', hcalls', -⟩ := called_by_name hload hgreet
  obtain ⟨-, -, -, -, hrun⟩ := called_by_name hload hlambda
  have hheader : shadowedProgram.header? 6 = some ⟨"greet", [], 6, .void⟩ := by decide +kernel
  cases (Program.header?_eq_some_iff.mpr hsig').symm.trans hheader
  have hgood : IsCallName "greet" := ⟨by decide, by decide, by decide⟩
  obtain ⟨htargets, henter⟩ := hcalls' _ _ _ _ _ hsecond rfl
  obtain ⟨s', hstep, hip, -⟩ := henter [] [] hgood hcall rfl rfl (by decide)
  refine ⟨hload, ⟨sig, hsig, hname, fun h => ?_⟩, hprints,
    ⟨_, s', hsig', hname', htargets.mpr hgood, hstep, hip⟩, ?_⟩
  · exact absurd ((hcalls _ _ _ _ _ hfirst rfl).1.mp h).not_builtin (by decide)
  · exact (hrun _ Buffer.console 9 {}).trans (if_pos (by decide))

end LineScript
