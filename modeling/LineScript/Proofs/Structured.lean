/-
Structured evaluation of statement lists, and its agreement with the machine.

`Statements.exec` evaluates a list by recursion on the tree: a taken body is
evaluated in one fresh block which is dropped afterwards, a loop asks its condition
again before every round, and a lambda captures and is passed over. Nothing is
searched for. `walk` is the machine: it takes steps for as long as the instruction
pointer stays on certain lines.

* `exec_mono`: an answer stays when there is more fuel;
* `followed`: what the evaluator answers, the machine comes to;
* `answered`: what the machine comes to within `n` steps, the evaluator answers with
  fuel `n + 1`;
* `exists_walk_iff_exists_exec`: so the two agree on the state that is left, on the
  error and on the console, and if one never ends, neither does the other.
-/
import LineScript.Proofs.Planned

namespace LineScript

variable {σ : Type}

/-- Goes on from a result, unless there is none or it is an error. -/
def proceed (r : Option (Outcome × σ)) (next : State → σ → Option (Outcome × σ)) :
    Option (Outcome × σ) :=
  match r with
  | none => none
  | some (⟨s, none⟩, w) => next s w
  | some (⟨s, some cause⟩, w) => some (⟨s, some cause⟩, w)

/-- Evaluates a list of statements in a state whose instruction pointer is at its
first line. The fuel bounds the depth of the recursion. -/
def Statements.exec (img : Image) (cfg : Config) (con : Console σ) :
    (fuel : Nat) → Statements → State → σ → Option (Outcome × σ)
  | 0, _, _, _ => none
  | _ + 1, .done, s, w => some (⟨s, none⟩, w)
  | fuel + 1, .blank rest, s, w => exec img cfg con fuel rest s.advance w
  | fuel + 1, .line k args rest, s, w =>
    proceed (some ((perform img cfg k args s).run con w)) (exec img cfg con fuel rest)
  | fuel + 1, .branch args body rest, s, w =>
    match Plan.condition img s .branch args with
    | .error cause => some (⟨s, some cause⟩, w)
    | .ok true =>
      proceed (exec img cfg con fuel body (s.openAt (s.ip + 1)) w) fun s' w' =>
        exec img cfg con fuel rest (s'.closeAt (s.ip + body.size + 2)) w'
    | .ok false => exec img cfg con fuel rest (s.goto (s.ip + body.size + 2)) w
  | fuel + 1, .fork args body other rest, s, w =>
    match Plan.condition img s .branch args with
    | .error cause => some (⟨s, some cause⟩, w)
    | .ok true =>
      proceed (exec img cfg con fuel body (s.openAt (s.ip + 1)) w) fun s' w' =>
        exec img cfg con fuel rest (s'.closeAt (s.ip + body.size + other.size + 3)) w'
    | .ok false =>
      proceed (exec img cfg con fuel other (s.openAt (s.ip + body.size + 2)) w) fun s' w' =>
        exec img cfg con fuel rest (s'.closeAt (s.ip + body.size + other.size + 3)) w'
  | fuel + 1, .loop args body rest, s, w =>
    match Plan.condition img s .loop args with
    | .error cause => some (⟨s, some cause⟩, w)
    | .ok true =>
      proceed (exec img cfg con fuel body (s.openAt (s.ip + 1)) w) fun s' w' =>
        exec img cfg con fuel (.loop args body rest) (s'.closeAt s.ip) w'
    | .ok false => exec img cfg con fuel rest (s.goto (s.ip + body.size + 2)) w
  | fuel + 1, .lambda body rest, s, w =>
    exec img cfg con fuel rest ((s.defineLambda img.functions).goto (s.ip + body + 2)) w

/-- The instruction pointer is at a line from `lo` on and before `hi`. -/
def Within (lo hi : Nat) (s : State) : Prop := lo ≤ s.ip ∧ s.ip < hi

instance (lo hi : Nat) (s : State) : Decidable (Within lo hi s) :=
  inferInstanceAs (Decidable (_ ∧ _))

/-- Takes steps for as long as the instruction pointer is on these lines. -/
def walk (img : Image) (cfg : Config) (con : Console σ) (lo hi : Nat) :
    (fuel : Nat) → State → σ → Option (Outcome × σ)
  | 0, s, w => if Within lo hi s then none else some (⟨s, none⟩, w)
  | fuel + 1, s, w =>
    if Within lo hi s then
      proceed (some ((step img cfg s).run con w)) (walk img cfg con lo hi fuel)
    else some (⟨s, none⟩, w)

variable {img : Image} {cfg : Config} {con : Console σ} {s s' : State} {w w' : σ}
  {r r' : Option (Outcome × σ)} {next next' : State → σ → Option (Outcome × σ)} {x : Outcome × σ}
  {k : Keyword} {args : List String} {lo hi : Nat}

/-! ### More fuel -/

theorem proceed_eq_some (h : proceed r next = some x) :
    (∃ s w, r = some (⟨s, none⟩, w) ∧ next s w = some x) ∨
      ∃ s w cause, x = (⟨s, some cause⟩, w) ∧ r = some x := by
  rcases r with _ | ⟨⟨s, _ | cause⟩, w⟩
  · cases h
  · exact .inl ⟨s, w, rfl, h⟩
  · cases h
    exact .inr ⟨s, w, cause, rfl, rfl⟩

theorem proceed_mono (hr : ∀ x, r = some x → r' = some x)
    (hnext : ∀ s w x, next s w = some x → next' s w = some x) (h : proceed r next = some x) :
    proceed r' next' = some x := by
  rcases proceed_eq_some h with ⟨s, w, hok, h⟩ | ⟨s, w, cause, rfl, hfail⟩
  · rw [hr _ hok]
    exact hnext s w x h
  · rw [hr _ hfail]
    rfl

/-- An answer of the evaluator stays when it has more fuel. -/
theorem Statements.exec_mono : ∀ {fuel fuel' : Nat}, fuel ≤ fuel' → ∀ {t : Statements} {s : State}
    {w : σ} {x : Outcome × σ}, t.exec img cfg con fuel s w = some x →
      t.exec img cfg con fuel' s w = some x := by
  intro fuel
  induction fuel with
  | zero =>
    intro fuel' _ t s w x h
    cases h
  | succ fuel ih =>
    intro fuel' hle t s w x h
    obtain ⟨fuel', rfl⟩ : ∃ m, fuel' = m + 1 := ⟨fuel' - 1, by omega⟩
    have hle : fuel ≤ fuel' := by omega
    cases t with
    | done => exact h
    | blank rest => exact ih hle h
    | line k args rest =>
      exact proceed_mono (fun _ hx => hx) (fun _ _ _ hx => ih hle hx) h
    | branch args body rest =>
      rw [exec] at h ⊢
      split at h
      · exact h
      · exact proceed_mono (fun _ hx => ih hle hx) (fun _ _ _ hx => ih hle hx) h
      · exact ih hle h
    | fork args body other rest =>
      rw [exec] at h ⊢
      split at h
      · exact h
      · exact proceed_mono (fun _ hx => ih hle hx) (fun _ _ _ hx => ih hle hx) h
      · exact proceed_mono (fun _ hx => ih hle hx) (fun _ _ _ hx => ih hle hx) h
    | loop args body rest =>
      rw [exec] at h ⊢
      split at h
      · exact h
      · exact proceed_mono (fun _ hx => ih hle hx) (fun _ _ _ hx => ih hle hx) h
      · exact ih hle h
    | lambda body rest => exact ih hle h

/-! ### The machine at the lines of a statement

The searches lead from the markers of a statement to the lines that the evaluator
finds by counting. -/

section
variable {depth start inner line : Nat} {body other : Statements}
  {plain : Keyword → List String → Prop} (cfg) (con) (w)

theorem run_step_endBranch (hip : s.ip + 1 = line)
    (close : (img.program.line s.ip).marks .endBranch depth = true)
    (hopen : 0 < s.scopes.current.inner.length) :
    (step img cfg s).run con w = (⟨s.closeAt line, none⟩, w) :=
  run_step_closing cfg con w (Program.keyword?_of_marks close) (.inr (.inl rfl)) (hip ▸ rfl) hopen

/-- The line between two bodies leads past the second one. -/
theorem run_step_otherwise (middle : (img.program.line s.ip).marks .otherwise depth = true)
    (deeper : depth < inner) (inside : Laid img.program plain inner (s.ip + 1) other)
    (close : (img.program.line (s.ip + 1 + other.size)).marks .endBranch depth = true)
    (hopen : 0 < s.scopes.current.inner.length) :
    (step img cfg s).run con w = (⟨s.closeAt (s.ip + 1 + other.size + 1), none⟩, w) := by
  refine run_step_closing cfg con w (Program.keyword?_of_marks middle) (.inl rfl) ?_ hopen
  rw [Plan.blockExit, inside.blockEnd?_eq deeper middle close]
  rfl

/-- The end of a loop leads back to its head. -/
theorem run_step_endLoop (head : img.program.Says start .loop args depth) (deeper : depth < inner)
    (inside : Laid img.program plain inner (start + 1) body) (hip : s.ip = start + 1 + body.size)
    (close : (img.program.line (start + 1 + body.size)).marks .endLoop depth = true)
    (hopen : 0 < s.scopes.current.inner.length) :
    (step img cfg s).run con w = (⟨s.closeAt start, none⟩, w) := by
  refine run_step_closing cfg con w (by rw [hip]; exact Program.keyword?_of_marks close)
    (.inr (.inr rfl)) ?_ hopen
  rw [Plan.blockExit, hip, inside.loopStart?_eq deeper head close]

theorem run_step_lambda {body : Nat} (hload : img.Loaded)
    (head : (img.program.line s.ip).marks .lambda depth = true)
    (deeper : img.program.Between depth (s.ip + 1) (s.ip + 1 + body))
    (close : (img.program.line (s.ip + 1 + body)).marks .endLambda depth = true) :
    (step img cfg s).run con w =
      (⟨(s.defineLambda img.functions).goto (s.ip + body + 2), none⟩, w) := by
  rw [run_step_capture cfg con w hload (Program.keyword?_of_marks head)
    (lambdaEnd?_eq head deeper close), show s.ip + 1 + body + 1 = s.ip + body + 2 by omega]

end

/-! ### From the evaluator to the machine -/

/-- The single lines that a list may hold: `var`, `assign` and calls of built-in
functions. -/
def Simple (k : Keyword) (args : List String) : Prop :=
  k = .var ∨ k = .assign ∨ k = .call ∧ ∃ b rest, args = Builtin.text b :: rest

theorem Simple.straight {plan : Plan} (h : Simple k args)
    (hplan : Plan.statement img cfg s k args = .ok plan) : plan.Straight := by
  rcases h with rfl | rfl | ⟨rfl, b, rest, rfl⟩
  · exact Plan.straight_declaration hplan
  · exact Plan.straight_assignment hplan
  · rw [Plan.statement, Plan.invocation, Builtin.ofText?_text] at hplan
    exact Plan.straight_builtin hplan

theorem Simple.run_perform (h : Simple k args) {o : Outcome}
    (hrun : (perform img cfg k args s).run con w = (o, w')) (hok : o.error = none) :
    o.state.ip = s.ip + 1 ∧
      o.state.scopes.current.inner.length = s.scopes.current.inner.length := by
  rw [perform] at hrun
  split at hrun
  · cases hrun
    cases hok
  · next plan hplan =>
    obtain ⟨hsettled, hip⟩ := (h.straight hplan).run_dialogue hrun
    rw [if_pos hok] at hip
    exact ⟨hip, hsettled.blocks⟩

/-- How the machine fares on the lines of a list: it comes to the line `last` with as
many blocks open as at first, or a step fails on the way. -/
inductive Fares (img : Image) (cfg : Config) (con : Console σ) (lo hi last : Nat) (s : State)
    (w : σ) : Outcome × σ → Prop
  | ends {s' : State} {w' : σ} (row : Steps img cfg con (Within lo hi) s w s' w')
      (here : s'.ip = last)
      (blocks : s'.scopes.current.inner.length = s.scopes.current.inner.length) :
      Fares img cfg con lo hi last s w (⟨s', none⟩, w')
  | fails {s₁ s' : State} {w₁ w' : σ} {cause : Cause}
      (row : Steps img cfg con (Within lo hi) s w s₁ w₁) (here : Within lo hi s₁)
      (fail : (step img cfg s₁).run con w₁ = (⟨s', some cause⟩, w')) :
      Fares img cfg con lo hi last s w (⟨s', some cause⟩, w')

namespace Fares

variable {last : Nat}

/-- Steps that open and close the same blocks may come before. -/
theorem after {s₁ : State} {w₁ : σ} (row : Steps img cfg con (Within lo hi) s w s₁ w₁)
    (hblocks : s₁.scopes.current.inner.length = s.scopes.current.inner.length)
    (h : Fares img cfg con lo hi last s₁ w₁ x) : Fares img cfg con lo hi last s w x := by
  cases h with
  | ends row' here blocks => exact .ends (row.trans row') here (blocks.trans hblocks)
  | fails row' here fail => exact .fails (row.trans row') here fail

/-- A failure of the body is one of the whole statement, whatever was opened. -/
theorem fails_after {s₁ : State} {w₁ : σ} {last' : Nat} {cause : Cause}
    (row : Steps img cfg con (Within lo hi) s w s₁ w₁)
    (h : Fares img cfg con lo hi last' s₁ w₁ (⟨s', some cause⟩, w')) :
    Fares img cfg con lo hi last s w (⟨s', some cause⟩, w') := by
  cases h with
  | fails row' here fail => exact .fails (row.trans row') here fail

/-- A body between the line that opens its block and the line that drops it, and
what comes after. -/
theorem block {first line final : Nat} (hs : Within lo hi s)
    (hopen : (step img cfg s).run con w = (⟨s.openAt first, none⟩, w))
    (hbody : ∀ x, r = some x → Fares img cfg con lo hi last (s.openAt first) w x)
    (hlast : lo ≤ last ∧ last < hi)
    (hclose : ∀ {s : State} {w : σ}, s.ip = last → 0 < s.scopes.current.inner.length →
      (step img cfg s).run con w = (⟨s.closeAt line, none⟩, w))
    (hrest : ∀ s₁ w₁, next s₁ w₁ = some x →
      Fares img cfg con lo hi final (s₁.closeAt line) w₁ x)
    (h : proceed r next = some x) : Fares img cfg con lo hi final s w x := by
  rcases proceed_eq_some h with ⟨s₁, w₁, hok, h⟩ | ⟨s', w', cause, rfl, hfail⟩
  · cases hbody _ hok with
    | ends row here blocks =>
      -- The body has left one block open, the one that its head has opened.
      have hinner : s₁.scopes.current.inner.length = s.scopes.current.inner.length + 1 := blocks
      have hrow := ((Steps.one hs hopen).trans row).tail (by rw [Within, here]; exact hlast)
        (hclose here (by omega))
      refine after hrow ?_ (hrest s₁ w₁ h)
      rw [State.length_inner_closeAt, hinner, Nat.add_sub_cancel]
  · exact fails_after (.one hs hopen) (hbody _ hfail)

end Fares

/-- Whatever the evaluator answers with this fuel, the machine comes to. -/
def Followed (img : Image) (cfg : Config) (con : Console σ) (fuel : Nat) : Prop :=
  ∀ {t : Statements} {depth lo hi : Nat} {s : State} {w : σ} {x : Outcome × σ},
    Laid img.program Simple depth s.ip t → t.exec img cfg con fuel s w = some x →
    lo ≤ s.ip → s.ip + t.size ≤ hi → Fares img cfg con lo hi (s.ip + t.size) s w x

namespace Followed

variable {fuel depth inner inner' : Nat} {body other rest : Statements}

/-- What follows a statement, from a state at its first line. -/
theorem goOn (ih : Followed img cfg con fuel) {first final : Nat}
    (next : Laid img.program Simple depth first rest)
    (h : rest.exec img cfg con fuel s w = some x) (hip : s.ip = first) (hlo : lo ≤ first)
    (hfinal : first + rest.size = final) (hhi : final ≤ hi) :
    Fares img cfg con lo hi final s w x := by
  subst hip hfinal
  exact ih next h hlo hhi

theorem line (ih : Followed img cfg con fuel) (kind : Simple k args)
    (here : img.program.Says s.ip k args depth)
    (next : Laid img.program Simple depth (s.ip + 1) rest)
    (h : (Statements.line k args rest).exec img cfg con (fuel + 1) s w = some x)
    (hlo : lo ≤ s.ip) (hhi : s.ip + (rest.size + 1) ≤ hi) :
    Fares img cfg con lo hi (s.ip + (rest.size + 1)) s w x := by
  have hin : Within lo hi s := ⟨hlo, by omega⟩
  rw [Statements.exec, ← step_of_statement cfg here] at h
  rcases proceed_eq_some h with ⟨s₁, w₁, hok, h⟩ | ⟨s', w', cause, rfl, hfail⟩
  · have hrun := Option.some.inj hok
    obtain ⟨hip, hblocks⟩ := kind.run_perform (step_of_statement cfg here ▸ hrun) rfl
    exact .after (.one hin hrun) hblocks
      (ih.goOn next h hip (by omega) (by omega) hhi)
  · exact .fails .refl hin (Option.some.inj hfail)

theorem branch (ih : Followed img cfg con fuel) (head : img.program.Says s.ip .branch args depth)
    (deeper : depth < inner) (inside : Laid img.program Simple inner (s.ip + 1) body)
    (close : (img.program.line (s.ip + 1 + body.size)).marks .endBranch depth = true)
    (next : Laid img.program Simple depth (s.ip + body.size + 2) rest)
    (h : (Statements.branch args body rest).exec img cfg con (fuel + 1) s w = some x)
    (hlo : lo ≤ s.ip) (hhi : s.ip + (body.size + rest.size + 2) ≤ hi) :
    Fares img cfg con lo hi (s.ip + (body.size + rest.size + 2)) s w x := by
  have hin : Within lo hi s := ⟨hlo, by omega⟩
  have hstep := run_step_branch cfg con w head (inside.branchEnd?_eq deeper head (.inl rfl) close)
  rw [Statements.exec] at h
  split at h
  · next cause hc =>
    cases h
    rw [hc] at hstep
    exact .fails .refl hin hstep
  · next hc =>
    rw [hc] at hstep
    refine .block hin hstep
      (fun x hx => ih.goOn (s := s.openAt (s.ip + 1)) inside hx rfl (by omega) rfl (by omega))
      (by omega) (fun hs₁ hopen => ?_)
      (fun s₁ w₁ hx => ih.goOn next hx rfl (by omega) (by omega) hhi) h
    exact run_step_endBranch cfg con _ (by omega) (by rw [hs₁]; exact close) hopen
  · next hc =>
    rw [hc, Program.keyword?_of_marks close, if_neg (by decide),
      show s.ip + 1 + body.size + 1 = s.ip + body.size + 2 by omega] at hstep
    exact .after (.one hin hstep) rfl (ih.goOn next h rfl (by omega) (by omega) hhi)

theorem fork (ih : Followed img cfg con fuel) (head : img.program.Says s.ip .branch args depth)
    (deeper : depth < inner) (inside : Laid img.program Simple inner (s.ip + 1) body)
    (middle : (img.program.line (s.ip + 1 + body.size)).marks .otherwise depth = true)
    (deeper' : depth < inner')
    (inside' : Laid img.program Simple inner' (s.ip + body.size + 2) other)
    (close : (img.program.line (s.ip + body.size + 2 + other.size)).marks .endBranch depth = true)
    (next : Laid img.program Simple depth (s.ip + body.size + other.size + 3) rest)
    (h : (Statements.fork args body other rest).exec img cfg con (fuel + 1) s w = some x)
    (hlo : lo ≤ s.ip) (hhi : s.ip + (body.size + other.size + rest.size + 3) ≤ hi) :
    Fares img cfg con lo hi (s.ip + (body.size + other.size + rest.size + 3)) s w x := by
  have hin : Within lo hi s := ⟨hlo, by omega⟩
  have hstep := run_step_branch cfg con w head (inside.branchEnd?_eq deeper head (.inr rfl) middle)
  rw [Statements.exec] at h
  split at h
  · next cause hc =>
    cases h
    rw [hc] at hstep
    exact .fails .refl hin hstep
  · next hc =>
    rw [hc] at hstep
    refine .block hin hstep
      (fun x hx => ih.goOn (s := s.openAt (s.ip + 1)) inside hx rfl (by omega) rfl (by omega))
      (by omega) (fun {s₁ w₁} hs₁ hopen => ?_)
      (fun s₁ w₁ hx => ih.goOn next hx rfl (by omega) (by omega) hhi) h
    have hmiddle : s₁.ip + 1 = s.ip + body.size + 2 := by omega
    rw [run_step_otherwise cfg con w₁ (by rw [hs₁]; exact middle) deeper'
      (by rw [hmiddle]; exact inside') (by rw [hmiddle]; exact close) hopen,
      show s₁.ip + 1 + other.size + 1 = s.ip + body.size + other.size + 3 by omega]
  · next hc =>
    rw [hc, Program.keyword?_of_marks middle, if_pos rfl,
      show s.ip + 1 + body.size + 1 = s.ip + body.size + 2 by omega] at hstep
    refine .block hin hstep
      (fun x hx =>
        ih.goOn (s := s.openAt (s.ip + body.size + 2)) inside' hx rfl (by omega) rfl (by omega))
      (by omega) (fun hs₁ hopen => ?_)
      (fun s₁ w₁ hx => ih.goOn next hx rfl (by omega) (by omega) hhi) h
    exact run_step_endBranch cfg con _ (by omega) (by rw [hs₁]; exact close) hopen

theorem loop (ih : Followed img cfg con fuel) (head : img.program.Says s.ip .loop args depth)
    (deeper : depth < inner) (inside : Laid img.program Simple inner (s.ip + 1) body)
    (close : (img.program.line (s.ip + 1 + body.size)).marks .endLoop depth = true)
    (next : Laid img.program Simple depth (s.ip + body.size + 2) rest)
    (h : (Statements.loop args body rest).exec img cfg con (fuel + 1) s w = some x)
    (hlo : lo ≤ s.ip) (hhi : s.ip + (body.size + rest.size + 2) ≤ hi) :
    Fares img cfg con lo hi (s.ip + (body.size + rest.size + 2)) s w x := by
  have hin : Within lo hi s := ⟨hlo, by omega⟩
  have hstep := run_step_loop cfg con w head (inside.loopEnd?_eq deeper head close)
  rw [Statements.exec] at h
  split at h
  · next cause hc =>
    cases h
    rw [hc] at hstep
    exact .fails .refl hin hstep
  · next hc =>
    rw [hc] at hstep
    -- After the body the whole loop is evaluated again, from its head.
    exact .block hin hstep
      (fun x hx => ih.goOn (s := s.openAt (s.ip + 1)) inside hx rfl (by omega) rfl (by omega))
      (by omega)
      (fun hs₁ hopen => run_step_endLoop cfg con _ head deeper inside hs₁ close hopen)
      (fun s₁ w₁ hx => ih.goOn (.loop head deeper inside close next) hx rfl hlo rfl hhi) h
  · next hc =>
    rw [hc, show s.ip + 1 + body.size + 1 = s.ip + body.size + 2 by omega] at hstep
    exact .after (.one hin hstep) rfl (ih.goOn next h rfl (by omega) (by omega) hhi)

end Followed

/-- Whatever the evaluator answers, the machine comes to. -/
theorem followed (hload : img.Loaded) : ∀ fuel, Followed img cfg con fuel := by
  intro fuel
  induction fuel with
  | zero =>
    intro t depth lo hi s w x _ h
    cases h
  | succ fuel ih =>
    intro t depth lo hi s w x hlaid h hlo hhi
    cases hlaid with
    | done =>
      cases h
      exact .ends .refl rfl rfl
    | blank hlt hempty next =>
      simp only [Statements.size] at hhi ⊢
      have hstep : (step img cfg s).run con w = (⟨s.advance, none⟩, w) := by
        rw [step_of_blank hlt hempty]
        rfl
      exact .after (.one ⟨hlo, by omega⟩ hstep) rfl (ih.goOn next h rfl (by omega) (by omega) hhi)
    | line kind here next => exact ih.line kind here next h hlo hhi
    | branch head deeper inside close next =>
      exact ih.branch head deeper inside close next h hlo hhi
    | fork head deeper inside middle deeper' inside' close next =>
      exact ih.fork head deeper inside middle deeper' inside' close next h hlo hhi
    | loop head deeper inside close next => exact ih.loop head deeper inside close next h hlo hhi
    | lambda head deeper close next =>
      simp only [Statements.size] at hhi ⊢
      have hstep := run_step_lambda cfg con w hload head deeper close
      refine .after (.one ⟨hlo, by omega⟩ hstep) ?_ (ih.goOn next h rfl (by omega) (by omega) hhi)
      exact s.length_inner_defineLambda img.functions

/-! ### From the machine to the evaluator -/

theorem walk_of_within {fuel : Nat} (hs : Within lo hi s) :
    walk img cfg con lo hi (fuel + 1) s w =
      proceed (some ((step img cfg s).run con w)) (walk img cfg con lo hi fuel) := by
  rw [walk, if_pos hs]

theorem walk_of_not_within {fuel : Nat} (hs : ¬ Within lo hi s) :
    walk img cfg con lo hi fuel s w = some (⟨s, none⟩, w) := by
  cases fuel with
  | zero => exact if_neg hs
  | succ fuel => exact if_neg hs

/-- A walk that ends within the lines takes a step. -/
theorem exists_walk_succ {fuel : Nat} (hs : Within lo hi s)
    (h : walk img cfg con lo hi fuel s w = some x) : ∃ n, fuel = n + 1 := by
  cases fuel with
  | zero =>
    rw [walk, if_pos hs] at h
    cases h
  | succ n => exact ⟨n, rfl⟩

/-- A walk begins with a walk on fewer lines. -/
theorem walk_split {mid : Nat} (hmid : mid ≤ hi) : ∀ {fuel : Nat} {s : State} {w : σ},
    walk img cfg con lo hi fuel s w = some x →
      ∃ n ≤ fuel, ∃ y, walk img cfg con lo mid n s w = some y ∧
        ((∃ s₁ w₁, y = (⟨s₁, none⟩, w₁) ∧ walk img cfg con lo hi (fuel - n) s₁ w₁ = some x) ∨
          (y = x ∧ ∃ s₁ w₁ cause, x = (⟨s₁, some cause⟩, w₁))) := by
  intro fuel
  induction fuel with
  | zero =>
    intro s w h
    have hs : ¬ Within lo hi s := fun hs => by
      obtain ⟨n, hn⟩ := exists_walk_succ hs h
      cases hn
    have hs' : ¬ Within lo mid s := fun hs' => hs ⟨hs'.1, Nat.lt_of_lt_of_le hs'.2 hmid⟩
    exact ⟨0, Nat.le_refl 0, _, walk_of_not_within hs', .inl ⟨s, w, rfl, h⟩⟩
  | succ fuel ih =>
    intro s w h
    by_cases hs : Within lo mid s
    · have hs' : Within lo hi s := ⟨hs.1, Nat.lt_of_lt_of_le hs.2 hmid⟩
      rw [walk_of_within hs'] at h
      rcases proceed_eq_some h with ⟨s₁, w₁, hok, h⟩ | ⟨s₁, w₁, cause, rfl, hfail⟩
      · obtain ⟨n, hn, y, hy, hcases⟩ := ih h
        refine ⟨n + 1, by omega, y, ?_, ?_⟩
        · rw [walk_of_within hs, hok]
          exact hy
        · rwa [Nat.add_sub_add_right]
      · refine ⟨1, by omega, _, ?_, .inr ⟨rfl, s₁, w₁, cause, rfl⟩⟩
        rw [walk_of_within hs, hfail]
        rfl
    · exact ⟨0, Nat.zero_le _, _, walk_of_not_within hs, .inl ⟨s, w, rfl, h⟩⟩

/-- What the machine comes to within `n` steps, the evaluator answers with fuel
`n + 1`. -/
def Answered (img : Image) (cfg : Config) (con : Console σ) (n : Nat) : Prop :=
  ∀ {t : Statements} {depth lo : Nat} {s : State} {w : σ} {x : Outcome × σ},
    Laid img.program Simple depth s.ip t → lo ≤ s.ip →
    walk img cfg con lo (s.ip + t.size) n s w = some x → t.exec img cfg con (n + 1) s w = some x

namespace Answered

variable {n depth inner inner' : Nat} {body other rest : Statements}

/-- What follows a statement, from a state at its first line. -/
theorem goOn (ih : ∀ m ≤ n, Answered img cfg con m) {m first : Nat} (hm : m ≤ n)
    (next : Laid img.program Simple depth first rest)
    (h : walk img cfg con lo hi m s w = some x) (hip : s.ip = first) (hlo : lo ≤ first)
    (hhi : first + rest.size = hi) : rest.exec img cfg con (n + 1) s w = some x := by
  subst hip hhi
  exact Statements.exec_mono (by omega) (ih m hm next hlo h)

/-- A body between the line that opens its block and the line that drops it, and
what comes after. -/
theorem block {first last line : Nat} (hload : img.Loaded)
    (ih : ∀ m ≤ n, Answered img cfg con m) (hs : Within lo hi s)
    (hopen : (step img cfg s).run con w = (⟨s.openAt first, none⟩, w))
    (inside : Laid img.program Simple depth first body) (hfirst : lo ≤ first)
    (hlast : first + body.size = last) (hhi : last < hi)
    (hclose : ∀ {s : State} {w : σ}, s.ip = last → 0 < s.scopes.current.inner.length →
      (step img cfg s).run con w = (⟨s.closeAt line, none⟩, w))
    (hnext : ∀ m ≤ n, ∀ s₁ w₁, walk img cfg con lo hi m (s₁.closeAt line) w₁ = some x →
      next s₁ w₁ = some x)
    (h : walk img cfg con lo hi (n + 1) s w = some x) :
    proceed (body.exec img cfg con (n + 1) (s.openAt first) w) next = some x := by
  subst hlast
  rw [walk_of_within hs, hopen] at h
  have h : walk img cfg con lo hi n (s.openAt first) w = some x := h
  -- The walk goes through the body first, and the evaluator answers for the body.
  obtain ⟨m, hm, y, hy, hcases⟩ := walk_split (Nat.le_of_lt hhi) h
  have hbody := ih m hm (s := s.openAt first) inside hfirst hy
  rw [Statements.exec_mono (by omega) hbody]
  rcases hcases with ⟨s₁, w₁, rfl, h⟩ | ⟨rfl, s₁, w₁, cause, rfl⟩
  · cases followed hload _ (s := s.openAt first) inside hbody hfirst (Nat.le_refl _) with
    | ends row here blocks =>
      -- From the end marker the walk has at least one more step to take.
      have here : s₁.ip = first + body.size := here
      have hs₁ : Within lo hi s₁ := ⟨by omega, by omega⟩
      have hinner : s₁.scopes.current.inner.length = s.scopes.current.inner.length + 1 := blocks
      obtain ⟨j, hj⟩ := exists_walk_succ hs₁ h
      rw [hj, walk_of_within hs₁, hclose here (by omega)] at h
      exact hnext j (by omega) s₁ w₁ h
  · rfl

theorem line (ih : ∀ m ≤ n, Answered img cfg con m) (kind : Simple k args)
    (here : img.program.Says s.ip k args depth)
    (next : Laid img.program Simple depth (s.ip + 1) rest) (hlo : lo ≤ s.ip)
    (h : walk img cfg con lo (s.ip + (rest.size + 1)) (n + 1) s w = some x) :
    (Statements.line k args rest).exec img cfg con (n + 2) s w = some x := by
  have hin : Within lo (s.ip + (rest.size + 1)) s := ⟨hlo, by omega⟩
  rw [walk_of_within hin] at h
  rw [Statements.exec, ← step_of_statement cfg here]
  rcases proceed_eq_some h with ⟨s₁, w₁, hok, h⟩ | ⟨s', w', cause, rfl, hfail⟩
  · obtain ⟨hip, -⟩ := kind.run_perform (step_of_statement cfg here ▸ Option.some.inj hok) rfl
    rw [hok]
    exact goOn ih (Nat.le_refl n) next h hip (by omega) (by omega)
  · rw [hfail]
    rfl

theorem branch (hload : img.Loaded) (ih : ∀ m ≤ n, Answered img cfg con m)
    (head : img.program.Says s.ip .branch args depth) (deeper : depth < inner)
    (inside : Laid img.program Simple inner (s.ip + 1) body)
    (close : (img.program.line (s.ip + 1 + body.size)).marks .endBranch depth = true)
    (next : Laid img.program Simple depth (s.ip + body.size + 2) rest) (hlo : lo ≤ s.ip)
    (h : walk img cfg con lo (s.ip + (body.size + rest.size + 2)) (n + 1) s w = some x) :
    (Statements.branch args body rest).exec img cfg con (n + 2) s w = some x := by
  have hin : Within lo (s.ip + (body.size + rest.size + 2)) s := ⟨hlo, by omega⟩
  have hstep := run_step_branch cfg con w head (inside.branchEnd?_eq deeper head (.inl rfl) close)
  rw [Statements.exec]
  split
  · next cause hc =>
    rw [hc] at hstep
    rw [walk_of_within hin, hstep] at h
    exact h
  · next hc =>
    rw [hc] at hstep
    refine block hload ih hin hstep inside (by omega) rfl (by omega) (fun hs₁ hopen => ?_)
      (fun m hm s₁ w₁ hx => goOn ih hm next hx rfl (by omega) (by omega)) h
    exact run_step_endBranch cfg con _ (by omega) (by rw [hs₁]; exact close) hopen
  · next hc =>
    rw [hc, Program.keyword?_of_marks close, if_neg (by decide),
      show s.ip + 1 + body.size + 1 = s.ip + body.size + 2 by omega] at hstep
    rw [walk_of_within hin, hstep] at h
    exact goOn ih (Nat.le_refl n) next h rfl (by omega) (by omega)

theorem fork (hload : img.Loaded) (ih : ∀ m ≤ n, Answered img cfg con m)
    (head : img.program.Says s.ip .branch args depth) (deeper : depth < inner)
    (inside : Laid img.program Simple inner (s.ip + 1) body)
    (middle : (img.program.line (s.ip + 1 + body.size)).marks .otherwise depth = true)
    (deeper' : depth < inner')
    (inside' : Laid img.program Simple inner' (s.ip + body.size + 2) other)
    (close : (img.program.line (s.ip + body.size + 2 + other.size)).marks .endBranch depth = true)
    (next : Laid img.program Simple depth (s.ip + body.size + other.size + 3) rest)
    (hlo : lo ≤ s.ip)
    (h : walk img cfg con lo (s.ip + (body.size + other.size + rest.size + 3)) (n + 1) s w =
      some x) :
    (Statements.fork args body other rest).exec img cfg con (n + 2) s w = some x := by
  have hin : Within lo (s.ip + (body.size + other.size + rest.size + 3)) s := ⟨hlo, by omega⟩
  have hstep := run_step_branch cfg con w head (inside.branchEnd?_eq deeper head (.inr rfl) middle)
  rw [Statements.exec]
  split
  · next cause hc =>
    rw [hc] at hstep
    rw [walk_of_within hin, hstep] at h
    exact h
  · next hc =>
    rw [hc] at hstep
    refine block hload ih hin hstep inside (by omega) rfl (by omega) (fun {s₁ w₁} hs₁ hopen => ?_)
      (fun m hm s₁ w₁ hx => goOn ih hm next hx rfl (by omega) (by omega)) h
    have hmiddle : s₁.ip + 1 = s.ip + body.size + 2 := by omega
    rw [run_step_otherwise cfg con w₁ (by rw [hs₁]; exact middle) deeper'
      (by rw [hmiddle]; exact inside') (by rw [hmiddle]; exact close) hopen,
      show s₁.ip + 1 + other.size + 1 = s.ip + body.size + other.size + 3 by omega]
  · next hc =>
    rw [hc, Program.keyword?_of_marks middle, if_pos rfl,
      show s.ip + 1 + body.size + 1 = s.ip + body.size + 2 by omega] at hstep
    refine block hload ih hin hstep inside' (by omega) rfl (by omega) (fun hs₁ hopen => ?_)
      (fun m hm s₁ w₁ hx => goOn ih hm next hx rfl (by omega) (by omega)) h
    exact run_step_endBranch cfg con _ (by omega) (by rw [hs₁]; exact close) hopen

theorem loop (hload : img.Loaded) (ih : ∀ m ≤ n, Answered img cfg con m)
    (head : img.program.Says s.ip .loop args depth) (deeper : depth < inner)
    (inside : Laid img.program Simple inner (s.ip + 1) body)
    (close : (img.program.line (s.ip + 1 + body.size)).marks .endLoop depth = true)
    (next : Laid img.program Simple depth (s.ip + body.size + 2) rest) (hlo : lo ≤ s.ip)
    (h : walk img cfg con lo (s.ip + (body.size + rest.size + 2)) (n + 1) s w = some x) :
    (Statements.loop args body rest).exec img cfg con (n + 2) s w = some x := by
  have hin : Within lo (s.ip + (body.size + rest.size + 2)) s := ⟨hlo, by omega⟩
  have hstep := run_step_loop cfg con w head (inside.loopEnd?_eq deeper head close)
  rw [Statements.exec]
  split
  · next cause hc =>
    rw [hc] at hstep
    rw [walk_of_within hin, hstep] at h
    exact h
  · next hc =>
    rw [hc] at hstep
    exact block hload ih hin hstep inside (by omega) rfl (by omega)
      (fun hs₁ hopen => run_step_endLoop cfg con _ head deeper inside hs₁ close hopen)
      (fun m hm s₁ w₁ hx => goOn ih hm (.loop head deeper inside close next) hx rfl hlo rfl) h
  · next hc =>
    rw [hc, show s.ip + 1 + body.size + 1 = s.ip + body.size + 2 by omega] at hstep
    rw [walk_of_within hin, hstep] at h
    exact goOn ih (Nat.le_refl n) next h rfl (by omega) (by omega)

end Answered

/-- Whatever the machine comes to, the evaluator answers. -/
theorem answered (hload : img.Loaded) : ∀ n, Answered img cfg con n := by
  intro n
  -- A statement takes a step at least, and what is left of the walk is shorter.
  induction n using Nat.strongRecOn with
  | _ n ih =>
    intro t depth lo s w x hlaid hlo h
    by_cases hin : Within lo (s.ip + t.size) s
    · obtain ⟨n, rfl⟩ := exists_walk_succ hin h
      have ih : ∀ m ≤ n, Answered img cfg con m := fun m hm => ih m (by omega)
      cases hlaid with
      | done => exact absurd hin.2 (Nat.lt_irrefl _)
      | blank hlt hempty next =>
        rw [walk_of_within hin, step_of_blank hlt hempty] at h
        rw [Statements.exec]
        exact Answered.goOn ih (Nat.le_refl n) next h rfl (by omega) (by simp; omega)
      | line kind here next => exact Answered.line ih kind here next hlo h
      | branch head deeper inside close next =>
        exact Answered.branch hload ih head deeper inside close next hlo h
      | fork head deeper inside middle deeper' inside' close next =>
        exact Answered.fork hload ih head deeper inside middle deeper' inside' close next hlo h
      | loop head deeper inside close next =>
        exact Answered.loop hload ih head deeper inside close next hlo h
      | lambda head deeper close next =>
        rw [walk_of_within hin, run_step_lambda cfg con w hload head deeper close] at h
        rw [Statements.exec]
        exact Answered.goOn ih (Nat.le_refl n) next h rfl (by omega) (by simp; omega)
    · -- Only the empty list has no line to be at.
      have hsize : t.size = 0 := by
        by_contra hne
        exact hin ⟨hlo, by omega⟩
      rw [walk_of_not_within hin] at h
      cases hlaid with
      | done => exact h
      | _ => simp at hsize

/-! ### Agreement -/

/-- A row of steps is a part of a walk. -/
theorem Steps.exists_walk (h : Steps img cfg con (Within lo hi) s w s' w') :
    ∃ n, ∀ m, walk img cfg con lo hi (m + n) s w = walk img cfg con lo hi m s' w' := by
  induction h with
  | refl => exact ⟨0, fun m => rfl⟩
  | tail row here last ih =>
    obtain ⟨n, hn⟩ := ih
    refine ⟨n + 1, ?_⟩
    intro m
    rw [show m + (n + 1) = m + 1 + n by omega, hn, walk_of_within here, last]
    rfl

/-- How the machine fares on all lines of a list, a walk on them tells. -/
theorem Fares.exists_walk (h : Fares img cfg con lo hi hi s w x) :
    ∃ n, walk img cfg con lo hi n s w = some x := by
  cases h with
  | ends row here blocks =>
    obtain ⟨n, hn⟩ := row.exists_walk
    exact ⟨0 + n, by rw [hn, walk_of_not_within fun h => absurd h.2 (by omega)]⟩
  | fails row here fail =>
    obtain ⟨n, hn⟩ := row.exists_walk
    exact ⟨1 + n, by rw [hn, walk_of_within here, fail]; rfl⟩

/-- On the lines of a list the machine comes to what the evaluator answers and to
nothing else, with whatever console. If nothing fails it is then at the first line
after the list, and no block of the list is left open. -/
theorem exists_walk_iff_exists_exec {p : Program} {depth : Nat} {t : Statements}
    (hload : Image.load p = .ok img) (hlaid : Laid p Simple depth s.ip t) :
    (∀ x, (∃ n, walk img cfg con s.ip (s.ip + t.size) n s w = some x) ↔
      ∃ fuel, t.exec img cfg con fuel s w = some x) ∧
    ∀ fuel s' w', t.exec img cfg con fuel s w = some (⟨s', none⟩, w') →
      s'.ip = s.ip + t.size ∧
        s'.scopes.current.inner.length = s.scopes.current.inner.length := by
  obtain ⟨rfl, hloaded⟩ := Image.loaded_of_load hload
  have hfares : ∀ {fuel x}, t.exec img cfg con fuel s w = some x →
      Fares img cfg con s.ip (s.ip + t.size) (s.ip + t.size) s w x :=
    fun h => followed hloaded _ hlaid h (Nat.le_refl _) (Nat.le_refl _)
  constructor
  · intro x
    constructor
    · rintro ⟨n, h⟩
      exact ⟨n + 1, answered hloaded n hlaid (Nat.le_refl _) h⟩
    · rintro ⟨fuel, h⟩
      exact (hfares h).exists_walk
  · intro fuel s' w' h
    cases hfares h with
    | ends row here blocks => exact ⟨here, blocks⟩

/-- A loop around a condition, a lambda and a call, between other lines. -/
def countingProgram : Program := .ofLines [
  "func main void",
  "  var int x",
  "  while < x 2",
  "    if == x 0",
  "      assign x + x 1",
  "    else",
  "  # the other body",
  "      assign x 2",
  "    endif",
  "  endwhile",
  "  lambda int",
  "    return x",
  "  endlambda",
  "  funccall print x",
  "endfunc"]

/-- The list that is the body of its function. -/
def countingStatements : Statements :=
  .line .var ["int", "x"] <|
  .loop ["<", "x", "2"]
    (.fork ["==", "x", "0"] (.line .assign ["x", "+", "x", "1"] .done)
      (.blank (.line .assign ["x", "2"] .done)) .done) <|
  .lambda 1 <|
  .line .call ["print", "x"] .done

theorem laid_countingStatements : Laid countingProgram Simple 2 1 countingStatements := by
  have hprint : Simple .call ["print", "x"] := .inr (.inr ⟨rfl, .print, ["x"], rfl⟩)
  have hbody : countingProgram.Between 2 11 12 := by
    intro n hlo hhi
    obtain rfl : n = 11 := by omega
    decide +kernel
  refine .line (.inl rfl) (by decide +kernel) ?_
  refine .loop (by decide +kernel) (by decide : 2 < 4) ?_ (by decide +kernel) ?_
  · refine .fork (by decide +kernel) (by decide : 4 < 6) ?_ (by decide +kernel)
      (by decide : 4 < 6) ?_ (by decide +kernel) .done
    · exact .line (.inr (.inl rfl)) (by decide +kernel) .done
    · exact .blank (by decide +kernel) (by decide +kernel)
        (.line (.inr (.inl rfl)) (by decide +kernel) .done)
  · exact .lambda (by decide +kernel) hbody (by decide +kernel)
      (.line hprint (by decide +kernel) .done)

theorem exists_walk_countingStatements :
    Image.load countingProgram = .ok (.ofProgram countingProgram) ∧
      Laid countingProgram Simple 2 1 countingStatements ∧
      ∃ n s' w', walk (.ofProgram countingProgram) {} Buffer.console 1 14 n (State.start 1) {} =
        some (⟨s', none⟩, w') ∧ s'.ip = 14 ∧ w'.output = #["2"] := by
  have hload : Image.load countingProgram = .ok (.ofProgram countingProgram) :=
    Image.load_eq_ofProgram (by decide +kernel)
  refine ⟨hload, laid_countingStatements, ?_⟩
  obtain ⟨hiff, hend⟩ := exists_walk_iff_exists_exec (s := State.start 1) hload
    laid_countingStatements
  have hexec : (countingStatements.exec (.ofProgram countingProgram) {} Buffer.console 30
      (State.start 1) {}).map (fun x => (x.1.error, x.2.output)) = some (none, #["2"]) := by
    decide +kernel
  obtain ⟨⟨⟨s', error⟩, w'⟩, hexec, hx⟩ := Option.map_eq_some_iff.mp hexec
  obtain ⟨rfl, houtput⟩ := Prod.mk.inj hx
  obtain ⟨n, hn⟩ := (hiff _).mpr ⟨30, hexec⟩
  exact ⟨n, s', w', hn, (hend _ _ _ hexec).1, houtput⟩

end LineScript
