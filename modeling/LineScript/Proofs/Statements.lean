/-
Statement lists, and programs in which they are laid out.

A program is a row of lines and nothing more, but most programs are written as if
statements were nested. `Statements` is the tree that such a text spells, and
`Laid` says that a tree is what certain lines of a program hold: the lines of one
list stand at one depth, and every list inside it stands deeper. A lambda's body
counts as a number of lines, since whoever meets the lambda passes over them.

* `Laid.between`: all lines of a list are deeper than any line above the list;
* `Inside`: the places in a list, each with the number of blocks open there;
* `Laid.flow`: from a place inside a list, the searches lead to a place inside it.
-/
import LineScript.Proofs.Search

namespace LineScript

/-- A list of statements. -/
inductive Statements
  /-- The empty list. -/
  | done
  /-- A line without a token. -/
  | blank (rest : Statements)
  /-- A statement on a line of its own. -/
  | line (keyword : Keyword) (args : List String) (rest : Statements)
  /-- A condition with one body. -/
  | branch (args : List String) (body rest : Statements)
  /-- A condition with a second body for the case that it fails. -/
  | fork (args : List String) (body other rest : Statements)
  /-- A loop. -/
  | loop (args : List String) (body rest : Statements)
  /-- A lambda whose body has this many lines. -/
  | lambda (body : Nat) (rest : Statements)
  deriving DecidableEq

namespace Statements

/-- The number of lines that the list takes up. -/
@[simp]
def size : Statements → Nat
  | done => 0
  | blank rest => rest.size + 1
  | line _ _ rest => rest.size + 1
  | branch _ body rest => body.size + rest.size + 2
  | fork _ body other rest => body.size + other.size + rest.size + 3
  | loop _ body rest => body.size + rest.size + 2
  | lambda body rest => body + rest.size + 2

end Statements

/-- The line begins with the keyword, has these tokens after it, and stands at the
depth. -/
def Program.Says (p : Program) (n : Nat) (k : Keyword) (args : List String) (depth : Nat) : Prop :=
  (p.line n).tokens = k.text :: args ∧ p.indent n = depth

instance (p : Program) (n : Nat) (k : Keyword) (args : List String) (depth : Nat) :
    Decidable (p.Says n k args depth) :=
  inferInstanceAs (Decidable (_ ∧ _))

theorem Program.Says.marks {p : Program} {n depth : Nat} {k : Keyword} {args : List String}
    (h : p.Says n k args depth) : (p.line n).marks k depth = true := by
  obtain ⟨htokens, hindent⟩ := h
  rw [SourceLine.marks, SourceLine.keyword?, SourceLine.word?, htokens]
  rw [Program.indent] at hindent
  simp [hindent]

theorem Program.Says.keyword? {p : Program} {n depth : Nat} {k : Keyword} {args : List String}
    (h : p.Says n k args depth) : p.keyword? n = some k :=
  keyword?_of_marks h.marks

/-- The list stands in the program from line `start` on, its own lines at `depth`.
The statements on lines of their own are of the kind `plain`. -/
inductive Laid (p : Program) (plain : Keyword → List String → Prop) :
    (depth start : Nat) → Statements → Prop
  | done {depth start : Nat} : Laid p plain depth start .done
  | blank {depth start : Nat} {rest : Statements} (inProgram : start < p.size)
      (empty : (p.line start).isBlank = true) (next : Laid p plain depth (start + 1) rest) :
      Laid p plain depth start (.blank rest)
  | line {depth start : Nat} {k : Keyword} {args : List String} {rest : Statements}
      (kind : plain k args) (here : p.Says start k args depth)
      (next : Laid p plain depth (start + 1) rest) :
      Laid p plain depth start (.line k args rest)
  | branch {depth start inner : Nat} {args : List String} {body rest : Statements}
      (head : p.Says start .branch args depth) (deeper : depth < inner)
      (inside : Laid p plain inner (start + 1) body)
      (close : (p.line (start + 1 + body.size)).marks .endBranch depth = true)
      (next : Laid p plain depth (start + body.size + 2) rest) :
      Laid p plain depth start (.branch args body rest)
  | fork {depth start inner inner' : Nat} {args : List String} {body other rest : Statements}
      (head : p.Says start .branch args depth) (deeper : depth < inner)
      (inside : Laid p plain inner (start + 1) body)
      (middle : (p.line (start + 1 + body.size)).marks .otherwise depth = true)
      (deeper' : depth < inner') (inside' : Laid p plain inner' (start + body.size + 2) other)
      (close : (p.line (start + body.size + 2 + other.size)).marks .endBranch depth = true)
      (next : Laid p plain depth (start + body.size + other.size + 3) rest) :
      Laid p plain depth start (.fork args body other rest)
  | loop {depth start inner : Nat} {args : List String} {body rest : Statements}
      (head : p.Says start .loop args depth) (deeper : depth < inner)
      (inside : Laid p plain inner (start + 1) body)
      (close : (p.line (start + 1 + body.size)).marks .endLoop depth = true)
      (next : Laid p plain depth (start + body.size + 2) rest) :
      Laid p plain depth start (.loop args body rest)
  | lambda {depth start body : Nat} {rest : Statements}
      (head : (p.line start).marks .lambda depth = true)
      (deeper : p.Between depth (start + 1) (start + 1 + body))
      (close : (p.line (start + 1 + body)).marks .endLambda depth = true)
      (next : Laid p plain depth (start + body + 2) rest) :
      Laid p plain depth start (.lambda body rest)

namespace Laid

open Program

variable {p : Program} {plain : Keyword → List String → Prop} {depth start : Nat}
  {t : Statements}

/-- The lines of a list are empty or deeper than any depth above its own. -/
theorem between (h : Laid p plain depth start t) {above : Nat} (habove : above < depth) :
    p.Between above start (start + t.size) := by
  -- Each list is its head line, its inner lists with their markers, and the rest.
  induction h generalizing above with
  | done => exact fun n hlo hhi => absurd hhi (by simpa using hlo)
  | @blank depth start rest _ hempty _ ih =>
    have hhead : p.Between above start (start + 1) := fun n hlo hhi => by
      obtain rfl : n = start := by omega
      exact .inl hempty
    exact hhead.append (ih habove) (Nat.le_refl _) (by simp; omega)
  | line _ here _ ih =>
    exact (between_of_marks here.marks habove).append (ih habove) (Nat.le_refl _) (by simp; omega)
  | branch head hdeeper _ close _ ihbody ihrest =>
    have hbody := (between_of_marks head.marks habove).append
      (ihbody (Nat.lt_trans habove hdeeper)) (Nat.le_refl _) (Nat.le_refl _)
    have hclose := hbody.append (between_of_marks close habove) (Nat.le_refl _) (Nat.le_refl _)
    exact hclose.append (ihrest habove) (by omega) (by simp; omega)
  | fork head hdeeper _ middle hdeeper' _ close _ ihbody ihother ihrest =>
    have hbody := (between_of_marks head.marks habove).append
      (ihbody (Nat.lt_trans habove hdeeper)) (Nat.le_refl _) (Nat.le_refl _)
    have hmiddle := hbody.append (between_of_marks middle habove) (Nat.le_refl _) (Nat.le_refl _)
    have hother := hmiddle.append (ihother (Nat.lt_trans habove hdeeper')) (by omega)
      (Nat.le_refl _)
    have hclose := hother.append (between_of_marks close habove) (Nat.le_refl _) (Nat.le_refl _)
    exact hclose.append (ihrest habove) (by omega) (by simp; omega)
  | loop head hdeeper _ close _ ihbody ihrest =>
    have hbody := (between_of_marks head.marks habove).append
      (ihbody (Nat.lt_trans habove hdeeper)) (Nat.le_refl _) (Nat.le_refl _)
    have hclose := hbody.append (between_of_marks close habove) (Nat.le_refl _) (Nat.le_refl _)
    exact hclose.append (ihrest habove) (by omega) (by simp; omega)
  | lambda head hdeeper close _ ihrest =>
    have hbody := (between_of_marks head habove).append
      (fun n hlo hhi => (hdeeper n hlo hhi).imp id (Nat.lt_trans habove)) (Nat.le_refl _)
      (Nat.le_refl _)
    have hclose := hbody.append (between_of_marks close habove) (Nat.le_refl _) (Nat.le_refl _)
    exact hclose.append (ihrest habove) (by omega) (by simp; omega)

/-! ### Where the searches lead

From the head of a statement, or from one of its markers, a search finds the next
marker of the same statement: what lies between is deeper. -/

section
variable {inner line : Nat} {k : Keyword} {args : List String}

theorem branchEnd?_eq (h : Laid p plain inner (start + 1) t) (deeper : depth < inner)
    (head : p.Says start .branch args depth) (hk : k = .endBranch ∨ k = .otherwise)
    (close : (p.line (start + 1 + t.size)).marks k depth = true) :
    p.branchEnd? start = some (start + 1 + t.size) :=
  branchEnd?_eq_some (by rw [head.2]; exact h.between deeper) (by rw [head.2]; exact close) hk
    (by omega)

theorem loopEnd?_eq (h : Laid p plain inner (start + 1) t) (deeper : depth < inner)
    (head : p.Says start .loop args depth)
    (close : (p.line (start + 1 + t.size)).marks .endLoop depth = true) :
    p.loopEnd? start = some (start + 1 + t.size) :=
  loopEnd?_eq_some (by rw [head.2]; exact h.between deeper) (by rw [head.2]; exact close)
    (by omega)

theorem loopStart?_eq (h : Laid p plain inner (start + 1) t) (deeper : depth < inner)
    (head : p.Says start .loop args depth)
    (close : (p.line (start + 1 + t.size)).marks .endLoop depth = true) :
    p.loopStart? (start + 1 + t.size) = some start := by
  have hindent := indent_of_marks close
  exact loopStart?_eq_some (by rw [hindent]; exact h.between deeper)
    (by rw [hindent]; exact head.marks) (by omega)

theorem blockEnd?_eq (h : Laid p plain inner (start + 1) t) (deeper : depth < inner)
    (head : (p.line start).marks .otherwise depth = true)
    (close : (p.line (start + 1 + t.size)).marks .endBranch depth = true) :
    p.blockEnd? .endBranch start = some (start + 1 + t.size) := by
  have hindent := indent_of_marks head
  exact blockEnd?_eq_some (by rw [hindent]; exact h.between deeper)
    (by rw [hindent]; exact close) (by omega)

end

end Laid

theorem lambdaEnd?_eq {p : Program} {depth start body : Nat}
    (head : (p.line start).marks .lambda depth = true)
    (deeper : p.Between depth (start + 1) (start + 1 + body))
    (close : (p.line (start + 1 + body)).marks .endLambda depth = true) :
    p.blockEnd? .endLambda start = some (start + 1 + body) := by
  have hindent := Program.indent_of_marks head
  exact Program.blockEnd?_eq_some (by rw [hindent]; exact deeper) (by rw [hindent]; exact close)
    (by omega)


/-! ### Places in a list -/

/-- The line is one of the list that stands from `start` on, or the line after it, and
this many of the blocks inside the list are open there. The line that ends a block is
inside it. The bodies of lambdas are left out. -/
inductive Inside : (start : Nat) → Statements → (line blocks : Nat) → Prop
  | first {start : Nat} {t : Statements} : Inside start t start 0
  | blank {start n k : Nat} {rest : Statements} (there : Inside (start + 1) rest n k) :
      Inside start (.blank rest) n k
  | line {start n k : Nat} {key : Keyword} {args : List String} {rest : Statements}
      (there : Inside (start + 1) rest n k) : Inside start (.line key args rest) n k
  | branchBody {start n k : Nat} {args : List String} {body rest : Statements}
      (there : Inside (start + 1) body n k) : Inside start (.branch args body rest) n (k + 1)
  | branchRest {start n k : Nat} {args : List String} {body rest : Statements}
      (there : Inside (start + body.size + 2) rest n k) : Inside start (.branch args body rest) n k
  | forkBody {start n k : Nat} {args : List String} {body other rest : Statements}
      (there : Inside (start + 1) body n k) : Inside start (.fork args body other rest) n (k + 1)
  | forkOther {start n k : Nat} {args : List String} {body other rest : Statements}
      (there : Inside (start + body.size + 2) other n k) :
      Inside start (.fork args body other rest) n (k + 1)
  | forkRest {start n k : Nat} {args : List String} {body other rest : Statements}
      (there : Inside (start + body.size + other.size + 3) rest n k) :
      Inside start (.fork args body other rest) n k
  | loopBody {start n k : Nat} {args : List String} {body rest : Statements}
      (there : Inside (start + 1) body n k) : Inside start (.loop args body rest) n (k + 1)
  | loopRest {start n k : Nat} {args : List String} {body rest : Statements}
      (there : Inside (start + body.size + 2) rest n k) : Inside start (.loop args body rest) n k
  | lambdaRest {start n k body : Nat} {rest : Statements}
      (there : Inside (start + body + 2) rest n k) : Inside start (.lambda body rest) n k

/-- What stands at a line, and that wherever it may lead is a place of the given kind,
with as many blocks open as there will be. -/
inductive Flow (p : Program) (plain : Keyword → List String → Prop) (place : Nat → Nat → Prop)
    (n k : Nat) : Prop
  | blank (inProgram : n < p.size) (empty : (p.line n).isBlank = true) (next : place (n + 1) k)
  | line {key : Keyword} {args : List String} {depth : Nat} (kind : plain key args)
      (here : p.Says n key args depth) (next : place (n + 1) k)
  | branch {args : List String} {depth last : Nat} (here : p.Says n .branch args depth)
      (past : p.branchEnd? n = some last) (taken : place (n + 1) (k + 1))
      (other : if p.keyword? last = some .otherwise then place (last + 1) (k + 1)
        else place (last + 1) k)
  | otherwise {depth last : Nat} (here : (p.line n).marks .otherwise depth = true) (inside : 0 < k)
      (past : p.blockEnd? .endBranch n = some last) (next : place (last + 1) (k - 1))
  | endBranch {depth : Nat} (here : (p.line n).marks .endBranch depth = true) (inside : 0 < k)
      (next : place (n + 1) (k - 1))
  | loop {args : List String} {depth last : Nat} (here : p.Says n .loop args depth)
      (past : p.loopEnd? n = some last) (taken : place (n + 1) (k + 1)) (next : place (last + 1) k)
  | endLoop {depth head : Nat} (here : (p.line n).marks .endLoop depth = true) (inside : 0 < k)
      (back : p.loopStart? n = some head) (next : place head (k - 1))
  | lambda {depth last : Nat} (here : (p.line n).marks .lambda depth = true)
      (past : p.blockEnd? .endLambda n = some last) (next : place (last + 1) k)

namespace Flow

variable {p : Program} {plain : Keyword → List String → Prop} {place place' : Nat → Nat → Prop}
  {n k : Nat}

/-- Places of a list are places of a list around it, with more blocks open. -/
theorem shift (d : Nat) (h : Flow p plain place n k)
    (hsub : ∀ {n k : Nat}, place n k → place' n (k + d)) : Flow p plain place' n (k + d) := by
  have hsucc : k + 1 + d = k + d + 1 := by omega
  have hpred : 0 < k → k - 1 + d = k + d - 1 := by omega
  cases h with
  | blank inProgram empty next => exact .blank inProgram empty (hsub next)
  | line kind here next => exact .line kind here (hsub next)
  | branch here past taken other =>
    refine .branch here past (hsucc ▸ hsub taken) ?_
    split at other
    · next hk => exact if_pos hk ▸ hsucc ▸ hsub other
    · next hk => exact if_neg hk ▸ hsub other
  | otherwise here inside past next =>
    exact .otherwise here (by omega) past (hpred inside ▸ hsub next)
  | endBranch here inside next => exact .endBranch here (by omega) (hpred inside ▸ hsub next)
  | loop here past taken next => exact .loop here past (hsucc ▸ hsub taken) (hsub next)
  | endLoop here inside back next => exact .endLoop here (by omega) back (hpred inside ▸ hsub next)
  | lambda here past next => exact .lambda here past (hsub next)

theorem mono (h : Flow p plain place n k) (hsub : ∀ {n k : Nat}, place n k → place' n k) :
    Flow p plain place' n k :=
  h.shift 0 hsub

end Flow

theorem Inside.start {start n : Nat} {t : Statements} (hn : n = start) : Inside start t n 0 := by
  subst hn
  exact .first

/-- The line after a list is a place of it. -/
theorem Inside.last {start n : Nat} {t : Statements} (hn : n = start + t.size) :
    Inside start t n 0 := by
  induction t generalizing start with
  | done =>
    subst hn
    exact .first
  | blank rest ih => exact .blank (ih (by simp at hn; omega))
  | line key args rest ih => exact .line (ih (by simp at hn; omega))
  | branch args body rest ihbody ih => exact .branchRest (ih (by simp at hn; omega))
  | fork args body other rest ihbody ihother ih => exact .forkRest (ih (by simp at hn; omega))
  | loop args body rest ihbody ih => exact .loopRest (ih (by simp at hn; omega))
  | lambda body rest ih => exact .lambdaRest (ih (by simp at hn; omega))

/-- From a place in a list, unless it is the line after it, one comes to a place in the
list. -/
theorem Laid.flow {p : Program} {plain : Keyword → List String → Prop} {depth start n k : Nat}
    {t : Statements} (h : Laid p plain depth start t) (hin : Inside start t n k) :
    (n = start + t.size ∧ k = 0) ∨ Flow p plain (Inside start t) n k := by
  induction h generalizing n k with
  | done =>
    cases hin with
    | first => exact .inl ⟨rfl, rfl⟩
  | blank inProgram empty _ ih =>
    cases hin with
    | first => exact .inr (.blank inProgram empty (.blank .first))
    | blank there => exact (ih there).imp (fun h => ⟨by simp; omega, h.2⟩) (·.mono .blank)
  | line kind here _ ih =>
    cases hin with
    | first => exact .inr (.line kind here (.line .first))
    | line there => exact (ih there).imp (fun h => ⟨by simp; omega, h.2⟩) (·.mono .line)
  | @branch _ start _ args body rest head deeper inside close _ ihbody ih =>
    have hend : Inside start (.branch args body rest) (start + 1 + body.size + 1) 0 :=
      .branchRest (.start (by omega))
    cases hin with
    | first =>
      refine .inr (.branch head (inside.branchEnd?_eq deeper head (.inl rfl) close)
        (.branchBody .first) ?_)
      rw [Program.keyword?_of_marks close, if_neg (by decide)]
      exact hend
    | branchBody there =>
      refine .inr ?_
      rcases ihbody there with ⟨rfl, rfl⟩ | hflow
      · exact .endBranch close (by omega) hend
      · exact hflow.shift 1 .branchBody
    | branchRest there =>
      exact (ih there).imp (fun h => ⟨by simp; omega, h.2⟩) (·.mono .branchRest)
  | @fork _ start _ _ args body other rest head deeper inside middle deeper' inside' close _ ihbody
      ihother ih =>
    have hother : Inside start (.fork args body other rest) (start + 1 + body.size + 1) 1 :=
      .forkOther (.start (by omega))
    have hend : Inside start (.fork args body other rest)
        (start + body.size + 2 + other.size + 1) 0 := .forkRest (.start (by omega))
    have hnext : start + 1 + body.size + 1 = start + body.size + 2 := by omega
    cases hin with
    | first =>
      refine .inr (.branch head (inside.branchEnd?_eq deeper head (.inr rfl) middle)
        (.forkBody .first) ?_)
      rw [Program.keyword?_of_marks middle, if_pos rfl]
      exact hother
    | forkBody there =>
      refine .inr ?_
      rcases ihbody there with ⟨rfl, rfl⟩ | hflow
      · -- The line after the first body passes over the second one.
        have hpast := Laid.blockEnd?_eq (hnext ▸ inside') deeper' middle (hnext ▸ close)
        exact .otherwise middle (by omega) hpast (hnext ▸ hend)
      · exact hflow.shift 1 .forkBody
    | forkOther there =>
      refine .inr ?_
      rcases ihother there with ⟨rfl, rfl⟩ | hflow
      · exact .endBranch close (by omega) hend
      · exact hflow.shift 1 .forkOther
    | forkRest there =>
      exact (ih there).imp (fun h => ⟨by simp; omega, h.2⟩) (·.mono .forkRest)
  | @loop _ start _ _ body _ head deeper inside close _ ihbody ih =>
    cases hin with
    | first =>
      exact .inr (.loop head (inside.loopEnd?_eq deeper head close) (.loopBody .first)
        (.loopRest (.start (by omega))))
    | loopBody there =>
      refine .inr ?_
      rcases ihbody there with ⟨rfl, rfl⟩ | hflow
      · -- The line after the body leads back to the head.
        exact .endLoop close (by omega) (inside.loopStart?_eq deeper head close) .first
      · exact hflow.shift 1 .loopBody
    | loopRest there =>
      exact (ih there).imp (fun h => ⟨by simp; omega, h.2⟩) (·.mono .loopRest)
  | @lambda _ start body _ head deeper close _ ih =>
    cases hin with
    | first =>
      exact .inr (.lambda head (lambdaEnd?_eq head deeper close) (.lambdaRest (.start (by omega))))
    | lambdaRest there =>
      exact (ih there).imp (fun h => ⟨by simp; omega, h.2⟩) (·.mono .lambdaRest)

end LineScript
