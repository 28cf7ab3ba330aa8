/-
Which name is suggested for an unknown one, and what this has to do with the order of names.

The search takes the first of the nearest names. The names of a block come in any order, so which
of them is suggested may depend on it, but only where a block has several that are nearest, and
no block before it has one (`Vocabulary.Tied`).

* `FirstNearest.append_cases`: what is found in two lists together is in the first one, or it is
  found in the second one and nearer than all that the first one has;
* `Vocabulary.eq_or_tied`: two orders give the same suggestion, or two names that are tied;
* `Vocabulary.exists_order_of_tied`: each of the tied names is suggested in some order.

An ending of a run knows the names that were in sight, and not their order. `Ending.returns` says
what this comes to for the errors that runs return.
-/
import LineScript.Machine.Run
import LineScript.Proofs.Suggestions

namespace LineScript

namespace Text

variable {name c : String} {p : String → Prop} {l r : List String}

theorem FirstNearest.append_cases (h : FirstNearest name p (l ++ r) c) :
    c ∈ l ∨ FirstNearest name p r c ∧ ∀ x ∈ l, p x → distance name c < distance name x := by
  obtain ⟨before, after, heq, hc, hbefore, hafter⟩ := h
  rcases List.append_eq_append_iff.mp heq with ⟨between, rfl, rfl⟩ | ⟨between, rfl, hrest⟩
  · refine .inr ⟨⟨between, after, rfl, hc, ?_, hafter⟩, ?_⟩
    · exact fun x hx => hbefore x (List.mem_append_right l hx)
    · exact fun x hx => hbefore x (List.mem_append_left between hx)
  · match between, hrest with
    | [], hrest =>
      rw [List.append_nil]
      exact .inr ⟨⟨[], after, hrest.symm, hc, by simp, hafter⟩, hbefore⟩
    | y :: between, hrest =>
      obtain ⟨rfl, -⟩ := List.cons.inj hrest
      exact .inl (by simp)

end Text

open Text

/-! ### Orders -/

namespace NameOrder

theorem perm_listFrom (order : NameOrder) (n : Nat) (blocks : List (List String)) :
    (order.listFrom n blocks).Perm blocks.flatten := by
  induction blocks generalizing n with
  | nil => exact .refl _
  | cons names rest ih => exact (order.perm n names).append (ih (n + 1))

theorem mem_listFrom_append {order : NameOrder} {n : Nat} {blocks : List (List String)}
    {functions : List String} {x : String} :
    x ∈ order.listFrom n blocks ++ functions ↔ x ∈ blocks.flatten ++ functions := by
  rw [List.mem_append, List.mem_append, (order.perm_listFrom n blocks).mem_iff]

theorem listFrom_append (order : NameOrder) (n : Nat) (outer rest : List (List String)) :
    order.listFrom n (outer ++ rest) =
      order.listFrom n outer ++ order.listFrom (n + outer.length) rest := by
  induction outer generalizing n with
  | nil => rfl
  | cons names outer ih =>
    rw [List.cons_append, listFrom, listFrom, ih, List.append_assoc, List.length_cons,
      Nat.add_assoc, Nat.add_comm 1]

/-- A name comes first in every block that has it, and the others as they were made. -/
def favouring (name : String) : NameOrder where
  list _ names := if name ∈ names then name :: names.erase name else names
  perm _ names := by
    split
    · next hmem => exact (List.perm_cons_erase hmem).symm
    · exact .refl _

end NameOrder

/-! ### Suggestions -/

namespace Vocabulary

variable {v : Vocabulary} {name a b x : String} {order order' : NameOrder}

/-- The names of the variables and of the functions. -/
def names (v : Vocabulary) : List String := v.blocks.flatten ++ v.functions

/-- The name may be suggested for the unknown one, and none of those that may is nearer. -/
structure Nearest (v : Vocabulary) (name x : String) : Prop where
  considered : Considered name suggestionThreshold x
  least : ∀ y ∈ v.names, Considered name suggestionThreshold y → distance name x ≤ distance name y

/-- Both names stand in one block and are nearest to the unknown one, and no name of the blocks
before is. -/
def Tied (v : Vocabulary) (name a b : String) : Prop :=
  ∃ outer block inner, v.blocks = outer ++ block :: inner ∧ a ∈ block ∧ b ∈ block ∧
    v.Nearest name a ∧ v.Nearest name b ∧ ∀ names ∈ outer, ∀ x ∈ names, ¬ v.Nearest name x

theorem mem_listed : x ∈ v.listed order ↔ x ∈ v.names := NameOrder.mem_listFrom_append

theorem answers_suggestion? (v : Vocabulary) (order : NameOrder) (name : String) :
    Answers name (Considered name suggestionThreshold) (v.listed order)
      (v.suggestion? order name) :=
  answers_nearest? name (v.listed order) suggestionThreshold

theorem firstNearest_of_suggestion? (h : v.suggestion? order name = some a) :
    FirstNearest name (Considered name suggestionThreshold) (v.listed order) a := by
  have hanswers := v.answers_suggestion? order name
  rw [h] at hanswers
  exact hanswers

theorem nearest_of_suggestion? (h : v.suggestion? order name = some a) : v.Nearest name a where
  considered := (firstNearest_of_suggestion? h).holds
  least := fun _ hy => (firstNearest_of_suggestion? h).le (mem_listed.mpr hy)

/-- Whether there is a suggestion does not depend on the order. -/
theorem suggestion?_eq_none_iff :
    v.suggestion? order name = none ↔
      ∀ x ∈ v.names, ¬ Considered name suggestionThreshold x := by
  have hanswers := v.answers_suggestion? order name
  constructor
  · intro h x hx
    rw [h] at hanswers
    exact hanswers x (mem_listed.mpr hx)
  · intro hnone
    have hempty : Answers name (Considered name suggestionThreshold) (v.listed order) none :=
      fun x hx => hnone x (mem_listed.mp hx)
    exact hanswers.unique hempty

/-- What is found first in two orders is the same name, or two of one block. -/
theorem eq_or_same_block {p : String → Prop} {n : Nat} {blocks : List (List String)}
    {functions : List String} (ha : FirstNearest name p (order.listFrom n blocks ++ functions) a)
    (hb : FirstNearest name p (order'.listFrom n blocks ++ functions) b) :
    a = b ∨ ∃ outer block inner, blocks = outer ++ block :: inner ∧ a ∈ block ∧ b ∈ block ∧
      ∀ names ∈ outer, ∀ x ∈ names, p x → distance name a < distance name x := by
  have hle := ha.le (NameOrder.mem_listFrom_append.mpr (NameOrder.mem_listFrom_append.mp hb.mem))
    hb.holds
  have hge := hb.le (NameOrder.mem_listFrom_append.mpr (NameOrder.mem_listFrom_append.mp ha.mem))
    ha.holds
  induction blocks generalizing n with
  | nil => exact .inl (ha.unique hb)
  | cons names rest ih =>
    have hnames : ∀ {o : NameOrder} {x : String}, x ∈ o.list n names ↔ x ∈ names :=
      fun {o} => (o.perm n names).mem_iff
    rw [NameOrder.listFrom, List.append_assoc] at ha hb
    rcases ha.append_cases with hain | ⟨harest, habefore⟩
    · rcases hb.append_cases with hbin | ⟨-, hbbefore⟩
      · exact .inr ⟨[], names, rest, rfl, hnames.mp hain, hnames.mp hbin, by simp⟩
      · have := hbbefore a (hnames.mpr (hnames.mp hain)) ha.holds
        omega
    · rcases hb.append_cases with hbin | ⟨hbrest, -⟩
      · have := habefore b (hnames.mpr (hnames.mp hbin)) hb.holds
        omega
      · -- Neither is in the first block, which has nothing as near.
        rcases ih harest hbrest with
          heq | ⟨outer, block, inner, rfl, hablock, hbblock, houter⟩
        · exact .inl heq
        · refine .inr ⟨names :: outer, block, inner, rfl, hablock, hbblock, ?_⟩
          rw [List.forall_mem_cons]
          exact ⟨fun x hx => habefore x (hnames.mpr hx), houter⟩

/-- Two orders give the same suggestion, or two names that are tied. -/
theorem eq_or_tied (v : Vocabulary) (order order' : NameOrder) (name : String) :
    v.suggestion? order name = v.suggestion? order' name ∨
      ∃ a b, v.suggestion? order name = some a ∧ v.suggestion? order' name = some b ∧
        v.Tied name a b := by
  cases ha : v.suggestion? order name with
  | none =>
    left
    exact (suggestion?_eq_none_iff.mpr (suggestion?_eq_none_iff.mp ha)).symm
  | some a =>
    cases hb : v.suggestion? order' name with
    | none =>
      rw [suggestion?_eq_none_iff.mpr (suggestion?_eq_none_iff.mp hb)] at ha
      cases ha
    | some b =>
      have hnearest := nearest_of_suggestion? ha
      rcases eq_or_same_block (firstNearest_of_suggestion? ha) (firstNearest_of_suggestion? hb) with
        rfl | ⟨outer, block, inner, hblocks, hablock, hbblock, houter⟩
      · exact .inl rfl
      · refine .inr ⟨a, b, rfl, rfl, outer, block, inner, hblocks, hablock, hbblock, hnearest,
          nearest_of_suggestion? hb, ?_⟩
        intro names hnames x hx hxnearest
        have hless := houter names hnames x hx hxnearest.considered
        have hmem : a ∈ v.names := mem_listed.mp (firstNearest_of_suggestion? ha).mem
        have := hxnearest.least a hmem hnearest.considered
        omega

/-- Each of the tied names is suggested in some order. -/
theorem exists_order_of_tied (h : v.Tied name a b) :
    ∃ order, v.suggestion? order name = some a := by
  obtain ⟨outer, block, inner, hblocks, ha, -, hnearest, -, houter⟩ := h
  suffices hfirst : FirstNearest name (Considered name suggestionThreshold)
      (v.listed (.favouring a)) a from
    ⟨.favouring a, (v.answers_suggestion? _ name).unique hfirst⟩
  refine ⟨(NameOrder.favouring a).listFrom 0 outer, block.erase a ++
    (NameOrder.favouring a).listFrom (0 + outer.length + 1) inner ++ v.functions, ?_,
    hnearest.considered, ?_, ?_⟩
  · have hfirst : (NameOrder.favouring a).list (0 + outer.length) block = a :: block.erase a :=
      if_pos ha
    rw [listed, hblocks, NameOrder.listFrom_append, NameOrder.listFrom, hfirst]
    simp
  · intro x hx hconsidered
    obtain ⟨names, hnames, hx⟩ := List.mem_flatten.mp
      ((NameOrder.perm_listFrom _ 0 outer).mem_iff.mp hx)
    -- Else it would be nearest too, and in a block before.
    by_contra hfar
    refine houter names hnames x hx ⟨hconsidered, fun y hy hy' => ?_⟩
    exact Nat.le_trans (Nat.le_of_not_lt hfar) (hnearest.least y hy hy')
  · intro x hx
    refine hnearest.least x ?_
    have hinner := (NameOrder.favouring a).perm_listFrom (0 + outer.length + 1) inner
    rw [List.mem_append, List.mem_append, hinner.mem_iff] at hx
    rw [names, hblocks, List.flatten_append, List.flatten_cons]
    rcases hx with (hx | hx) | hx
    · have := List.mem_of_mem_erase hx
      simp [this]
    · simp [hx]
    · simp [hx]

end Vocabulary

/-! ### Errors of runs -/

/-- The wording of an error is the same in two orders, or it suggests names that are tied. -/
theorem Cause.diagnostic_eq_or_tied (c : Cause) (order order' : NameOrder) :
    c.diagnostic order = c.diagnostic order' ∨
      ∃ name known a b, c = .unknownVariable name known ∧ known.suggestion? order name = some a ∧
        known.suggestion? order' name = some b ∧ known.Tied name a b := by
  cases c with
  | unknownVariable name known =>
    rcases known.eq_or_tied order order' name with hsame | ⟨a, b, ha, hb, htied⟩
    · left
      simp only [diagnostic, hsame]
    · exact .inr ⟨name, known, a, b, rfl, ha, hb, htied⟩
  | _ => exact .inl rfl

/-- The error that suggests a name for an unknown variable. -/
def suggesting (name suggestion : String) (line : Option Nat) : Diagnostic :=
  { Diagnostic.unknownVariable name (suggestionHint (some suggestion)) with line }

theorem Failure.diagnostic_eq_suggesting {name a : String} {known : Vocabulary}
    {line : Option Nat} {order : NameOrder} (h : known.suggestion? order name = some a) :
    Failure.diagnostic ⟨.unknownVariable name known, line⟩ order = suggesting name a line := by
  cases line with
  | none => simp only [diagnostic, Cause.diagnostic, h, suggesting, Diagnostic.unknownVariable]
  | some line =>
    simp only [diagnostic, Cause.diagnostic, h, suggesting, Diagnostic.unknownVariable,
      Diagnostic.atLine, Option.getD_none]

/-- What two runs may return that come to this end, each with an order of names of its own: the
same error or none, or that a variable is unknown, with suggestions that are tied. -/
inductive Ending.Returns (e : Ending) : Option Diagnostic → Option Diagnostic → Prop
  | same (error : Option Diagnostic) : Returns e error error
  | tied {name a b : String} {known : Vocabulary} {line : Option Nat}
      (here : e = .failed ⟨.unknownVariable name known, line⟩) (tied : known.Tied name a b) :
      Returns e (some (suggesting name a line)) (some (suggesting name b line))

/-- Whatever the orders of names, two runs that come to the same end return the same error, but for
suggestions that are tied. -/
theorem Ending.returns (e : Ending) (order order' : NameOrder) :
    e.Returns (e.error? order) (e.error? order') := by
  cases e with
  | finished => exact .same none
  | unfinished => exact .same none
  | failed failure =>
    obtain ⟨cause, line⟩ := failure
    rw [error?_failed, error?_failed]
    rcases cause.diagnostic_eq_or_tied order order' with
      hsame | ⟨name, known, a, b, rfl, ha, hb, htied⟩
    · have heq : Failure.diagnostic ⟨cause, line⟩ order =
          Failure.diagnostic ⟨cause, line⟩ order' := by
        rw [Failure.diagnostic, Failure.diagnostic, hsame]
      rw [heq]
      exact .same _
    · rw [Failure.diagnostic_eq_suggesting ha, Failure.diagnostic_eq_suggesting hb]
      exact .tied rfl htied

/-- Nothing less can be said: each of the names that are tied is in the error of some run. -/
theorem Ending.exists_error_of_tied {name a b : String} {known : Vocabulary} (line : Option Nat)
    (h : known.Tied name a b) : ∃ order,
      (Ending.failed ⟨.unknownVariable name known, line⟩).error? order =
        some (suggesting name a line) := by
  obtain ⟨order, hsuggestion⟩ := known.exists_order_of_tied h
  exact ⟨order, congrArg some (Failure.diagnostic_eq_suggesting hsuggestion)⟩

end LineScript
