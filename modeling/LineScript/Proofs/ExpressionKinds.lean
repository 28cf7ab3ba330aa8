/-
The kinds of expressions.

The kind of an expression can be told from the kinds of its operands: an operator is defined for
two operands of one kind, and it gives a value of this kind or a truth value. `Tree.kind?` infers
it so, bottom up, and evaluates nothing.

Evaluation keeps to what is inferred (`Meets`): a tree that has a kind comes to a value of this
kind, unless a computation on integers fails; a tree without a kind never comes to a value, and
it is refused for its kinds, unless such a computation fails before. The proof goes through the
tables of the operators once (`meets_binary`, `meets_negate`) and then over the tree
(`meets_value`). `eval_meets_kind` says it of the prefix form.
-/
import LineScript.Proofs.PrefixForm

namespace LineScript

/-! ### Kinds of operators -/

/-- The kind of what the operator computes from operands of these kinds. -/
def BinaryOp.kind? (op : BinaryOp) (left right : Kind) : Option Kind :=
  if left = right ∧ op.supports left = true then some (if op.isArithmetic then left else .bool)
  else none

/-- The kind of the negation of a value of the kind. -/
def Kind.negated? : Kind → Option Kind
  | .bool => some .bool
  | _ => none

/-- What a computation may come to when this kind is inferred for it: a value of the kind; with
no kind, an error about kinds; in any case, a fault. -/
inductive Meets : Option Kind → Except Cause Value → Prop
  | value {k : Kind} {v : Value} (kind : v.kind = k) : Meets (some k) (.ok v)
  | refused {cause : Cause} (typing : cause.kind = .typing) : Meets none (.error cause)
  | fault {k? : Option Kind} {cause : Cause} (fault : cause.kind = .fault) : Meets k? (.error cause)

/-- One computation after the other, where the kind of the second one depends on that of the
first one's value. -/
theorem Meets.bind {k? : Option Kind} {x : Except Cause Value} {g : Kind → Option Kind}
    {f : Value → Except Cause Value} (hx : Meets k? x) (hf : ∀ v, Meets (g v.kind) (f v)) :
    Meets (k?.bind g) (x.bind f) := by
  cases hx with
  | value kind =>
    subst kind
    exact hf _
  | refused typing => exact .refused typing
  | fault fault => exact .fault fault

namespace Arithmetic

theorem meets_fit (op : BinaryOp) (n : Int) : Meets (some .int) ((fit op n).map .int) := by
  rw [fit]
  split
  · exact .value rfl
  · exact .fault rfl

/-- An operator that is defined for integers gives an integer if it is arithmetic, and compares
them if it is not. -/
theorem meets_onInts {op : BinaryOp} (h : op.supports .int = true) (a b : Int64) :
    Meets (some (if op.isArithmetic then .int else .bool)) (onInts op a b) := by
  cases op with
  | add | sub | mul => exact meets_fit _ _
  | div =>
    show Meets (some .int) ((floorDiv a b).map .int)
    rw [floorDiv]
    split
    · exact .fault rfl
    · split
      · exact .fault rfl
      · exact .value rfl
  | rem =>
    show Meets (some .int) ((floorRem a b).map .int)
    rw [floorRem]
    split
    · exact .fault rfl
    · exact .value rfl
  | eq | ne | lt | le | gt | ge => exact .value rfl
  | and | or => cases h

theorem kind_onStrings {op : BinaryOp} (h : op.supports .str = true) (a b : String) :
    (onStrings op a b).kind = if op.isArithmetic then .str else .bool := by
  cases op with
  | add | eq | ne | lt | le | gt | ge => rfl
  | sub | mul | div | rem | and | or => cases h

theorem not_isArithmetic_of_supports_bool {op : BinaryOp} (h : op.supports .bool = true) :
    op.isArithmetic = false := by
  cases op with
  | and | or | eq | ne => rfl
  | add | sub | mul | div | rem | lt | le | gt | ge => cases h

/-- An operator keeps to the kind that is inferred for it. -/
theorem meets_binary (op : BinaryOp) (a b : Value) :
    Meets (op.kind? a.kind b.kind) (binary op a b) := by
  rw [BinaryOp.kind?]
  by_cases hkinds : a.kind = b.kind
  · by_cases hsupports : op.supports a.kind = true
    · have hdefined : ¬(!op.supports a.kind) = true := by simp [hsupports]
      rw [if_pos ⟨hkinds, hsupports⟩, binary.eq_def, if_neg (not_not.mpr hkinds),
        if_neg hdefined]
      -- The operands have one kind, so only the pairs of equal kinds are left.
      cases a with
      | int x =>
        cases b with
        | int y => exact meets_onInts hsupports x y
        | bool | str | void | func | object => cases hkinds
      | str x =>
        cases b with
        | str y => exact .value (kind_onStrings hsupports x y)
        | int | bool | void | func | object => cases hkinds
      | bool x =>
        cases b with
        | bool y =>
          refine .value ?_
          rw [not_isArithmetic_of_supports_bool hsupports]
          rfl
        | int | str | void | func | object => cases hkinds
      | void | func | object => cases op <;> cases hsupports
    · rw [if_neg fun h => hsupports h.2, binary.eq_def, if_neg (not_not.mpr hkinds),
        if_pos (by simpa using hsupports)]
      exact .refused rfl
  · rw [if_neg fun h => hkinds h.1, binary.eq_def, if_pos hkinds]
    exact .refused rfl

theorem meets_negate (v : Value) : Meets v.kind.negated? (negate v) := by
  cases v with
  | bool b => exact .value rfl
  | int | str | void | func | object => exact .refused rfl

end Arithmetic

/-! ### Kinds of trees -/

namespace Expression

namespace Tree

/-- The operands of a tree, from left to right. -/
def operands : Tree → List OperandToken
  | operand token => [token]
  | negation t => t.operands
  | operation _ left right => left.operands ++ right.operands

/-- The kind of a tree, inferred from the kinds of its operands. -/
def kind? (of : OperandToken → Option Kind) : Tree → Option Kind
  | operand token => of token
  | negation t => do
    let k ← t.kind? of
    k.negated?
  | operation op left right => do
    let r ← right.kind? of
    let l ← left.kind? of
    op.kind? l r

end Tree

variable {img : Image} {s : State}

/-- The kind of the value that an operand has in a state. -/
def operandKind? (img : Image) (s : State) (token : OperandToken) : Option Kind :=
  (Operand.resolve img s token.text).toOption.map Value.kind

/-- A tree whose operands have values keeps to the kind that is inferred for it. -/
theorem meets_value {t : Tree}
    (h : ∀ token ∈ t.operands, ∃ v, Operand.resolve img s token.text = .ok v) :
    Meets (t.kind? (operandKind? img s)) (t.value img s) := by
  induction t with
  | operand token =>
    obtain ⟨v, hv⟩ := h token List.mem_cons_self
    rw [Tree.kind?, Tree.value, operandKind?, hv]
    exact .value rfl
  | negation t ih => exact (ih h).bind Arithmetic.meets_negate
  | operation op left right ihleft ihright =>
    have hleft := ihleft fun token htoken => h token (List.mem_append_left _ htoken)
    have hright := ihright fun token htoken => h token (List.mem_append_right _ htoken)
    -- The right operand is evaluated first, so its kind is the first to matter.
    exact hright.bind fun b => hleft.bind fun a => Arithmetic.meets_binary op a b

/-- Evaluation is sound for kinds. Take tokens in prefix form whose operands all have values. If
a kind can be inferred for their tree, then evaluating them gives a value of this kind or a
fault; if none can be, then it gives an error about kinds or a fault, and never a value. -/
theorem eval_meets_kind (img : Image) (s : State) (tokens : List String) (t : Tree)
    (hform : t.tokens = tokens)
    (hoperands : ∀ token ∈ t.operands, ∃ v, Operand.resolve img s token.text = .ok v) :
    (∀ k, t.kind? (operandKind? img s) = some k →
      (∃ v, eval img s tokens = .ok v ∧ v.kind = k) ∨
        ∃ cause, eval img s tokens = .error cause ∧ cause.kind = .fault) ∧
    (t.kind? (operandKind? img s) = none →
      ∃ cause, eval img s tokens = .error cause ∧
        (cause.kind = .typing ∨ cause.kind = .fault)) := by
  subst hform
  have hmeets := meets_value hoperands
  rw [eval_tokens]
  generalize t.kind? (operandKind? img s) = inferred at hmeets
  generalize t.value img s = result at hmeets
  cases hmeets with
  | @value k v kind =>
    refine ⟨?_, nofun⟩
    intro k' hk'
    exact .inl ⟨v, rfl, kind.trans (Option.some.inj hk')⟩
  | @refused cause typing => exact ⟨nofun, fun _ => ⟨cause, rfl, .inl typing⟩⟩
  | @fault _ cause fault =>
    exact ⟨fun _ _ => .inr ⟨cause, rfl, fault⟩, fun _ => ⟨cause, rfl, .inr fault⟩⟩

/-- The tree of `< + 9223372036854775807 1 0`. -/
def largeSum : Tree :=
  .operation .lt
    (.operation .add (.operand ⟨"9223372036854775807", rfl, by decide⟩)
      (.operand ⟨"1", rfl, by decide⟩))
    (.operand ⟨"0", rfl, by decide⟩)

/-- The tree of `+ ! true 1`. -/
def mixedSum : Tree :=
  .operation .add (.negation (.operand ⟨"true", rfl, by decide⟩)) (.operand ⟨"1", rfl, by decide⟩)

/-- A comparison of a sum has the kind of truth values, and it has none of them when the sum is
too large; a truth value and a number have no sum. -/
theorem eval_meets_kind_sums :
    largeSum.kind? (operandKind? (.ofProgram (.ofLines [])) {}) = some .bool ∧
    (∃ cause, eval (.ofProgram (.ofLines [])) {} ["<", "+", "9223372036854775807", "1", "0"] =
      .error cause ∧ cause.kind = .fault) ∧
    mixedSum.kind? (operandKind? (.ofProgram (.ofLines [])) {}) = none ∧
    ∃ cause, eval (.ofProgram (.ofLines [])) {} ["+", "!", "true", "1"] = .error cause ∧
      (cause.kind = .typing ∨ cause.kind = .fault) := by
  have hlarge : largeSum.kind? (operandKind? (.ofProgram (.ofLines [])) {}) = some .bool := by
    decide +kernel
  have hmixed : mixedSum.kind? (operandKind? (.ofProgram (.ofLines [])) {}) = none := by
    decide +kernel
  have hnumbers : ∀ token ∈ largeSum.operands,
      ∃ v, Operand.resolve (.ofProgram (.ofLines [])) {} token.text = .ok v := by
    intro token htoken
    simp only [largeSum, Tree.operands, List.cons_append, List.nil_append, List.mem_cons,
      List.not_mem_nil, or_false] at htoken
    rcases htoken with rfl | rfl | rfl
    · exact ⟨.int 9223372036854775807, by decide +kernel⟩
    · exact ⟨.int 1, by decide +kernel⟩
    · exact ⟨.int 0, by decide +kernel⟩
  have hboth : ∀ token ∈ mixedSum.operands,
      ∃ v, Operand.resolve (.ofProgram (.ofLines [])) {} token.text = .ok v := by
    intro token htoken
    simp only [mixedSum, Tree.operands, List.cons_append, List.nil_append, List.mem_cons,
      List.not_mem_nil, or_false] at htoken
    rcases htoken with rfl | rfl
    · exact ⟨.bool true, by decide +kernel⟩
    · exact ⟨.int 1, by decide +kernel⟩
  refine ⟨hlarge, ?_, hmixed, (eval_meets_kind _ _ _ mixedSum rfl hboth).2 hmixed⟩
  rcases (eval_meets_kind _ _ _ largeSum rfl hnumbers).1 .bool hlarge with ⟨v, hv, -⟩ | hfault
  · have hnone : (eval (.ofProgram (.ofLines [])) {} largeSum.tokens).isOk = false := by
      decide +kernel
    rw [hv] at hnone
    cases hnone
  · exact hfault

end Expression
end LineScript
