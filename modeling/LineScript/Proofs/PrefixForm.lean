/-
Expressions as trees.

An expression is written in prefix form: `Tree.tokens` writes a tree down, operator first.
The machine knows no trees, it takes the tokens from right to left onto a stack. The two
agree:

* `stack_tokens`: behind the tokens of a tree, the stack holds the value of the tree on top
  of what it held before, or there is the error that evaluating the tree gives;
* `exists_trees_of_stack`: tokens that leave `n` values are the tokens of `n` trees;
* `tokens_append_inj`: a tree is known by its tokens, whatever follows them.

`eval_of_prefix_form` puts them together. The value of a tree is found from right to left as
well, so that of several errors the same one is told.
-/
import LineScript.Machine.Expression
import LineScript.Proofs.Loading

namespace LineScript

theorem BinaryOp.text_of_ofToken? {token : String} {op : BinaryOp}
    (h : BinaryOp.ofToken? token = some op) : op.text = token := by
  unfold BinaryOp.ofToken? at h
  split at h <;> cases h <;> rfl

theorem BinaryOp.text_ne_negationToken (op : BinaryOp) : op.text ≠ negationToken := by
  cases op <;> decide

namespace Expression

/-! ### Trees -/

/-- A token that is no operator. -/
structure OperandToken where
  text : String
  not_binary : BinaryOp.ofToken? text = none
  not_negation : text ≠ negationToken

/-- An expression with its structure. -/
inductive Tree
  | operand (token : OperandToken)
  | negation (t : Tree)
  | operation (op : BinaryOp) (left right : Tree)

namespace Tree

/-- The prefix form of a tree. -/
def tokens : Tree → List String
  | operand token => [token.text]
  | negation t => negationToken :: t.tokens
  | operation op left right => op.text :: (left.tokens ++ right.tokens)

/-- The value of a tree: that of the right operand is found before that of the left one, and
both before the operator is applied. -/
def value (img : Image) (s : State) : Tree → Except Cause Value
  | operand token => Operand.resolve img s token.text
  | negation t => do
    let v ← t.value img s
    Arithmetic.negate v
  | operation op left right => do
    let b ← right.value img s
    let a ← left.value img s
    Arithmetic.binary op a b

/-- No prefix form begins another one, so the tokens of a tree end where the tree does. -/
theorem tokens_append_inj {t t' : Tree} {rest rest' : List String}
    (h : t.tokens ++ rest = t'.tokens ++ rest') : t = t' ∧ rest = rest' := by
  induction t generalizing t' rest rest' with
  | operand token =>
    cases t' with
    | operand token' =>
      obtain ⟨text, _, _⟩ := token
      obtain ⟨text', _, _⟩ := token'
      simp only [tokens, List.cons_append, List.nil_append, List.cons.injEq] at h
      obtain ⟨rfl, hrest⟩ := h
      exact ⟨rfl, hrest⟩
    | negation t' => exact absurd (List.cons.inj h).1 token.not_negation
    | operation op left' right' =>
      have hop := token.not_binary
      rw [(List.cons.inj h).1, BinaryOp.ofToken?_text] at hop
      cases hop
  | negation t ih =>
    cases t' with
    | operand token' => exact absurd (List.cons.inj h).1.symm token'.not_negation
    | negation t' =>
      obtain ⟨rfl, hrest⟩ := ih (List.cons.inj h).2
      exact ⟨rfl, hrest⟩
    | operation op left' right' =>
      exact absurd (List.cons.inj h).1.symm op.text_ne_negationToken
  | operation op left right ihleft ihright =>
    cases t' with
    | operand token' =>
      have hop := token'.not_binary
      rw [← (List.cons.inj h).1, BinaryOp.ofToken?_text] at hop
      cases hop
    | negation t' => exact absurd (List.cons.inj h).1 op.text_ne_negationToken
    | operation op' left' right' =>
      simp only [tokens, List.cons_append, List.append_assoc, List.cons.injEq] at h
      obtain ⟨hop, hoperands⟩ := h
      have hsame : some op = some op' := by
        rw [← BinaryOp.ofToken?_text op, hop, BinaryOp.ofToken?_text]
      cases hsame
      -- The left operand ends where the right one begins, by the same argument.
      obtain ⟨rfl, hright⟩ := ihleft hoperands
      obtain ⟨rfl, hrest⟩ := ihright hright
      exact ⟨rfl, hrest⟩

theorem tokens_injective : Function.Injective tokens := by
  intro t t' h
  have hnothing : t.tokens ++ [] = t'.tokens ++ [] := by rw [h]
  exact (tokens_append_inj hnothing).1

end Tree

/-! ### The stack -/

variable {img : Image} {s : State} {tokens : List String} {values : List Value}

theorem push_binary (op : BinaryOp) (a b : Value) :
    push img s op.text (a :: b :: values) = (Arithmetic.binary op a b).map (· :: values) := by
  simp [push]

theorem push_negation (v : Value) :
    push img s negationToken (v :: values) = (Arithmetic.negate v).map (· :: values) := by
  rfl

theorem push_operand (token : OperandToken) :
    push img s token.text values = (Operand.resolve img s token.text).map (· :: values) := by
  simp [push, token.not_binary, token.not_negation]

/-- The tokens of a tree put its value on top of the stack that the tokens after them leave.
What comes later in the line is evaluated first, so its error is told first. -/
theorem stack_tokens (t : Tree) (rest : List String) :
    stack img s (t.tokens ++ rest) =
      (stack img s rest).bind fun values => (t.value img s).map (· :: values) := by
  induction t generalizing rest with
  | operand token =>
    show (stack img s rest).bind (push img s token.text) = _
    congr 1
    funext values
    exact push_operand token
  | negation t ih =>
    show (stack img s (t.tokens ++ rest)).bind (push img s negationToken) = _
    rw [ih]
    cases stack img s rest with
    | error cause => rfl
    | ok values =>
      cases ht : t.value img s with
      | error cause => simp [Tree.value, ht, Except.bind, Except.map, bind]
      | ok v => simp [Tree.value, ht, Except.bind, Except.map, bind, push_negation]
  | operation op left right ihleft ihright =>
    show (stack img s (left.tokens ++ right.tokens ++ rest)).bind (push img s op.text) = _
    rw [List.append_assoc, ihleft, ihright]
    cases stack img s rest with
    | error cause => rfl
    | ok values =>
      cases hright : right.value img s with
      | error cause => simp [Tree.value, hright, Except.bind, Except.map, bind]
      | ok b =>
        cases hleft : left.value img s with
        | error cause => simp [Tree.value, hright, hleft, Except.bind, Except.map, bind]
        | ok a => simp [Tree.value, hright, hleft, Except.bind, Except.map, bind, push_binary]

/-- The prefix form of a tree has the value of the tree, or its error. -/
theorem eval_tokens (t : Tree) : eval img s t.tokens = t.value img s := by
  have hstack : stack img s t.tokens = (t.value img s).map fun v => [v] := by
    rw [← List.append_nil t.tokens, stack_tokens]
    rfl
  rw [eval, hstack]
  cases t.value img s <;> rfl

/-- A token takes the values of its operands off the stack and puts one value there. So it
stands before the trees of its operands and makes one tree of them. -/
theorem exists_tree_of_push {token : String} {values' : List Value} {trees : List Tree}
    (h : push img s token values = .ok values') (hlength : trees.length = values.length) :
    ∃ trees' : List Tree, token :: trees.flatMap Tree.tokens = trees'.flatMap Tree.tokens ∧
      trees'.length = values'.length := by
  unfold push at h
  split at h
  · next op hop =>
    obtain rfl := BinaryOp.text_of_ofToken? hop
    split at h
    · next a b values =>
      obtain ⟨v, -, rfl⟩ := Except.map_eq_ok_iff.mp h
      match trees, hlength with
      | left :: right :: trees, hlength =>
        refine ⟨.operation op left right :: trees, ?_, by simpa using hlength⟩
        simp [Tree.tokens]
    · cases h
  · next hop =>
    split at h
    · next hnegation =>
      subst hnegation
      split at h
      · next v values =>
        obtain ⟨v', -, rfl⟩ := Except.map_eq_ok_iff.mp h
        match trees, hlength with
        | t :: trees, hlength =>
          refine ⟨.negation t :: trees, ?_, by simpa using hlength⟩
          simp [Tree.tokens]
      · cases h
    · next hnegation =>
      obtain ⟨v, -, rfl⟩ := Except.map_eq_ok_iff.mp h
      refine ⟨.operand ⟨token, hop, hnegation⟩ :: trees, ?_, by simpa using hlength⟩
      simp [Tree.tokens]

/-- Tokens that leave so many values on the stack are the tokens of so many trees. -/
theorem exists_trees_of_stack (h : stack img s tokens = .ok values) :
    ∃ trees : List Tree, tokens = trees.flatMap Tree.tokens ∧ trees.length = values.length := by
  induction tokens generalizing values with
  | nil =>
    cases h
    exact ⟨[], rfl, rfl⟩
  | cons token rest ih =>
    obtain ⟨values₀, hrest, hpush⟩ := Except.bind_eq_ok_iff.mp h
    obtain ⟨trees, rfl, hlength⟩ := ih hrest
    exact exists_tree_of_push hpush hlength

theorem exists_tree_of_eval {v : Value} (h : eval img s tokens = .ok v) :
    ∃ t : Tree, t.tokens = tokens := by
  rw [eval] at h
  split at h
  · cases h
  · next hstack =>
    obtain ⟨trees, rfl, hlength⟩ := exists_trees_of_stack hstack
    obtain ⟨t, rfl⟩ := List.length_eq_one_iff.mp hlength
    exact ⟨t, by simp⟩
  · cases h

/-- Expressions are trees. Tokens that are the prefix form of a tree are so of this tree only,
and evaluating them gives what evaluating the tree gives, a value or an error. Tokens that are
no prefix form have no value. -/
theorem eval_of_prefix_form (img : Image) (s : State) (tokens : List String) :
    (∀ t : Tree, t.tokens = tokens →
      eval img s tokens = t.value img s ∧ ∀ t' : Tree, t'.tokens = tokens → t' = t) ∧
    ((¬∃ t : Tree, t.tokens = tokens) → ∃ cause, eval img s tokens = .error cause) := by
  constructor
  · intro t ht
    subst ht
    refine ⟨eval_tokens t, ?_⟩
    intro t' ht'
    exact Tree.tokens_injective ht'
  · intro hnone
    cases heval : eval img s tokens with
    | error cause => exact ⟨cause, rfl⟩
    | ok v => exact absurd (exists_tree_of_eval heval) hnone

/-- The tree of `- x y`. -/
def difference (x y : OperandToken) : Tree := .operation .sub (.operand x) (.operand y)

/-- The first operand is the one that is subtracted from; of two unknown names the second is
told; and with a third operand there is no value. -/
theorem eval_of_prefix_form_difference :
    eval (.ofProgram (.ofLines [])) {} ["-", "7", "2"] = .ok (.int 5) ∧
    eval (.ofProgram (.ofLines [])) {} ["-", "x", "y"] = .error (.unknownVariable "y" ⟨[[]], []⟩) ∧
    ∃ cause, eval (.ofProgram (.ofLines [])) {} ["-", "7", "2", "1"] = .error cause := by
  refine ⟨?_, ?_, ?_⟩
  · obtain ⟨heval, -⟩ := (eval_of_prefix_form (.ofProgram (.ofLines [])) {} ["-", "7", "2"]).1
      (difference ⟨"7", rfl, by decide⟩ ⟨"2", rfl, by decide⟩) rfl
    rw [heval]
    decide +kernel
  · obtain ⟨heval, -⟩ := (eval_of_prefix_form (.ofProgram (.ofLines [])) {} ["-", "x", "y"]).1
      (difference ⟨"x", rfl, by decide⟩ ⟨"y", rfl, by decide⟩) rfl
    rw [heval]
    decide +kernel
  · refine (eval_of_prefix_form (.ofProgram (.ofLines [])) {} ["-", "7", "2", "1"]).2 ?_
    rintro ⟨t, ht⟩
    have hlonger : t.tokens ++ [] =
        (difference ⟨"7", rfl, by decide⟩ ⟨"2", rfl, by decide⟩).tokens ++ ["1"] := by
      rw [ht]
      rfl
    cases (Tree.tokens_append_inj hlonger).2

end Expression
end LineScript
