/-
Suggestions in place of a name that is unknown.

The names that may have been meant are those of the variables in sight, block by block from the
root block inwards, and those of the functions in the order of definition. The names of one block
come in no particular order, and not in the same one from run to run: a `NameOrder` lists them, and
any listing will do. The suggestion is the nearest of all names, and of those that are equally near
the one that is listed first, so the order may decide which one it is.
-/
import LineScript.Text.EditDistance

namespace LineScript

/-- How the names of blocks are listed. Each block, counted from the root inwards, has an order of
its own. -/
structure NameOrder where
  list : (block : Nat) → List String → List String
  perm : ∀ block names, (list block names).Perm names

namespace NameOrder

/-- The names come in the order in which they were made. -/
def made : NameOrder := ⟨fun _ names => names, fun _ names => .refl names⟩

instance : Inhabited NameOrder := ⟨made⟩

/-- The names of several blocks, one block after the other. The first of them has the given
number. -/
def listFrom (order : NameOrder) (block : Nat) : List (List String) → List String
  | [] => []
  | names :: rest => order.list block names ++ order.listFrom (block + 1) rest

end NameOrder

/-- The names that are known where another one is not. -/
structure Vocabulary where
  /-- The names of the variables, block by block from the root inwards. -/
  blocks : List (List String)
  functions : List String
  deriving DecidableEq

namespace Vocabulary

/-- The names as they are listed: those of the variables and then those of the functions. -/
def listed (v : Vocabulary) (order : NameOrder) : List String :=
  order.listFrom 0 v.blocks ++ v.functions

/-- The name that was perhaps meant. -/
def suggestion? (v : Vocabulary) (order : NameOrder) (name : String) : Option String :=
  Text.nearest? name (v.listed order) Text.suggestionThreshold

end Vocabulary
end LineScript
