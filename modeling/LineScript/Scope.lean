/-
Variables: cells, blocks and frames.

A variable's value is held in a cell. A block is a table from names to cells; a
frame belongs to one invocation and is a stack of blocks with a root block at the
bottom, so it has one block at least. The scope stack is the frame of the running
invocation and those of its callers, the nearest first, so it has one frame at
least; the last of them is the entry frame.

Names are looked up in the current frame only, from the innermost block outwards.
Two names that are bound to one cell are aliases: a write through one is seen
through the other. Cells are numbered in the order they were made, and none is
ever removed.
-/
import LineScript.Heap

namespace LineScript

/-- The identity of a cell. -/
structure CellId where
  index : Nat
  deriving DecidableEq

/-- A block: its names and their cells. -/
abbrev Block := Table CellId

/-- What a name is bound to when a frame is set up: a new cell with this value, or
a cell that exists. -/
inductive Binding
  | fresh (v : Value)
  | shared (cell : CellId)
  deriving DecidableEq

/-- The blocks of one invocation: those opened inside it, innermost first, and the
root block. -/
structure Frame where
  inner : List Block := []
  root : Block := Table.empty
  deriving DecidableEq

namespace Frame

/-- The blocks of the frame, innermost first. -/
def blocks (f : Frame) : List Block := f.inner ++ [f.root]

/-- The number of blocks. -/
def depth (f : Frame) : Nat := f.inner.length + 1

/-- The innermost block. -/
def innermost (f : Frame) : Block :=
  match f.inner with
  | block :: _ => block
  | [] => f.root

/-- The frame with another innermost block. -/
def setInnermost (f : Frame) (block : Block) : Frame :=
  match f.inner with
  | _ :: outer => { f with inner := block :: outer }
  | [] => { f with root := block }

/-- The cell of a name, in the innermost block that has the name. -/
def cell? (f : Frame) (name : String) : Option CellId :=
  f.blocks.findSome? fun block => block.find? name

/-- The names of each block, from the root block inwards. -/
def nameBlocks (f : Frame) : List (List String) := f.blocks.reverse.map Table.names

/-- The names of all blocks, from the root block inwards. -/
def names (f : Frame) : List String := f.nameBlocks.flatten

/-- One table for the whole frame, in which inner blocks win over outer ones. -/
def visible (f : Frame) : Block :=
  f.blocks.reverse.foldl
    (fun table block => block.entries.foldl (fun table e => table.insert e.1 e.2) table)
    Table.empty

end Frame

/-- The variables of a run. -/
structure ScopeStack where
  current : Frame := {}
  suspended : List Frame := []
  cells : Array Value := #[]
  deriving DecidableEq

namespace ScopeStack

/-- The stack with only the entry frame, which is empty. -/
def empty : ScopeStack := {}

instance : Inhabited ScopeStack := ⟨empty⟩

/-! ### Frames and blocks -/

/-- Opens a frame for an invocation. -/
def pushFrame (s : ScopeStack) : ScopeStack :=
  { s with current := {}, suspended := s.current :: s.suspended }

/-- Goes back to the caller's frame. The entry frame stays. -/
def popFrame? (s : ScopeStack) : Option ScopeStack :=
  match s.suspended with
  | [] => none
  | caller :: rest => some { s with current := caller, suspended := rest }

/-- Opens a block in the current frame. -/
def nestBlock (s : ScopeStack) : ScopeStack :=
  { s with current.inner := Table.empty :: s.current.inner }

/-- Closes the innermost block. The root block stays. -/
def unnestBlock? (s : ScopeStack) : Option ScopeStack :=
  match s.current.inner with
  | [] => none
  | _ :: outer => some { s with current.inner := outer }

/-- The number of frames. -/
def frameDepth (s : ScopeStack) : Nat := s.suspended.length + 1

/-- The number of blocks of the current frame. -/
def blockDepth (s : ScopeStack) : Nat := s.current.depth

/-! ### Reading -/

/-- The value in a cell. -/
def read (s : ScopeStack) (c : CellId) : Value := s.cells.getD c.index .void

/-- The cell a name is bound to. -/
def cell? (s : ScopeStack) (name : String) : Option CellId := s.current.cell? name

/-- The value of a variable. -/
def get? (s : ScopeStack) (name : String) : Option Value := (s.cell? name).map s.read

/-- The name is that of a variable. -/
def contains (s : ScopeStack) (name : String) : Bool :=
  s.current.blocks.any fun block => block.contains name

/-- The names of the variables, from the root block inwards; a name that several
blocks have is there several times. -/
def visibleNames (s : ScopeStack) : List String := s.current.names

/-- The variables and their values, each name once. -/
def visibleValues (s : ScopeStack) : List (String × Value) :=
  s.current.visible.entries.map fun e => (e.1, s.read e.2)

/-- Copies of all variables' values that share nothing, with the variables or with
one another. -/
def snapshot (s : ScopeStack) (h : Heap) : Table Value × Heap :=
  let (copies, h) := h.deepCopyAll s.visibleValues
  (⟨copies⟩, h)

/-! ### Writing -/

/-- Writes a cell. -/
def write (s : ScopeStack) (c : CellId) (v : Value) : ScopeStack :=
  { s with cells := s.cells.setIfInBounds c.index v }

/-- Writes a variable, if there is one of the name. -/
def set? (s : ScopeStack) (name : String) (v : Value) : Option ScopeStack :=
  (s.cell? name).map fun c => s.write c v

/-- Binds a name in the innermost block to a new cell, in place of any it was bound
to. -/
def define (s : ScopeStack) (name : String) (v : Value) : ScopeStack :=
  { s with
    current := s.current.setInnermost (s.current.innermost.insert name ⟨s.cells.size⟩)
    cells := s.cells.push v }

/-- Makes a variable in the innermost block, unless that block has the name. -/
def create? (s : ScopeStack) (name : String) (v : Value) : Option ScopeStack :=
  if s.current.innermost.contains name then none else some (s.define name v)

/-- Writes the variable of the root block with this name, or makes one there. -/
def publish (s : ScopeStack) (name : String) (v : Value) : ScopeStack :=
  match s.current.root.find? name with
  | some c => s.write c v
  | none =>
    { s with
      current.root := s.current.root.insert name ⟨s.cells.size⟩
      cells := s.cells.push v }

/-- Binds a name in the innermost block, in place of any binding it had there. -/
def bind (s : ScopeStack) (name : String) : Binding → ScopeStack
  | .fresh v => s.define name v
  | .shared c =>
    { s with current := s.current.setInnermost (s.current.innermost.insert name c) }

/-- Binds names in order; of two bindings of one name the later one stays. -/
def bindAll (s : ScopeStack) (bindings : List (String × Binding)) : ScopeStack :=
  bindings.foldl (fun s b => s.bind b.1 b.2) s

/-! ### Frames and blocks come in pairs -/

@[simp]
theorem popFrame?_pushFrame (s : ScopeStack) : s.pushFrame.popFrame? = some s := rfl

@[simp]
theorem unnestBlock?_nestBlock (s : ScopeStack) : s.nestBlock.unnestBlock? = some s := rfl

/-- No block is left unseen: a name has a cell exactly if some block has the name. -/
theorem isSome_cell? (s : ScopeStack) (name : String) :
    (s.cell? name).isSome = s.contains name := by
  simp only [cell?, Frame.cell?, contains]
  induction s.current.blocks with
  | nil => rfl
  | cons block rest ih =>
    rw [List.findSome?_cons, List.any_cons, ← ih, Table.contains]
    cases block.find? name <;> simp

/-- A cell that was written holds the value, and no other cell changes. -/
theorem read_write (s : ScopeStack) (c d : CellId) (v : Value) :
    (s.write c v).read d = if d = c ∧ c.index < s.cells.size then v else s.read d := by
  obtain ⟨i⟩ := c
  obtain ⟨j⟩ := d
  simp only [write, read, Array.getD_eq_getD_getElem?, Array.getElem?_setIfInBounds,
    CellId.mk.injEq]
  by_cases hij : j = i
  · subst hij
    by_cases hi : j < s.cells.size
    · simp [hi]
    · simp [hi]
  · simp [hij, Ne.symm hij]

end ScopeStack
end LineScript
