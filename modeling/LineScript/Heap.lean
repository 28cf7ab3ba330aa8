/-
Objects, and how they are copied.

An object is a table of fields. The heap holds all objects of a run, numbered in
the order they were made; an object is never removed. Reading is total: an
identity that was never given out has no fields.

* A *shallow copy* has the same fields, so objects in them are shared.
* A *deep copy* copies every object that can be reached, each once. It first
  lists the objects reachable from the value, then appends their copies to the
  heap in the same order, with each identity in a field moved to that of the
  copy. Objects that exist already are not touched (`fields_deepCopy_of_lt`), and
  sharing and cycles come out as they were.
-/
import LineScript.Table
import LineScript.Value

namespace LineScript

/-- The fields of an object. -/
abbrev Fields := Table Value

/-- The objects of a run. -/
structure Heap where
  objects : Array Fields := #[]
  deriving DecidableEq

namespace Heap

/-- The heap without objects. -/
def empty : Heap := {}

instance : Inhabited Heap := ⟨empty⟩

/-- The number of objects made so far. -/
def size (h : Heap) : Nat := h.objects.size

/-- The fields of an object. -/
def fields (h : Heap) (o : ObjId) : Fields := h.objects.getD o.index Table.empty

/-- The value of a field. -/
def field? (h : Heap) (o : ObjId) (name : String) : Option Value := (h.fields o).find? name

/-- Makes an object with the given fields. -/
def alloc (h : Heap) (fields : Fields) : ObjId × Heap := (⟨h.size⟩, ⟨h.objects.push fields⟩)

/-- Writes a field of an object. -/
def setField (h : Heap) (o : ObjId) (name : String) (v : Value) : Heap :=
  ⟨h.objects.modify o.index fun fields => fields.insert name v⟩

/-- A new object with the fields of another. -/
def shallowCopy (h : Heap) (o : ObjId) : ObjId × Heap := h.alloc (h.fields o)

/-- The value a variable of the type starts with. For objects it is a new one. -/
def default (h : Heap) (type : DeclaredType) : Value × Heap :=
  match type.kind with
  | .int => (.int 0, h)
  | .bool => (.bool false, h)
  | .str => (.str "", h)
  | .void => (.void, h)
  | .func => (.func none, h)
  | .object =>
    let (o, h) := h.alloc Table.empty
    (.object o, h)

/-! ### Deep copies -/

/-- The objects in the fields of an object. -/
def neighbours (h : Heap) (o : ObjId) : List ObjId :=
  (h.fields o).entries.filterMap fun e => e.2.object?

/-- Adds the objects of a list that are neither known nor there yet. -/
def addUnknown (known : List ObjId) : (fresh : List ObjId) → List ObjId → List ObjId
  | fresh, [] => fresh
  | fresh, o :: rest =>
    addUnknown known (if o ∈ known ∨ o ∈ fresh then fresh else fresh ++ [o]) rest

/-- Goes on from the objects found last until a round finds no new one. Each round
but the last finds one at least, so there are no more rounds than objects. -/
def reachFrom (h : Heap) : (rounds : Nat) → (known last : List ObjId) → List ObjId
  | 0, known, _ => known
  | rounds + 1, known, last =>
    match addUnknown known [] (last.flatMap h.neighbours) with
    | [] => known
    | fresh => reachFrom h rounds (known ++ fresh) fresh

/-- The objects that can be reached from an object through fields, itself first. -/
def reachable (h : Heap) (o : ObjId) : List ObjId := h.reachFrom h.size [o] [o]

/-- Where the copy of an object goes when the listed objects are copied to the end
of the heap. -/
def copyId (h : Heap) (listed : List ObjId) (o : ObjId) : ObjId := ⟨h.size + listed.idxOf o⟩

/-- The copy of an object whose copied fields refer to copies. -/
def copyFields (h : Heap) (listed : List ObjId) (o : ObjId) : Fields :=
  (h.fields o).map (Value.mapObject (h.copyId listed))

/-- A copy of a value that shares no object with it. -/
def deepCopy (h : Heap) (v : Value) : Value × Heap :=
  match v with
  | .object o =>
    let listed := h.reachable o
    (.object (h.copyId listed o), ⟨h.objects ++ (listed.map (h.copyFields listed)).toArray⟩)
  | v => (v, h)

/-- Deep copies of named values, one after the other, so that nothing is shared
between them. -/
def deepCopyAll : Heap → List (String × Value) → List (String × Value) × Heap
  | h, [] => ([], h)
  | h, (name, v) :: rest =>
    let (copy, h) := h.deepCopy v
    let (copies, h) := deepCopyAll h rest
    ((name, copy) :: copies, h)

/-! ### Reading after writing -/

theorem fields_alloc (h : Heap) (fields : Fields) (o : ObjId) :
    (h.alloc fields).2.fields o = if o.index = h.size then fields else h.fields o := by
  simp only [alloc, Heap.fields, size, Array.getD_eq_getD_getElem?, Array.getElem?_push]
  split <;> simp_all

theorem fields_setField (h : Heap) (o : ObjId) (name : String) (v : Value) (q : ObjId) :
    (h.setField o name v).fields q =
      if q = o ∧ o.index < h.size then (h.fields o).insert name v else h.fields q := by
  obtain ⟨i⟩ := o
  obtain ⟨j⟩ := q
  simp only [setField, Heap.fields, size, Array.getD_eq_getD_getElem?, Array.getElem?_modify,
    ObjId.mk.injEq]
  by_cases hij : j = i
  · subst hij
    by_cases hi : j < h.objects.size
    · simp [hi]
    · simp [hi]
  · simp [hij, Ne.symm hij]

/-- A deep copy leaves every object as it was. -/
theorem fields_deepCopy_of_lt (h : Heap) (v : Value) {o : ObjId} (ho : o.index < h.size) :
    (h.deepCopy v).2.fields o = h.fields o := by
  unfold deepCopy
  split
  · simp only [Heap.fields, Array.getD_eq_getD_getElem?]
    rw [Array.getElem?_append_left ho]
  · rfl

end Heap
end LineScript
