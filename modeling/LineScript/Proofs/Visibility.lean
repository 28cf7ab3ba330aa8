/-
What is visible, seen from all sides.

A name can be looked up, its cell can be asked for, the names can be listed, and the values of all
variables can be copied. A lookup goes from the innermost block outwards and takes the first cell it
finds; a copy of all variables goes from the root block inwards and lets later entries win, and it
goes through each block in whatever order the names come (`Walk`). All of them see the same
variables, and the same one of those that have the same name.

* `Use.sane`: what can be done with variables and objects leaves no block with a name twice, and no
  reference to an object that was never made; so it is in all that can be reached (`Reached.sane`);
* `Walk.lookup_reverse`: the last entry for a name, on the way inwards, is that of the innermost
  block;
* `find?_copyEach` and `find?_snapshot`: the copies made on the way, and those made of what a lookup
  finds, are both copies of the values that the variables have.

`views_agree` puts them together.
-/
import LineScript.Proofs.DeepCopies
import LineScript.Proofs.LambdaCalls
import Mathlib.Tactic.TFAE

namespace LineScript

/-! ### Uses of variables and objects -/

/-- The variables and the objects that their values refer to. -/
structure Store where
  scopes : ScopeStack := {}
  heap : Heap := {}

namespace Store

/-- What can be done with variables and objects, one thing at a time. A value that is put somewhere
refers to no object that was not made; a cell that is shared may be any cell. -/
inductive Use : Store → Store → Prop
  | pushFrame (t : Store) : Use t { t with scopes := t.scopes.pushFrame }
  | popFrame {t : Store} {scopes : ScopeStack} (h : t.scopes.popFrame? = some scopes) :
    Use t { t with scopes }
  | nestBlock (t : Store) : Use t { t with scopes := t.scopes.nestBlock }
  | unnestBlock {t : Store} {scopes : ScopeStack} (h : t.scopes.unnestBlock? = some scopes) :
    Use t { t with scopes }
  | create {t : Store} {scopes : ScopeStack} {name : String} {v : Value} (hv : t.heap.Has v)
    (h : t.scopes.create? name v = some scopes) : Use t { t with scopes }
  | publish {t : Store} {v : Value} (name : String) (hv : t.heap.Has v) :
    Use t { t with scopes := t.scopes.publish name v }
  | set {t : Store} {scopes : ScopeStack} {name : String} {v : Value} (hv : t.heap.Has v)
    (h : t.scopes.set? name v = some scopes) : Use t { t with scopes }
  | bindAll {t : Store} {bindings : List (String × Binding)}
    (hv : ∀ b ∈ bindings, ∀ v, b.2 = .fresh v → t.heap.Has v) :
    Use t { t with scopes := t.scopes.bindAll bindings }
  | makeObject (t : Store) : Use t { t with heap := (t.heap.alloc Table.empty).2 }
  | setField {t : Store} {v : Value} (o : ObjId) (name : String) (hv : t.heap.Has v) :
    Use t { t with heap := t.heap.setField o name v }
  | shallowCopy (t : Store) (o : ObjId) : Use t { t with heap := (t.heap.shallowCopy o).2 }
  | deepCopy {t : Store} {v : Value} (hv : t.heap.Has v) :
    Use t { t with heap := (t.heap.deepCopy v).2 }

/-- The store comes from the empty one in a row of uses. -/
def Reached (t : Store) : Prop := Relation.ReflTransGen Use {} t

/-- No block has a name twice, and what is referred to was made. -/
structure Sane (t : Store) : Prop where
  tidy : t.scopes.Tidy
  closed : t.heap.Closed
  values : ∀ c, t.heap.Has (t.scopes.read c)

end Store

namespace Heap

variable {h h' : Heap} {v : Value} {o : ObjId} {fields : Fields}

theorem Has.mono (hv : h.Has v) (hsize : h.size ≤ h'.size) : h'.Has v :=
  fun o ho => Nat.lt_of_lt_of_le (hv o ho) hsize

theorem size_alloc (h : Heap) (fields : Fields) : (h.alloc fields).2.size = h.size + 1 := by
  simp [alloc, size]

theorem Closed.alloc (hclosed : h.Closed) (hfields : ∀ e ∈ fields.entries, h.Has e.2) :
    (h.alloc fields).2.Closed := by
  intro o q hedge
  obtain ⟨e, he, hq⟩ := edge_iff.mp hedge
  rw [size_alloc]
  rw [fields_alloc] at he
  split at he
  · exact Nat.lt_succ_of_lt (hfields e he q hq)
  · exact Nat.lt_succ_of_lt (hclosed o q (edge_iff.mpr ⟨e, he, hq⟩))

theorem Closed.has_of_mem (hclosed : h.Closed) :
    ∀ e ∈ (h.fields o).entries, h.Has e.2 :=
  fun e he q hq => hclosed o q (edge_iff.mpr ⟨e, he, hq⟩)

theorem size_setField (h : Heap) (o : ObjId) (name : String) (v : Value) :
    (h.setField o name v).size = h.size := by
  simp [setField, size]

theorem Closed.setField (hclosed : h.Closed) (name : String) (hv : h.Has v) :
    (h.setField o name v).Closed := by
  intro a q hedge
  obtain ⟨e, he, hq⟩ := edge_iff.mp hedge
  rw [size_setField]
  rw [fields_setField] at he
  split at he
  · rcases Sealed.mem_put he with hev | hold
    · exact hv q (hev ▸ hq)
    · exact hclosed.has_of_mem e hold q hq
  · exact hclosed.has_of_mem e he q hq

end Heap

namespace Store

variable {t t' : Store} {v : Value}

/-- A variable may be given a value, as long as what the value refers to was made. -/
theorem Sane.withValue (ht : t.Sane) {scopes : ScopeStack} (hop : t.scopes.Op scopes)
    (hv : t.heap.Has v) (hread : ∀ c, scopes.read c = v ∨ scopes.read c = t.scopes.read c) :
    Sane { t with scopes } where
  tidy := hop.tidy ht.tidy
  closed := ht.closed
  values := fun c => by
    rcases hread c with hc | hc
    · exact hc.symm ▸ hv
    · exact hc.symm ▸ ht.values c

/-- Names may come and go while the cells stay. -/
theorem Sane.withCells (ht : t.Sane) {scopes : ScopeStack} (hop : t.scopes.Op scopes)
    (hcells : scopes.cells = t.scopes.cells) : Sane { t with scopes } where
  tidy := hop.tidy ht.tidy
  closed := ht.closed
  values := fun c => by
    rw [ScopeStack.read, hcells]
    exact ht.values c

/-- The heap may change, as long as it keeps the objects there were. -/
theorem Sane.withHeap (ht : t.Sane) {heap : Heap} (hclosed : heap.Closed)
    (hsize : t.heap.size ≤ heap.size) : Sane { t with heap } where
  tidy := ht.tidy
  closed := hclosed
  values := fun c => (ht.values c).mono hsize

theorem Sane.define (ht : t.Sane) (name : String) (hv : t.heap.Has v) :
    Sane { t with scopes := t.scopes.define name v } :=
  ht.withValue (.bind _ name (.fresh v)) hv (t.scopes.read_define name v)

theorem Sane.alloc (ht : t.Sane) {fields : Fields} (hfields : ∀ e ∈ fields.entries, t.heap.Has e.2) :
    Sane { t with heap := (t.heap.alloc fields).2 } := by
  refine ht.withHeap (ht.closed.alloc hfields) ?_
  rw [Heap.size_alloc]
  exact Nat.le_succ _

theorem Sane.bindAll (ht : t.Sane) {bindings : List (String × Binding)}
    (hv : ∀ b ∈ bindings, ∀ v, b.2 = .fresh v → t.heap.Has v) :
    Sane { t with scopes := t.scopes.bindAll bindings } := by
  induction bindings generalizing t with
  | nil => exact ht
  | cons b rest ih =>
    obtain ⟨hone, hrest⟩ := List.forall_mem_cons.mp hv
    have hbind : Sane { t with scopes := t.scopes.bind b.1 b.2 } := by
      obtain ⟨name, b⟩ := b
      cases b with
      | fresh v => exact ht.define name (hone v rfl)
      | shared cell => exact ht.withCells (.bind _ name (.shared cell)) rfl
    exact ih hbind hrest

theorem sane_empty : Sane {} where
  tidy := ScopeStack.tidy_empty
  closed := fun o q hedge => by
    obtain ⟨e, he, -⟩ := Heap.edge_iff.mp hedge
    cases he
  values := fun c o ho => by cases ho

/-- Each use keeps a sane store sane. -/
theorem Use.sane (h : Use t t') (ht : t.Sane) : t'.Sane := by
  cases h with
  | pushFrame => exact ht.withCells (.pushFrame _) rfl
  | popFrame h =>
    refine ht.withCells (.popFrame h) ?_
    rw [ScopeStack.popFrame?] at h
    split at h
    · cases h
    · cases h
      rfl
  | nestBlock => exact ht.withCells (.nestBlock _) rfl
  | unnestBlock h =>
    refine ht.withCells (.unnestBlock h) ?_
    rw [ScopeStack.unnestBlock?] at h
    split at h
    · cases h
    · cases h
      rfl
  | create hv h =>
    rw [ScopeStack.create?] at h
    split at h
    · cases h
    · cases h
      exact ht.define _ hv
  | publish name hv => exact ht.withValue (.publish _ name _) hv (t.scopes.read_publish name _)
  | set hv h =>
    obtain ⟨cell, -, rfl⟩ := Option.map_eq_some_iff.mp h
    exact ht.withValue (.write _ cell _) hv (t.scopes.read_write_or cell · _)
  | bindAll hv => exact ht.bindAll hv
  | makeObject => exact ht.alloc (List.forall_mem_nil _)
  | setField o name hv =>
    exact ht.withHeap (ht.closed.setField name hv) (Nat.le_of_eq (Heap.size_setField _ _ _ _).symm)
  | shallowCopy o => exact ht.alloc ht.closed.has_of_mem
  | deepCopy hv =>
    have hcopied := (Heap.isomorphic_deepCopy ht.closed hv).1
    exact ht.withHeap (hcopied.closed ht.closed) hcopied.size_le

theorem Reached.sane (h : t.Reached) : t.Sane := by
  induction h with
  | refl => exact sane_empty
  | tail _ huse ih => exact huse.sane ih

end Store

/-! ### On the way inwards -/

/-- The entries of all blocks, from the last of the list to the first. Those of one block come in
any order. -/
def Walk (blocks : List Block) (entries : List (String × CellId)) : Prop :=
  ∃ lists, List.Forall₂ (fun block list => list.Perm block.entries) blocks lists ∧
    entries = lists.reverse.flatten

namespace Walk

variable {blocks : List Block} {block : Block} {entries : List (String × CellId)}

theorem nil : Walk [] entries ↔ entries = [] := by
  simp [Walk]

/-- The entries of the innermost block are the last ones. -/
theorem exists_of_cons (h : Walk (block :: blocks) entries) :
    ∃ before list, entries = before ++ list ∧ Walk blocks before ∧ list.Perm block.entries := by
  obtain ⟨lists, hlists, rfl⟩ := h
  cases hlists with
  | @cons _ list _ lists hlist hlists =>
    exact ⟨lists.reverse.flatten, list, by simp, ⟨lists, hlists, rfl⟩, hlist⟩

/-- On the way inwards the last entry for a name is that of the innermost block which has it. -/
theorem lookup_reverse (h : Walk blocks entries) (hdistinct : ∀ b ∈ blocks, b.Distinct)
    (name : String) :
    Table.lookup name entries.reverse = blocks.findSome? fun block => block.find? name := by
  induction blocks generalizing entries with
  | nil =>
    rw [nil.mp h]
    rfl
  | cons block blocks ih =>
    obtain ⟨before, list, rfl, hbefore, hlist⟩ := h.exists_of_cons
    obtain ⟨hblock, hblocks⟩ := List.forall_mem_cons.mp hdistinct
    have hnodup : (list.map Prod.fst).Nodup := (hlist.map Prod.fst).nodup_iff.mpr hblock
    rw [List.reverse_append, Table.lookup_append, ih hbefore hblocks, Table.lookup_reverse hnodup,
      Table.lookup_perm hlist hnodup, List.findSome?_cons, Table.find?]
    cases Table.lookup name block.entries <;> rfl

end Walk

namespace ScopeStack

variable {s : ScopeStack} {h : Heap} {entries : List (String × CellId)} {name : String}

/-- Goes through named cells and enters in a table a copy of what each of them holds, in place of
any that was entered for the name before. -/
def copyEach (s : ScopeStack) : Heap → Table Value → List (String × CellId) → Table Value × Heap
  | h, t, [] => (t, h)
  | h, t, (name, c) :: rest =>
    s.copyEach (h.deepCopy (s.read c)).2 (t.insert name (h.deepCopy (s.read c)).1) rest

/-- The values of named cells. -/
def valuesOf (s : ScopeStack) (entries : List (String × CellId)) : List (String × Value) :=
  entries.map fun e => (e.1, s.read e.2)

/-- It makes no difference whether copies are entered one by one or when all are made. -/
theorem copyEach_eq (s : ScopeStack) (h : Heap) (t : Table Value)
    (entries : List (String × CellId)) :
    s.copyEach h t entries = (t.insertAll (h.deepCopyAll (s.valuesOf entries)).1,
      (h.deepCopyAll (s.valuesOf entries)).2) := by
  induction entries generalizing h t with
  | nil => rfl
  | cons e rest ih =>
    rw [copyEach, ih]
    rfl

/-- Of a name that has several copies the one that is entered last stays, and it is a copy of what
the innermost variable holds. -/
theorem find?_copyEach (htidy : s.Tidy) (hclosed : h.Closed) (hvalues : ∀ c, h.Has (s.read c))
    (hwalk : Walk s.current.blocks entries) (name : String) :
    h.Copied (s.copyEach h .empty entries).2 ∧
      Option.Rel (h.CopyOf (s.copyEach h .empty entries).2) (s.get? name)
        ((s.copyEach h .empty entries).1.find? name) := by
  have hhas : ∀ e ∈ s.valuesOf entries, h.Has e.2 := by
    intro e he
    obtain ⟨b, -, rfl⟩ := List.mem_map.mp he
    exact hvalues b.2
  obtain ⟨hcopied, hcopies⟩ := Heap.copyOf_deepCopyAll hclosed hhas
  have hfound : Table.lookup name (s.valuesOf entries).reverse = s.get? name := by
    rw [valuesOf, ← List.map_reverse, Table.lookup_map, hwalk.lookup_reverse htidy.1.blocks name]
    rfl
  rw [copyEach_eq]
  refine ⟨hcopied, ?_⟩
  rw [Table.find?_insertAll, Table.find?_empty, Option.or_none, ← hfound]
  exact Table.lookup_rel (List.forall₂_reverse_iff.mpr hcopies) name

theorem find?_snapshot (htidy : s.Tidy) (hclosed : h.Closed) (hvalues : ∀ c, h.Has (s.read c))
    (name : String) :
    h.Copied (s.snapshot h).2 ∧
      Option.Rel (h.CopyOf (s.snapshot h).2) (s.get? name) ((s.snapshot h).1.find? name) := by
  have hhas : ∀ e ∈ s.visibleValues, h.Has e.2 := by
    intro e he
    obtain ⟨b, -, rfl⟩ := List.mem_map.mp he
    exact hvalues b.2
  obtain ⟨hcopied, hcopies⟩ := Heap.copyOf_deepCopyAll hclosed hhas
  refine ⟨hcopied, ?_⟩
  rw [← lookup_visibleValues htidy]
  exact Table.lookup_rel hcopies name

end ScopeStack

/-! ### All sides -/

/-- The innermost block that has the name binds it to the cell. -/
def Frame.Shows (f : Frame) (name : String) (c : CellId) : Prop :=
  ∃ inner block outer, f.blocks = inner ++ block :: outer ∧
    (∀ b ∈ inner, name ∉ b.names) ∧ (name, c) ∈ block.entries

theorem Frame.cell?_eq_some_iff {f : Frame} (h : f.Tidy) {name : String} {c : CellId} :
    f.cell? name = some c ↔ f.Shows name c := by
  rw [cell?, List.findSome?_eq_some_iff]
  refine exists_congr fun inner => exists_congr fun block => exists_congr fun outer => ?_
  refine and_congr_right fun hblocks => ?_
  have hblock : block.Distinct := h.blocks block (by simp [hblocks])
  rw [and_comm, Table.find?, Table.lookup_eq_some_iff hblock]
  refine and_congr_left fun _ => forall₂_congr fun b _ => ?_
  rw [Table.mem_names_iff, Option.not_isSome_iff_eq_none]

theorem ScopeStack.mem_visibleNames_iff {s : ScopeStack} {name : String} :
    name ∈ s.visibleNames ↔ s.contains name = true := by
  rw [visibleNames, Frame.names, Frame.nameBlocks, ← List.flatMap_def, List.mem_flatMap, contains,
    List.any_eq_true]
  refine exists_congr fun block => and_congr List.mem_reverse ?_
  rw [Table.mem_names_iff, Table.contains]

theorem Walk.mem_names_iff {s : ScopeStack} {entries : List (String × CellId)} {name : String}
    (h : Walk s.current.blocks entries) (htidy : s.Tidy) :
    name ∈ entries.map Prod.fst ↔ (s.cell? name).isSome = true := by
  have hfound : Table.lookup name entries.reverse = s.cell? name :=
    h.lookup_reverse htidy.1.blocks name
  rw [← hfound, ← Option.ne_none_iff_isSome, ne_eq, Table.lookup_eq_none_iff, not_not,
    List.map_reverse, List.mem_reverse]

/-- What is copied is an exact copy of what there was. -/
theorem exists_exactCopy {h h' : Heap} {v : Value} {copy : Option Value} (hcopied : h.Copied h')
    (hrel : Option.Rel (h.CopyOf h') (some v) copy) :
    ∃ v', copy = some v' ∧ h.ExactCopy v h' v' := by
  cases hrel with
  | @some _ v' hcopy => exact ⟨v', rfl, hcopy.exactCopy hcopied⟩

/-- In whatever way variables and objects have been used, and in whatever order the names of each
block come: that a name is visible, that it has a cell, that it has a value, that it is among the
names, and that it is among those of which copies are made is all the same. The value is the one
in the innermost block that has the name, and what is copied is an exact copy of it. -/
theorem views_agree {t : Store} (h : t.Reached) {entries : List (String × CellId)}
    (hwalk : Walk t.scopes.current.blocks entries) (name : String) :
    [t.scopes.contains name = true,
      (t.scopes.cell? name).isSome = true,
      (t.scopes.get? name).isSome = true,
      name ∈ t.scopes.visibleNames,
      name ∈ entries.map Prod.fst,
      (t.scopes.snapshot t.heap).1.contains name = true,
      (t.scopes.copyEach t.heap .empty entries).1.contains name = true].TFAE ∧
    ∀ v, t.scopes.get? name = some v →
      (∃ c, t.scopes.current.Shows name c ∧ t.scopes.read c = v) ∧
      (∃ v', (t.scopes.snapshot t.heap).1.find? name = some v' ∧
        t.heap.ExactCopy v (t.scopes.snapshot t.heap).2 v') ∧
      ∃ v', (t.scopes.copyEach t.heap .empty entries).1.find? name = some v' ∧
        t.heap.ExactCopy v (t.scopes.copyEach t.heap .empty entries).2 v' := by
  obtain ⟨htidy, hclosed, hvalues⟩ := h.sane
  obtain ⟨hcopied, hsnapshot⟩ := ScopeStack.find?_snapshot htidy hclosed hvalues name
  obtain ⟨hcopied', hwalked⟩ := ScopeStack.find?_copyEach htidy hclosed hvalues hwalk name
  refine ⟨?_, ?_⟩
  · tfae_have 1 ↔ 2 := by rw [ScopeStack.isSome_cell?]
    tfae_have 2 ↔ 3 := by rw [ScopeStack.get?, Option.isSome_map]
    tfae_have 1 ↔ 4 := ScopeStack.mem_visibleNames_iff.symm
    tfae_have 2 ↔ 5 := (hwalk.mem_names_iff htidy).symm
    tfae_have 3 ↔ 6 := by rw [Table.contains, isSome_eq_of_rel hsnapshot]
    tfae_have 3 ↔ 7 := by rw [Table.contains, isSome_eq_of_rel hwalked]
    tfae_finish
  · intro v hv
    rw [hv] at hsnapshot hwalked
    refine ⟨?_, exists_exactCopy hcopied hsnapshot, exists_exactCopy hcopied' hwalked⟩
    obtain ⟨c, hc, hread⟩ := Option.map_eq_some_iff.mp hv
    exact ⟨c, (Frame.cell?_eq_some_iff htidy.1).mp hc, hread⟩

/-- An object that refers to itself, variables `x` and `o`, and in a block inside another `x`, with
`y` for the cell of the outer one. -/
def shadowingStore : Store where
  scopes := (((ScopeStack.empty.define "x" (.int 1)).define "o" (.object ⟨0⟩)).nestBlock.define "x"
    (.int 2)).bindAll [("y", .shared ⟨0⟩)]
  heap := (Heap.empty.alloc Table.empty).2.setField ⟨0⟩ "me" (.object ⟨0⟩)

theorem reached_shadowingStore : shadowingStore.Reached := by
  have hint : ∀ (h : Heap) (n : Int64), h.Has (.int n) := fun _ _ _ hn => nomatch hn
  have hself : (Heap.empty.alloc Table.empty).2.Has (.object ⟨0⟩) := by
    intro o ho
    cases ho
    decide
  have hheap : Store.Reached { heap := shadowingStore.heap } :=
    .tail (.single (.makeObject {})) (.setField ⟨0⟩ "me" hself)
  have hx : ScopeStack.empty.create? "x" (.int 1) = some (ScopeStack.empty.define "x" (.int 1)) :=
    rfl
  have ho : (ScopeStack.empty.define "x" (.int 1)).create? "o" (.object ⟨0⟩) =
      some ((ScopeStack.empty.define "x" (.int 1)).define "o" (.object ⟨0⟩)) := rfl
  have houter := ((hheap.tail (.create (hint _ 1) hx)).tail (.create hself ho)).tail (.nestBlock _)
  refine (houter.tail (.create (hint _ 2) rfl)).tail (.bindAll ?_)
  intro b hb v hv
  rw [List.mem_singleton.mp hb] at hv
  cases hv

/-- From the root block inwards, the names of each block backwards. -/
def backwardEntries : List (String × CellId) := [("o", ⟨1⟩), ("x", ⟨0⟩), ("y", ⟨0⟩), ("x", ⟨2⟩)]

/-- The inner `x` is copied and not the outer one, `y` has the value of the outer one, and the copy
of the object is an exact one. -/
theorem views_agree_shadowingStore :
    shadowingStore.Reached ∧ Walk shadowingStore.scopes.current.blocks backwardEntries ∧
    shadowingStore.scopes.get? "x" = some (.int 2) ∧
    shadowingStore.scopes.get? "y" = some (.int 1) ∧
    shadowingStore.scopes.visibleNames = ["x", "o", "x", "y"] ∧
    (shadowingStore.scopes.snapshot shadowingStore.heap).1.contains "y" = true ∧
    (shadowingStore.scopes.copyEach shadowingStore.heap .empty backwardEntries).1.find? "x" =
      some (.int 2) ∧
    (∃ v', (shadowingStore.scopes.copyEach shadowingStore.heap .empty backwardEntries).1.find? "o" =
        some v' ∧ shadowingStore.heap.ExactCopy (.object ⟨0⟩)
          (shadowingStore.scopes.copyEach shadowingStore.heap .empty backwardEntries).2 v') := by
  have hwalk : Walk shadowingStore.scopes.current.blocks backwardEntries := by
    refine ⟨[[("y", ⟨0⟩), ("x", ⟨2⟩)], [("o", ⟨1⟩), ("x", ⟨0⟩)]], .cons ?_ (.cons ?_ .nil), rfl⟩
    · exact .swap _ _ _
    · exact .swap _ _ _
  have hnames : shadowingStore.scopes.visibleNames = ["x", "o", "x", "y"] := by decide
  have hx : shadowingStore.scopes.get? "x" = some (.int 2) := by decide
  have ho : shadowingStore.scopes.get? "o" = some (.object ⟨0⟩) := by decide
  refine ⟨reached_shadowingStore, hwalk, hx, by decide, hnames, ?_, ?_, ?_⟩
  · have hviews := (views_agree reached_shadowingStore hwalk "y").1
    exact (hviews.out 3 5).mp (by simp [hnames])
  · obtain ⟨-, -, v', hv', hcopy⟩ := (views_agree reached_shadowingStore hwalk "x").2 _ hx
    obtain ⟨f, -, rfl, -⟩ := hcopy.corresponds
    exact hv'
  · exact ((views_agree reached_shadowingStore hwalk "o").2 _ ho).2.2

end LineScript
