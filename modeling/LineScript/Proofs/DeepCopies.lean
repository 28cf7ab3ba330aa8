/-
Deep copies are exact, whatever way they are made.

`Heap.follow` goes from a value along a path of field names, and `Heap.reach` is the set
of objects that some path leads to. `Heap.ExactCopy` says what a deep copy has to be: the
objects that can be reached from it are new, and correspond one to one to those of the
original, with the same fields; nothing that was there is changed. All of it follows from
one equation, that a path leads from the copy to the copy of where it leads from the
original (`follow_eq_map`).

`Heap.deepCopy` lists the objects first and copies them after. `Heap.copyFrom` is the
other way to do it: it makes the copy of an object as soon as it meets the object, enters
it in a table of copies while it still has no fields, and goes through the fields in any
order. It needs no more levels than there are objects, since each level enters one that
was not in the table. Both give exact copies. For `copyFrom` the invariant has two parts:
`Copying.Sound` for what is true of the table at any time, and `Copying.Grows` for what a
call adds to it, which never speaks of the copies that are half filled at the time.
-/
import LineScript.Proofs.Circulation
import LineScript.Proofs.Frames
import LineScript.Proofs.HeapGraph
import Mathlib.Data.Finset.Card
import Mathlib.Data.Finset.Range
import Mathlib.Data.Set.Function

namespace LineScript

namespace Table

variable {α : Type} {entries entries' : List (String × α)} {name : String} {a : α}

/-- Among different names, each entry is the one that is found. -/
theorem lookup_eq_some_iff (hnodup : (entries.map Prod.fst).Nodup) :
    lookup name entries = some a ↔ (name, a) ∈ entries := by
  constructor
  · intro hfound
    exact mem_of_find? (t := ⟨entries⟩) hfound
  · intro hmem
    induction entries with
    | nil => cases hmem
    | cons e rest ih =>
      obtain ⟨hnew, hrest⟩ := List.nodup_cons.mp hnodup
      rw [lookup]
      rcases List.mem_cons.mp hmem with rfl | hmem
      · rw [if_pos rfl]
      · rw [if_neg, ih hrest hmem]
        rintro rfl
        exact hnew (List.mem_map.mpr ⟨(e.1, a), hmem, rfl⟩)

theorem lookup_perm (hperm : entries.Perm entries') (hnodup : (entries.map Prod.fst).Nodup) :
    lookup name entries = lookup name entries' := by
  have hnodup' := (hperm.map Prod.fst).nodup_iff.mp hnodup
  refine Option.ext fun a => ?_
  rw [lookup_eq_some_iff hnodup, lookup_eq_some_iff hnodup', hperm.mem_iff]

theorem names_eq_of_forall₂ {R : Value → Value → Prop} {xs ys : List (String × Value)}
    (h : List.Forall₂ (fun e e' => e'.1 = e.1 ∧ R e.2 e'.2) xs ys) :
    ys.map Prod.fst = xs.map Prod.fst := by
  induction h with
  | nil => rfl
  | cons he _ ih => rw [List.map_cons, List.map_cons, he.1, ih]

end Table

namespace Heap

variable {h h' : Heap} {v v' : Value} {o q : ObjId}

/-! ### Paths -/

/-- Where a path of field names leads to. -/
def follow (h : Heap) : Value → List String → Option Value
  | v, [] => some v
  | .object o, name :: path => (h.field? o name).bind fun v => h.follow v path
  | _, _ :: _ => none

/-- The objects that some path leads to. -/
def reach (h : Heap) (v : Value) : Set ObjId := {o | ∃ path, h.follow v path = some (.object o)}

/-- The second value, in the second heap, copies all that can be reached from the first
value, and copies it once: paths that meet still meet, and paths that do not still do
not. -/
structure ExactCopy (h : Heap) (v : Value) (h' : Heap) (v' : Value) : Prop where
  unchanged : ∀ o : ObjId, o.index < h.size → h'.fields o = h.fields o
  corresponds : ∃ f : ObjId → ObjId, Set.BijOn f (h.reach v) (h'.reach v') ∧
    v' = v.mapObject f ∧
    ∀ o ∈ h.reach v, ∀ name, h'.field? (f o) name = (h.field? o name).map (Value.mapObject f)
  new : ∀ o ∈ h'.reach v', New h h' o
  meets : ∀ path path',
    (∃ o, h.follow v path = some (.object o) ∧ h.follow v path' = some (.object o)) ↔
      ∃ o, h'.follow v' path = some (.object o) ∧ h'.follow v' path' = some (.object o)

/-- The function takes the objects of a set to different new objects with the same
fields; the set has all that its fields hold. -/
structure Renames (h h' : Heap) (known : Set ObjId) (f : ObjId → ObjId) : Prop where
  inj : Set.InjOn f known
  new : ∀ o ∈ known, New h h' (f o)
  fields : ∀ o ∈ known, ∀ name, h'.field? (f o) name = (h.field? o name).map (Value.mapObject f)
  next : ∀ o ∈ known, ∀ name q, h.field? o name = some (.object q) → q ∈ known

namespace Renames

variable {known : Set ObjId} {f : ObjId → ObjId}

/-- A path from a known value stays among the known objects, and leads from the renamed
value to what is renamed. -/
theorem follow_eq_map (hr : Renames h h' known f) {path : List String}
    (hv : ∀ o, v = .object o → o ∈ known) :
    h'.follow (v.mapObject f) path = (h.follow v path).map (Value.mapObject f) ∧
      ∀ o, h.follow v path = some (.object o) → o ∈ known := by
  induction path generalizing v with
  | nil => exact ⟨rfl, fun o ho => hv o (Option.some.inj ho)⟩
  | cons name path ih =>
    cases v with
    | object o =>
      have ho := hv o rfl
      simp only [Value.mapObject, follow, hr.fields o ho name]
      cases hfield : h.field? o name with
      | none => simp
      | some w => exact ih fun q hq => hr.next o ho name q (hq ▸ hfield)
    | int n => simp [Value.mapObject, follow]
    | bool b => simp [Value.mapObject, follow]
    | str text => simp [Value.mapObject, follow]
    | void => simp [Value.mapObject, follow]
    | func id => simp [Value.mapObject, follow]

theorem exactCopy (hr : Renames h h' known f)
    (hunchanged : ∀ o : ObjId, o.index < h.size → h'.fields o = h.fields o)
    (hv : ∀ o, v = .object o → o ∈ known) : ExactCopy h v h' (v.mapObject f) := by
  have hfollow : ∀ path,
      h'.follow (v.mapObject f) path = (h.follow v path).map (Value.mapObject f) :=
    fun path => (hr.follow_eq_map hv).1
  have hknown : ∀ {path o}, h.follow v path = some (.object o) → o ∈ known :=
    fun hpath => (hr.follow_eq_map hv).2 _ hpath
  have hsub : h.reach v ⊆ known := fun o ⟨_, ho⟩ => hknown ho
  have himage : ∀ {path q}, h'.follow (v.mapObject f) path = some (.object q) ↔
      ∃ o, h.follow v path = some (.object o) ∧ f o = q := by
    intro path q
    rw [hfollow, Option.map_eq_some_iff]
    constructor
    · rintro ⟨w, hw, hq⟩
      obtain ⟨o, rfl, ho⟩ := mapObject_eq_object.mp hq
      exact ⟨o, hw, ho⟩
    · rintro ⟨o, ho, rfl⟩
      exact ⟨.object o, ho, rfl⟩
  refine ⟨hunchanged, ⟨f, ⟨?_, hr.inj.mono hsub, ?_⟩, rfl, fun o ho => hr.fields o (hsub ho)⟩,
    ?_, ?_⟩
  · rintro o ⟨path, ho⟩
    exact ⟨path, himage.mpr ⟨o, ho, rfl⟩⟩
  · rintro q ⟨path, hq⟩
    obtain ⟨o, ho, rfl⟩ := himage.mp hq
    exact ⟨o, ⟨path, ho⟩, rfl⟩
  · rintro q ⟨path, hq⟩
    obtain ⟨o, ho, rfl⟩ := himage.mp hq
    exact hr.new o (hknown ho)
  · intro path path'
    constructor
    · rintro ⟨o, ho, ho'⟩
      exact ⟨f o, himage.mpr ⟨o, ho, rfl⟩, himage.mpr ⟨o, ho', rfl⟩⟩
    · rintro ⟨q, hq, hq'⟩
      obtain ⟨a, ha, rfl⟩ := himage.mp hq
      obtain ⟨b, hb, hab⟩ := himage.mp hq'
      -- Different objects have different copies, so the paths have met before.
      rw [hr.inj (hknown hb) (hknown ha) hab] at hb
      exact ⟨a, ha, hb⟩

end Renames

/-! ### Copies of listed objects -/

theorem closed_iff : h.Closed ↔
    ∀ fields ∈ h.objects.toList, ∀ e ∈ fields.entries, ∀ q ∈ e.2.object?, q.index < h.size := by
  constructor
  · intro hclosed fields hfields e he q hq
    obtain ⟨i, hi, rfl⟩ := List.getElem_of_mem hfields
    refine hclosed ⟨i⟩ q (List.mem_filterMap.mpr ⟨e, ?_, hq⟩)
    simpa [Heap.fields, Array.getD_eq_getD_getElem?, show i < h.objects.size from hi] using he
  · intro hall o q hedge
    obtain ⟨e, he, hq⟩ := List.mem_filterMap.mp hedge
    by_cases ho : o.index < h.size
    · refine hall (h.fields o) ?_ e he q hq
      rw [Heap.fields, Array.getD_eq_getD_getElem?, Array.getElem?_eq_getElem ho]
      exact Array.getElem_mem_toList ho
    · rw [fields_of_ge (Nat.le_of_not_lt ho)] at he
      cases he

instance : Decidable h.Closed := decidable_of_iff _ closed_iff.symm

theorem edge_of_field? {name : String} (hfield : h.field? o name = some (.object q)) :
    h.Edge o q :=
  edge_iff.mpr ⟨_, Table.mem_of_find? hfield, rfl⟩

/-- What looks like the original, in objects that refer to one another only, is an exact copy. -/
theorem CopyOf.exactCopy (hcopy : CopyOf h h' v v') (hcopied : Copied h h') :
    ExactCopy h v h' v' := by
  obtain ⟨f, hinj, hv', hfields, himage⟩ := hcopy.isomorphic.exists_image
  have hnew : ∀ q, h'.ReachedFrom v' q → New h h' q := by
    intro q hq
    refine hq.induct hcopy.new ?_
    intro o q _ ho hedge
    exact hcopied.edges ho.1 hedge
  have hr : Renames h h' {o | h.ReachedFrom v o} f := by
    refine ⟨fun o ho q hq => hinj o q ho hq, fun o ho => hnew _ (himage o ho), ?_, ?_⟩
    · intro o ho name
      rw [field?, hfields o ho, Table.find?_map, field?]
    · intro o ho name q hfield
      exact ho.tail (edge_of_field? hfield)
  rw [hv']
  exact hr.exactCopy (fun o ho => hcopied.fields_eq ho) fun o ho => ⟨o, ho, .refl⟩

theorem exactCopy_listed (hclosed : h.Closed) (hv : h.Has v) :
    ExactCopy h v (h.deepCopy v).2 (h.deepCopy v).1 := by
  obtain ⟨hcopied, hiso, hhas, hfresh⟩ := isomorphic_deepCopy hclosed hv
  exact CopyOf.exactCopy ⟨hiso, fun o ho => ⟨hfresh o ho, hhas o ho⟩⟩ hcopied

/-! ### Copies on the way -/

/-- A way to go through the fields of objects: each field that is found comes once, in an
order that may be another one for each object. -/
structure Enumeration where
  list : ObjId → Fields → List (String × Value)
  nodup : ∀ o fields, ((list o fields).map Prod.fst).Nodup
  lookup_eq : ∀ o fields name, Table.lookup name (list o fields) = fields.find? name

/-- Any rearrangement of the fields gives an order. -/
def Enumeration.rearranged (arrange : ObjId → List (String × Value) → List (String × Value))
    (hperm : ∀ o entries, (arrange o entries).Perm entries) : Enumeration where
  -- A table has no name twice, and if it had one, the first entry would count.
  list o fields := arrange o (Table.empty.insertAll fields.entries.reverse).entries
  nodup o fields :=
    ((hperm o _).map Prod.fst).nodup_iff.mpr (Table.distinct_empty.insertAll _)
  lookup_eq o fields name := by
    have hnodup := (Table.distinct_empty (α := Value)).insertAll fields.entries.reverse
    rw [Table.lookup_perm (hperm o _) (((hperm o _).map Prod.fst).nodup_iff.mpr hnodup)]
    show (Table.empty.insertAll fields.entries.reverse).find? name = fields.find? name
    rw [Table.find?_insertAll, List.reverse_reverse, Table.find?_empty, Option.or_none]
    rfl

/-- A heap with copies being made, and the copy of each object that has one. -/
structure Copying where
  heap : Heap
  copies : ObjId → Option ObjId

namespace Copying

/-- No copy is made yet. -/
def start (h : Heap) : Copying := ⟨h, fun _ => none⟩

/-- The identity that the next copy has. -/
def next (c : Copying) : ObjId := ⟨c.heap.size⟩

/-- Makes a copy of an object, without fields for now. -/
def enter (c : Copying) (o : ObjId) : Copying where
  heap := (c.heap.alloc Table.empty).2
  copies := Function.update c.copies o (some c.next)

/-- Writes a field of a copy. -/
def write (c : Copying) (q : ObjId) (name : String) (v : Value) : Copying :=
  { c with heap := c.heap.setField q name v }

end Copying

/-- Writes copies of the values into the fields of an object, one after the other. -/
def copyEntries (copy : Copying → Value → Option (Value × Copying)) (q : ObjId) :
    Copying → List (String × Value) → Option Copying
  | c, [] => some c
  | c, (name, v) :: rest => do
    let (v, c) ← copy c v
    copyEntries copy q (c.write q name v) rest

/-- The copy of a value. An object that has a copy is not copied again; any other one has
a copy, without fields, before its fields are looked at. There is no result if the given
number of levels is not enough. -/
def copyFrom (order : Enumeration) : (levels : Nat) → Copying → Value → Option (Value × Copying)
  | 0, _, _ => none
  | levels + 1, c, .object o =>
    match c.copies o with
    | some q => some (.object q, c)
    | none => do
      let c' ← copyEntries (copyFrom order levels) c.next (c.enter o)
        (order.list o (c.heap.fields o))
      some (.object c.next, c')
  | _ + 1, c, v => some (v, c)

theorem copyEntries_mono {copy copy' : Copying → Value → Option (Value × Copying)}
    (hcopy : ∀ {c v r}, copy c v = some r → copy' c v = some r)
    {entries : List (String × Value)} {c c' : Copying}
    (hrun : copyEntries copy q c entries = some c') : copyEntries copy' q c entries = some c' := by
  induction entries generalizing c with
  | nil => exact hrun
  | cons e rest ih =>
    obtain ⟨⟨v', c₁⟩, hv, hrest⟩ := Option.bind_eq_some_iff.mp hrun
    exact Option.bind_eq_some_iff.mpr ⟨(v', c₁), hcopy hv, ih hrest⟩

/-- More levels than are needed change nothing. -/
theorem copyFrom_mono {order : Enumeration} {levels levels' : Nat} {c : Copying}
    {r : Value × Copying} (hle : levels ≤ levels') (hrun : copyFrom order levels c v = some r) :
    copyFrom order levels' c v = some r := by
  induction levels generalizing levels' c v r with
  | zero => cases hrun
  | succ levels ih =>
    obtain ⟨levels', rfl⟩ := Nat.exists_eq_succ_of_ne_zero (Nat.ne_of_gt (Nat.zero_lt_of_lt hle))
    cases v with
    | object o =>
      rw [copyFrom] at hrun ⊢
      cases hcopy : c.copies o with
      | some q => rwa [hcopy] at hrun
      | none =>
        simp only [hcopy] at hrun ⊢
        obtain ⟨c', hc', hr⟩ := Option.bind_eq_some_iff.mp hrun
        exact Option.bind_eq_some_iff.mpr
          ⟨c', copyEntries_mono (ih (Nat.le_of_succ_le_succ hle)) hc', hr⟩
    | int n => exact hrun
    | bool b => exact hrun
    | str text => exact hrun
    | void => exact hrun
    | func id => exact hrun

/-- The second value is the copy of the first one, by the table of copies. -/
inductive Twin (copies : ObjId → Option ObjId) : Value → Value → Prop
  | plain {v : Value} (hv : ∀ o, v ≠ .object o) : Twin copies v v
  | object {o q : ObjId} (ho : copies o = some q) : Twin copies (.object o) (.object q)

theorem Twin.mono {copies copies' : ObjId → Option ObjId} (ht : Twin copies v v')
    (hle : ∀ o q, copies o = some q → copies' o = some q) : Twin copies' v v' := by
  cases ht with
  | plain hv => exact .plain hv
  | object ho => exact .object (hle _ _ ho)

theorem Twin.rel_mono {copies copies' : ObjId → Option ObjId} {a b : Option Value}
    (hrel : Option.Rel (Twin copies) a b)
    (hle : ∀ o q, copies o = some q → copies' o = some q) : Option.Rel (Twin copies') a b := by
  cases hrel with
  | none => exact .none
  | some ht => exact .some (ht.mono hle)

/-- The table of copies as a function on all objects; those without a copy are left. -/
def rename (copies : ObjId → Option ObjId) (o : ObjId) : ObjId := (copies o).getD o

theorem rename_of_eq_some {copies : ObjId → Option ObjId} (ho : copies o = some q) :
    rename copies o = q := by
  rw [rename, ho, Option.getD_some]

theorem Twin.eq_mapObject {copies : ObjId → Option ObjId} (ht : Twin copies v v') :
    v' = v.mapObject (rename copies) ∧ ∀ o, v = .object o → (copies o).isSome := by
  cases ht with
  | plain hv =>
    refine ⟨?_, fun o ho => absurd ho (hv o)⟩
    cases v with
    | object o => exact absurd rfl (hv o)
    | _ => rfl
  | object ho =>
    refine ⟨by rw [Value.mapObject, rename_of_eq_some ho], fun o ho' => ?_⟩
    cases ho'
    exact Option.isSome_of_eq_some ho

theorem Twin.rel_eq_map {copies : ObjId → Option ObjId} {a b : Option Value}
    (hrel : Option.Rel (Twin copies) a b) :
    b = a.map (Value.mapObject (rename copies)) ∧ ∀ o, a = some (.object o) → (copies o).isSome := by
  cases hrel with
  | none => exact ⟨rfl, nofun⟩
  | some ht =>
    obtain ⟨rfl, hcopied⟩ := ht.eq_mapObject
    exact ⟨rfl, fun o ho => hcopied o (Option.some.inj ho)⟩

namespace Copying

variable {c c' c'' : Copying}

/-- What is true of the copies at any time: they are new objects, different ones for
different originals, and the originals are as they were. -/
structure Sound (h : Heap) (c : Copying) : Prop where
  size_le : h.size ≤ c.heap.size
  unchanged : ∀ o : ObjId, o.index < h.size → c.heap.fields o = h.fields o
  new : ∀ o q, c.copies o = some q → New h c.heap q
  inj : ∀ o o' q, c.copies o = some q → c.copies o' = some q → o = o'

/-- The copy has all fields of the original. -/
def Complete (h : Heap) (c : Copying) (o q : ObjId) : Prop :=
  ∀ name, Option.Rel (Twin c.copies) (h.field? o name) (c.heap.field? q name)

/-- What is added on the way from one time to another: copies that are complete. Objects
that were there keep their fields, but for the one copy that is being filled. -/
structure Grows (h : Heap) (filled : Option ObjId) (c c' : Copying) : Prop where
  size_le : c.heap.size ≤ c'.heap.size
  fields_eq : ∀ q : ObjId, q.index < c.heap.size → filled ≠ some q →
    c'.heap.fields q = c.heap.fields q
  copies_eq : ∀ o q, c.copies o = some q → c'.copies o = some q
  complete : ∀ o q, c.copies o = none → c'.copies o = some q →
    c.heap.size ≤ q.index ∧ Complete h c' o q

/-- The number of objects that have no copy yet. -/
def left (h : Heap) (c : Copying) : Nat :=
  ((Finset.range h.size).filter fun i => c.copies ⟨i⟩ = none).card

theorem sound_start (h : Heap) : Sound h (start h) where
  size_le := Nat.le_refl _
  unchanged := fun _ _ => rfl
  new := fun o q ho => by cases ho
  inj := fun o o' q ho => by cases ho

namespace Grows

variable {filled : Option ObjId}

theorem refl (h : Heap) (c : Copying) : Grows h filled c c where
  size_le := Nat.le_refl _
  fields_eq := fun _ _ _ => rfl
  copies_eq := fun _ _ ho => ho
  complete := fun o q hnone ho => by
    rw [hnone] at ho
    cases ho

/-- What was complete stays so, if it is not the copy being filled. -/
theorem complete_of_complete (hg : Grows h filled c c') (hq : q.index < c.heap.size)
    (hne : filled ≠ some q) (hc : Complete h c o q) : Complete h c' o q := by
  intro name
  have hfield : c'.heap.field? q name = c.heap.field? q name :=
    congrArg (Table.find? · name) (hg.fields_eq q hq hne)
  rw [hfield]
  exact Twin.rel_mono (hc name) hg.copies_eq

theorem trans (h₁ : Grows h filled c c') (hs : Sound h c') (h₂ : Grows h filled c' c'')
    (hfilled : ∀ q, filled = some q → q.index < c.heap.size) : Grows h filled c c'' where
  size_le := Nat.le_trans h₁.size_le h₂.size_le
  fields_eq := fun q hq hne =>
    (h₂.fields_eq q (Nat.lt_of_lt_of_le hq h₁.size_le) hne).trans (h₁.fields_eq q hq hne)
  copies_eq := fun o q ho => h₂.copies_eq o q (h₁.copies_eq o q ho)
  complete := fun o q hnone ho => by
    cases hmid : c'.copies o with
    | none =>
      obtain ⟨hge, hc⟩ := h₂.complete o q hmid ho
      exact ⟨Nat.le_trans h₁.size_le hge, hc⟩
    | some q' =>
      -- The copy was made and completed in the first part; the second part keeps it.
      have hq := h₂.copies_eq o q' hmid
      rw [ho] at hq
      cases hq
      obtain ⟨hge, hc⟩ := h₁.complete o q hnone hmid
      refine ⟨hge, h₂.complete_of_complete (hs.new o q hmid).2 (fun hf => ?_) hc⟩
      have := hfilled q hf
      omega

theorem weaken (hg : Grows h none c c') : Grows h filled c c' :=
  ⟨hg.size_le, fun q hq _ => hg.fields_eq q hq (Option.some_ne_none q).symm, hg.copies_eq,
    hg.complete⟩

theorem left_le (hg : Grows h filled c c') : left h c' ≤ left h c := by
  refine Finset.card_le_card fun i hi => ?_
  rw [Finset.mem_filter] at hi ⊢
  refine ⟨hi.1, ?_⟩
  cases hc : c.copies ⟨i⟩ with
  | none => rfl
  | some q =>
    have := hg.copies_eq _ _ hc
    rw [hi.2] at this
    cases this

end Grows

/-! ### Entering and writing -/

@[simp]
theorem size_enter (c : Copying) (o : ObjId) : (c.enter o).heap.size = c.heap.size + 1 := by
  simp [enter, alloc, size]

theorem fields_enter (c : Copying) (o q : ObjId) :
    (c.enter o).heap.fields q = if q = c.next then Table.empty else c.heap.fields q := by
  obtain ⟨i⟩ := q
  simp [enter, fields_alloc, next]

theorem copies_enter (c : Copying) (o a : ObjId) :
    (c.enter o).copies a = if a = o then some c.next else c.copies a :=
  Function.update_apply ..

@[simp]
theorem size_write (c : Copying) (q : ObjId) (name : String) (v : Value) :
    (c.write q name v).heap.size = c.heap.size := by
  simp [write, Heap.setField, size]

@[simp]
theorem copies_write (c : Copying) (q : ObjId) (name : String) (v : Value) :
    (c.write q name v).copies = c.copies := rfl

theorem fields_write_of_ne (hne : o ≠ q) (name : String) (v : Value) :
    (c.write q name v).heap.fields o = c.heap.fields o := by
  rw [write, fields_setField, if_neg fun hand => hne hand.1]

theorem fields_write_self (hq : q.index < c.heap.size) (name : String) (v : Value) :
    (c.write q name v).heap.fields q = (c.heap.fields q).insert name v := by
  rw [write, fields_setField, if_pos ⟨rfl, hq⟩]

theorem Sound.write (hs : Sound h c) (hq : h.size ≤ q.index) (name : String) (v : Value) :
    Sound h (c.write q name v) where
  size_le := by simpa using hs.size_le
  unchanged := fun o ho => by
    rw [fields_write_of_ne (by rintro rfl; omega), hs.unchanged o ho]
  new := fun o x ho => by simpa [New] using hs.new o x ho
  inj := hs.inj

theorem grows_write (h : Heap) (c : Copying) (q : ObjId) (name : String) (v : Value) :
    Grows h (some q) c (c.write q name v) where
  size_le := by simp
  fields_eq := fun x _ hne => fields_write_of_ne (fun hx => hne (congrArg some hx.symm)) name v
  copies_eq := fun _ _ ho => ho
  complete := fun o x hnone ho => by
    rw [copies_write, hnone] at ho
    cases ho

theorem Sound.enter (hs : Sound h c) (o : ObjId) : Sound h (c.enter o) := by
  have hle := hs.size_le
  -- A copy that there was is not at the end of the heap.
  have hold : ∀ {a}, c.copies a ≠ some c.next := fun ha =>
    absurd (hs.new _ _ ha).2 (Nat.lt_irrefl _)
  refine ⟨?_, ?_, ?_, ?_⟩
  · rw [size_enter]
    omega
  · intro a ha
    rw [fields_enter, if_neg, hs.unchanged a ha]
    rintro rfl
    exact absurd ha (Nat.not_lt.mpr hle)
  · intro a q ha
    rw [copies_enter] at ha
    rw [New, size_enter]
    split at ha
    · cases ha
      exact ⟨hle, Nat.lt_succ_self _⟩
    · obtain ⟨hge, hlt⟩ := hs.new a q ha
      exact ⟨hge, Nat.lt_succ_of_lt hlt⟩
  · intro a b q ha hb
    rw [copies_enter] at ha hb
    split at ha
    · next hao =>
      cases ha
      split at hb
      · next hbo => rw [hao, hbo]
      · exact absurd hb hold
    · split at hb
      · cases hb
        exact absurd ha hold
      · exact hs.inj a b q ha hb

theorem left_enter_lt (ho : o.index < h.size) (hnone : c.copies o = none) :
    left h (c.enter o) < left h c := by
  refine Finset.card_lt_card ((Finset.ssubset_iff_of_subset ?_).mpr ⟨o.index, ?_, ?_⟩)
  · intro i hi
    rw [Finset.mem_filter, copies_enter] at hi
    rw [Finset.mem_filter]
    refine ⟨hi.1, ?_⟩
    split at hi
    · cases hi.2
    · exact hi.2
  · exact Finset.mem_filter.mpr ⟨Finset.mem_range.mpr ho, hnone⟩
  · rw [Finset.mem_filter, copies_enter, if_pos rfl]
    rintro ⟨-, hsome⟩
    cases hsome

/-- What a way of copying has to do, if no more than so many objects have no copy yet. -/
def Works (h : Heap) (levels : Nat) (copy : Copying → Value → Option (Value × Copying)) : Prop :=
  ∀ c v, Sound h c → h.Has v → left h c < levels →
    ∃ v' c', copy c v = some (v', c') ∧ Sound h c' ∧ Grows h none c c' ∧ Twin c'.copies v v'

/-- The fields of a copy are written one after the other. The calls between the writes
leave the half-filled copy alone. -/
theorem Works.copyEntries {levels : Nat} {copy : Copying → Value → Option (Value × Copying)}
    (hcopy : Works h levels copy) {entries : List (String × Value)}
    (hentries : ∀ e ∈ entries, h.Has e.2) (hs : Sound h c) (hq : New h c.heap q)
    (hleft : left h c < levels) :
    ∃ c' written, copyEntries copy q c entries = some c' ∧ Sound h c' ∧ Grows h (some q) c c' ∧
      List.Forall₂ (fun e e' => e'.1 = e.1 ∧ Twin c'.copies e.2 e'.2) entries written ∧
      c'.heap.fields q = (c.heap.fields q).insertAll written := by
  induction entries generalizing c with
  | nil => exact ⟨c, [], rfl, hs, .refl h c, .nil, rfl⟩
  | cons e rest ih =>
    obtain ⟨name, v⟩ := e
    obtain ⟨v', c₁, hrun, hs₁, hg₁, htwin⟩ :=
      hcopy c v hs (hentries (name, v) List.mem_cons_self) hleft
    have hlt : q.index < c₁.heap.size := Nat.lt_of_lt_of_le hq.2 hg₁.size_le
    have hs₂ := hs₁.write hq.1 name v'
    have hfilled : ∀ x, some q = some x → x.index < c.heap.size := by
      rintro x hx
      cases hx
      exact hq.2
    have hg : Grows h (some q) c (c₁.write q name v') :=
      hg₁.weaken.trans hs₁ (grows_write h c₁ q name v') hfilled
    obtain ⟨c', written, hrest, hs', hg', hwritten, hfields⟩ :=
      ih (fun e he => hentries e (List.mem_cons_of_mem _ he)) hs₂
        ⟨hq.1, Nat.lt_of_lt_of_le hq.2 hg.size_le⟩ (Nat.lt_of_le_of_lt hg.left_le hleft)
    refine ⟨c', (name, v') :: written, ?_, hs', hg.trans hs₂ hg' hfilled,
      .cons ⟨rfl, htwin.mono hg'.copies_eq⟩ hwritten, ?_⟩
    · rw [Heap.copyEntries, hrun]
      exact hrest
    · have hq₁ := hg₁.fields_eq q hq.2 (Option.some_ne_none q).symm
      rw [hfields, fields_write_self hlt, hq₁]
      rfl

/-- What is added after a copy was entered, and that copy too once it is complete, is added
to what there was before. -/
theorem Grows.of_enter (hnone : c.copies o = none) (hg : Grows h (some c.next) (c.enter o) c')
    (hcomplete : Complete h c' o c.next) : Grows h none c c' where
  size_le := Nat.le_trans (by simp) hg.size_le
  fields_eq := fun q hq _ => by
    have hne : q ≠ c.next := by
      rintro rfl
      exact Nat.lt_irrefl _ hq
    rw [hg.fields_eq q (by simpa using Nat.lt_succ_of_lt hq) (by simpa using hne.symm),
      fields_enter, if_neg hne]
  copies_eq := fun a q ha => by
    refine hg.copies_eq a q ?_
    rw [copies_enter, if_neg, ha]
    rintro rfl
    rw [hnone] at ha
    cases ha
  complete := fun a q ha haq => by
    by_cases hao : a = o
    · rw [hao, hg.copies_eq o c.next (by rw [copies_enter, if_pos rfl])] at haq
      cases haq
      exact ⟨Nat.le_refl _, hao ▸ hcomplete⟩
    · obtain ⟨hge, hc⟩ := hg.complete a q (by rw [copies_enter, if_neg hao, ha]) haq
      exact ⟨Nat.le_trans (by simp) hge, hc⟩

/-- A copy that is entered and filled is complete. -/
theorem Works.enter {levels : Nat} {copy : Copying → Value → Option (Value × Copying)}
    (hcopy : Works h levels copy) (hclosed : h.Closed) {entries : List (String × Value)}
    (hnodup : (entries.map Prod.fst).Nodup)
    (hentries : ∀ name, Table.lookup name entries = h.field? o name) (hs : Sound h c)
    (ho : o.index < h.size) (hnone : c.copies o = none) (hleft : left h c ≤ levels) :
    ∃ c', Heap.copyEntries copy c.next (c.enter o) entries = some c' ∧ Sound h c' ∧
      Grows h none c c' ∧ c'.copies o = some c.next := by
  have hentered : (c.enter o).copies o = some c.next := by rw [copies_enter, if_pos rfl]
  have hhas : ∀ e ∈ entries, h.Has e.2 := by
    rintro ⟨name, w⟩ he q rfl
    have hfield : h.field? o name = some (.object q) :=
      (hentries name).symm.trans ((Table.lookup_eq_some_iff hnodup).mpr he)
    exact hclosed o q (edge_of_field? hfield)
  obtain ⟨c', written, hrun, hs', hg, hwritten, hfields⟩ :=
    hcopy.copyEntries hhas (hs.enter o) ((hs.enter o).new o c.next hentered)
      (Nat.lt_of_lt_of_le (left_enter_lt ho hnone) hleft)
  have hcomplete : Complete h c' o c.next := by
    intro name
    have hnames := Table.names_eq_of_forall₂ hwritten
    have hfield : c'.heap.field? c.next name = Table.lookup name written := by
      rw [field?, hfields, Table.find?_insertAll, Table.lookup_reverse (hnames ▸ hnodup),
        fields_enter, if_pos rfl, Table.find?_empty, Option.or_none]
    rw [hfield, ← hentries name]
    exact Table.lookup_rel hwritten name
  exact ⟨c', hrun, hs', hg.of_enter hnone hcomplete, hg.copies_eq o _ hentered⟩

theorem works_copyFrom (hclosed : h.Closed) (order : Enumeration) (levels : Nat) :
    Works h levels (copyFrom order levels) := by
  induction levels with
  | zero =>
    intro c v _ _ hleft
    exact absurd hleft (Nat.not_lt_zero _)
  | succ levels ih =>
    intro c v hs hv hleft
    cases v with
    | object o =>
      have ho := hv o rfl
      cases hcopy : c.copies o with
      | some q =>
        refine ⟨.object q, c, ?_, hs, .refl h c, .object hcopy⟩
        rw [copyFrom, hcopy]
      | none =>
        obtain ⟨c', hrun, hs', hg, hq⟩ :=
          ih.enter hclosed (order.nodup o (h.fields o)) (order.lookup_eq o (h.fields o)) hs ho
            hcopy (Nat.le_of_lt_succ hleft)
        refine ⟨.object c.next, c', ?_, hs', hg, .object hq⟩
        rw [copyFrom, hcopy, hs.unchanged o ho]
        simp only [hrun]
        rfl
    | int n => exact ⟨.int n, c, rfl, hs, .refl h c, .plain nofun⟩
    | bool b => exact ⟨.bool b, c, rfl, hs, .refl h c, .plain nofun⟩
    | str text => exact ⟨.str text, c, rfl, hs, .refl h c, .plain nofun⟩
    | void => exact ⟨.void, c, rfl, hs, .refl h c, .plain nofun⟩
    | func id => exact ⟨.func id, c, rfl, hs, .refl h c, .plain nofun⟩

/-- When everything that was entered is complete, the table of copies renames. -/
theorem Sound.renames (hs : Sound h c) (hcomplete : ∀ o q, c.copies o = some q → Complete h c o q) :
    Renames h c.heap {o | (c.copies o).isSome} (rename c.copies) := by
  have hcopy : ∀ {o}, (c.copies o).isSome → c.copies o = some (rename c.copies o) := by
    intro o ho
    obtain ⟨q, hq⟩ := Option.isSome_iff_exists.mp ho
    rw [rename_of_eq_some hq, hq]
  refine ⟨?_, ?_, ?_, ?_⟩
  · intro a ha b hb hab
    exact hs.inj a b _ (hcopy ha) (hab ▸ hcopy hb)
  · intro o ho
    exact hs.new o _ (hcopy ho)
  · intro o ho name
    exact (Twin.rel_eq_map (hcomplete o _ (hcopy ho) name)).1
  · intro o ho name q hq
    exact (Twin.rel_eq_map (hcomplete o _ (hcopy ho) name)).2 q hq

theorem left_le_size (h : Heap) (c : Copying) : left h c ≤ h.size := by
  have := Finset.card_filter_le (Finset.range h.size) fun i => c.copies ⟨i⟩ = none
  rwa [Finset.card_range] at this

end Copying

theorem exactCopy_copyFrom (hclosed : h.Closed) (hv : h.Has v) (order : Enumeration) :
    ∃ v' c, (∀ levels, h.size < levels → copyFrom order levels (.start h) v = some (v', c)) ∧
      ExactCopy h v c.heap v' := by
  obtain ⟨v', c, hrun, hs, hg, htwin⟩ := Copying.works_copyFrom hclosed order (h.size + 1)
    (.start h) v (Copying.sound_start h) hv (Nat.lt_succ_of_le (Copying.left_le_size h _))
  obtain ⟨rfl, hcopied⟩ := htwin.eq_mapObject
  -- At the start no object has a copy, so all copies have been made on the way.
  have hr := hs.renames fun o q ho => (hg.complete o q rfl ho).2
  exact ⟨_, c, fun levels hlevels => copyFrom_mono hlevels hrun, hr.exactCopy hs.unchanged hcopied⟩

/-- Deep copies are exact, for all objects with all their cycles and shared parts. They
are so too when they are made on the way, whatever order the fields come in, and that
ends after no more levels than there are objects. -/
theorem deepCopy_exact (hclosed : h.Closed) (hv : h.Has v) :
    ExactCopy h v (h.deepCopy v).2 (h.deepCopy v).1 ∧
      ∀ order : Enumeration, ∃ v' c,
        (∀ levels, h.size < levels → copyFrom order levels (.start h) v = some (v', c)) ∧
          ExactCopy h v c.heap v' :=
  ⟨exactCopy_listed hclosed hv, exactCopy_copyFrom hclosed hv⟩

/-- Two objects that refer to each other, one of them twice. -/
def tangled : Heap :=
  ⟨#[⟨[("left", .object ⟨1⟩), ("right", .object ⟨1⟩)]⟩,
    ⟨[("up", .object ⟨0⟩), ("count", .int 5)]⟩]⟩

/-- The fields of all objects, last one first. -/
def Enumeration.backwards : Enumeration :=
  .rearranged (fun _ entries => entries.reverse) fun _ entries => entries.reverse_perm

theorem deepCopy_exact_tangled :
    tangled.Closed ∧ tangled.Has (.object ⟨0⟩) ∧
      ExactCopy tangled (.object ⟨0⟩) (tangled.deepCopy (.object ⟨0⟩)).2
        (tangled.deepCopy (.object ⟨0⟩)).1 ∧
      ∃ v' c, (∀ levels, 2 < levels →
          copyFrom .backwards levels (.start tangled) (.object ⟨0⟩) = some (v', c)) ∧
        ExactCopy tangled (.object ⟨0⟩) c.heap v' := by
  have hclosed : tangled.Closed := by decide
  have hhas : tangled.Has (.object ⟨0⟩) := by
    intro o ho
    cases ho
    decide
  obtain ⟨hlisted, horder⟩ := deepCopy_exact hclosed hhas
  exact ⟨hclosed, hhas, hlisted, horder .backwards⟩

end Heap
end LineScript
