/-
The objects of a heap as a graph, and what deep copies preserve of it.

`Reaches` is the relation between objects of which `Heap.reachable` is the list: the
search finds everything, since each of its rounds but the last finds an object that was
not known, and there are no more objects than rounds (`mem_reachable_iff`). A deep copy
is an isomorphism onto objects that are all new (`isomorphic_deepCopy`), and the new
objects refer to one another only (`Copied`).
-/
import LineScript.Heap
import Mathlib.Data.List.Nodup
import Mathlib.Data.List.Perm.Subperm
import Mathlib.Logic.Relation

namespace LineScript

namespace Heap

/-- The first object has the second one in a field. -/
def Edge (h : Heap) (o q : ObjId) : Prop := q ∈ h.neighbours o

/-- There is a chain of fields from the first object to the second. -/
def Reaches (h : Heap) : ObjId → ObjId → Prop := Relation.ReflTransGen h.Edge

/-- The object can be reached from the value. -/
def ReachedFrom (h : Heap) (v : Value) (q : ObjId) : Prop :=
  ∃ o, v = .object o ∧ h.Reaches o q

/-- No object refers to one that was never made. -/
def Closed (h : Heap) : Prop := ∀ o q, h.Edge o q → q.index < h.size

variable {h h' : Heap} {o q : ObjId} {v v' : Value}

theorem edge_iff : h.Edge o q ↔ ∃ e ∈ (h.fields o).entries, e.2 = .object q := by
  rw [Edge, neighbours, List.mem_filterMap]
  refine exists_congr fun e => and_congr_right fun _ => ?_
  cases e.2 <;> simp [Value.object?]

theorem fields_of_ge (ho : h.size ≤ o.index) : h.fields o = Table.empty := by
  rw [fields, Array.getD_eq_getD_getElem?, Array.getElem?_eq_none (by exact ho)]
  rfl

theorem edge_congr (hfields : h'.fields o = h.fields o) : h'.Edge o q ↔ h.Edge o q := by
  rw [edge_iff, edge_iff, hfields]

theorem Closed.lt_of_reaches (hclosed : h.Closed) (ho : o.index < h.size) (hr : h.Reaches o q) :
    q.index < h.size := by
  induction hr with
  | refl => exact ho
  | tail _ hedge _ => exact hclosed _ _ hedge

/-! ### The search -/

theorem mem_addUnknown {known fresh list : List ObjId} :
    o ∈ addUnknown known fresh list ↔ o ∈ fresh ∨ (o ∈ list ∧ o ∉ known) := by
  induction list generalizing fresh with
  | nil => simp [addUnknown]
  | cons a rest ih =>
    rw [addUnknown, ih]
    by_cases ha : a ∈ known ∨ a ∈ fresh
    · rw [if_pos ha]
      constructor
      · rintro (h | ⟨h, hk⟩)
        · exact .inl h
        · exact .inr ⟨List.mem_cons_of_mem _ h, hk⟩
      · rintro (h | ⟨h, hk⟩)
        · exact .inl h
        · rcases List.mem_cons.mp h with rfl | h
          · exact .inl (ha.resolve_left hk)
          · exact .inr ⟨h, hk⟩
    · rw [if_neg ha, List.mem_append, List.mem_singleton]
      constructor
      · rintro ((h | rfl) | ⟨h, hk⟩)
        · exact .inl h
        · exact .inr ⟨List.mem_cons_self, fun hk => ha (.inl hk)⟩
        · exact .inr ⟨List.mem_cons_of_mem _ h, hk⟩
      · rintro (h | ⟨h, hk⟩)
        · exact .inl (.inl h)
        · rcases List.mem_cons.mp h with rfl | h
          · exact .inl (.inr rfl)
          · exact .inr ⟨h, hk⟩

theorem nodup_addUnknown {known fresh list : List ObjId} (hfresh : fresh.Nodup) :
    (addUnknown known fresh list).Nodup := by
  induction list generalizing fresh with
  | nil => exact hfresh
  | cons a rest ih =>
    rw [addUnknown]
    by_cases ha : a ∈ known ∨ a ∈ fresh
    · rw [if_pos ha]
      exact ih hfresh
    · rw [if_neg ha]
      refine ih (List.nodup_append.mpr ⟨hfresh, List.nodup_singleton a, ?_⟩)
      intro b hb c hc
      rw [List.mem_singleton] at hc
      rintro rfl
      exact ha (.inr (hc ▸ hb))

/-- Different objects that were made are no more than the heap has. -/
theorem length_le_size {listed : List ObjId} (hnodup : listed.Nodup)
    (hlt : ∀ o ∈ listed, o.index < h.size) : listed.length ≤ h.size := by
  have hindices : (listed.map ObjId.index).Nodup :=
    hnodup.map fun a b hab => congrArg ObjId.mk hab
  have hsub : listed.map ObjId.index ⊆ List.range h.size := by
    intro i hi
    obtain ⟨o, ho, rfl⟩ := List.mem_map.mp hi
    exact List.mem_range.mpr (hlt o ho)
  simpa using (List.subperm_of_subset hindices hsub).length_le

/-- The search ends with a list that is closed: it adds objects round by round, those
found last being the only ones whose fields were not looked at yet. -/
theorem closed_reachFrom {rounds : Nat} {known last : List ObjId} (hnodup : known.Nodup)
    (hlt : ∀ o ∈ known, o.index < h.size) (hclosed : h.Closed)
    (hseen : ∀ o ∈ known, o ∉ last → ∀ q, h.Edge o q → q ∈ known)
    (hrounds : h.size < known.length + rounds) :
    ∀ o ∈ h.reachFrom rounds known last, ∀ q, h.Edge o q → q ∈ h.reachFrom rounds known last := by
  induction rounds generalizing known last with
  | zero =>
    -- There are more rounds than objects, so the search has ended before.
    have := length_le_size hnodup hlt
    omega
  | succ rounds ih =>
    have hfresh : ∀ {q}, q ∈ addUnknown known [] (last.flatMap h.neighbours) ↔
        (∃ o ∈ last, h.Edge o q) ∧ q ∉ known := by
      intro q
      rw [mem_addUnknown, List.mem_flatMap]
      simp [Edge]
    rw [reachFrom]
    split
    · next hnone =>
      intro o ho q hedge
      by_cases hlast : o ∈ last
      · by_contra hq
        have := hfresh.mpr ⟨⟨o, hlast, hedge⟩, hq⟩
        rw [hnone] at this
        cases this
      · exact hseen o ho hlast q hedge
    · next fresh hne =>
      -- A round that adds nothing would have ended the search, so the list has grown.
      refine ih ?_ ?_ ?_ ?_
      · refine List.nodup_append.mpr ⟨hnodup, nodup_addUnknown List.nodup_nil, ?_⟩
        rintro a ha b hb rfl
        exact (hfresh.mp hb).2 ha
      · intro o ho
        rcases List.mem_append.mp ho with ho | ho
        · exact hlt o ho
        · obtain ⟨⟨a, -, hedge⟩, -⟩ := hfresh.mp ho
          exact hclosed a o hedge
      · intro o ho hnot q hedge
        rw [List.mem_append] at ho ⊢
        have ho := ho.resolve_right hnot
        by_cases hq : q ∈ known
        · exact .inl hq
        by_cases hlast : o ∈ last
        · exact .inr (hfresh.mpr ⟨⟨o, hlast, hedge⟩, hq⟩)
        · exact .inl (hseen o ho hlast q hedge)
      · have hpos := List.length_pos_iff.mpr hne
        rw [List.length_append]
        omega

theorem subset_reachFrom {rounds : Nat} {known last : List ObjId} :
    known ⊆ h.reachFrom rounds known last := by
  induction rounds generalizing known last with
  | zero => exact List.Subset.refl known
  | succ rounds ih =>
    rw [reachFrom]
    split
    · exact List.Subset.refl known
    · exact List.Subset.trans (List.subset_append_left _ _) ih

theorem reaches_of_mem_reachFrom {rounds : Nat} {known last : List ObjId}
    (hknown : ∀ q ∈ known, h.Reaches o q) (hlast : last ⊆ known) :
    ∀ q ∈ h.reachFrom rounds known last, h.Reaches o q := by
  induction rounds generalizing known last with
  | zero => exact hknown
  | succ rounds ih =>
    rw [reachFrom]
    split
    · exact hknown
    · refine ih ?_ (List.subset_append_right _ _)
      intro q hq
      rcases List.mem_append.mp hq with hq | hq
      · exact hknown q hq
      · rw [mem_addUnknown, List.mem_flatMap] at hq
        obtain ⟨a, ha, hedge⟩ := (hq.resolve_left List.not_mem_nil).1
        exact (hknown a (hlast ha)).tail hedge

/-- The search finds the objects that can be reached, and no others. -/
theorem mem_reachable_iff (hclosed : h.Closed) (ho : o.index < h.size) :
    q ∈ h.reachable o ↔ h.Reaches o q := by
  constructor
  · refine reaches_of_mem_reachFrom ?_ (List.Subset.refl _) q
    intro q hq
    rw [List.mem_singleton] at hq
    exact hq ▸ .refl
  · intro hr
    have hstep : ∀ a ∈ h.reachable o, ∀ q, h.Edge a q → q ∈ h.reachable o :=
      closed_reachFrom (List.nodup_singleton o) (by simpa using ho) hclosed
        (fun _ hq hn => absurd hq hn) (by simp)
    induction hr with
    | refl => exact subset_reachFrom (List.mem_singleton_self o)
    | tail _ hedge ih => exact hstep _ ih _ hedge

/-! ### Copies -/

/-- The objects of the second heap that the first one does not have. -/
def New (h h' : Heap) (o : ObjId) : Prop := h.size ≤ o.index ∧ o.index < h'.size

/-- The second heap has all objects of the first, and more; the others refer to one
another only, and hold no function that the first heap does not hold. -/
structure Copied (h h' : Heap) : Prop where
  size_le : h.size ≤ h'.size
  fields_eq : ∀ {o : ObjId}, o.index < h.size → h'.fields o = h.fields o
  edges : ∀ {o q : ObjId}, h.size ≤ o.index → h'.Edge o q → New h h' q
  functions : ∀ {o : ObjId} {name : String} {id : FuncId}, h.size ≤ o.index →
    (name, .func (some id)) ∈ (h'.fields o).entries →
      ∃ q, (name, .func (some id)) ∈ (h.fields q).entries

namespace Copied

theorem refl (h : Heap) : Copied h h where
  size_le := Nat.le_refl _
  fields_eq := fun _ => rfl
  edges := fun ho hedge => by
    rw [edge_iff, fields_of_ge ho] at hedge
    obtain ⟨e, he, -⟩ := hedge
    cases he
  functions := fun ho he => by
    rw [fields_of_ge ho] at he
    cases he

theorem trans {h'' : Heap} (h₁ : Copied h h') (h₂ : Copied h' h'') : Copied h h'' where
  size_le := Nat.le_trans h₁.size_le h₂.size_le
  fields_eq := fun ho => (h₂.fields_eq (Nat.lt_of_lt_of_le ho h₁.size_le)).trans (h₁.fields_eq ho)
  edges := fun {o q} ho hedge => by
    have := h₁.size_le
    have := h₂.size_le
    by_cases hlt : o.index < h'.size
    · rw [edge_congr (h₂.fields_eq hlt)] at hedge
      obtain ⟨hge, hlt⟩ := h₁.edges ho hedge
      exact ⟨hge, by omega⟩
    · obtain ⟨hge, hlt⟩ := h₂.edges (Nat.le_of_not_lt hlt) hedge
      exact ⟨by omega, hlt⟩
  functions := fun {o _ _} ho he => by
    -- A copy of a copy holds what the first copy holds, and that is what the original holds.
    by_cases hlt : o.index < h'.size
    · rw [h₂.fields_eq hlt] at he
      exact h₁.functions ho he
    · obtain ⟨q, hq⟩ := h₂.functions (Nat.le_of_not_lt hlt) he
      by_cases hlt' : q.index < h.size
      · exact ⟨q, h₁.fields_eq hlt' ▸ hq⟩
      · exact h₁.functions (Nat.le_of_not_lt hlt') hq

theorem closed (hcopied : Copied h h') (hclosed : h.Closed) : h'.Closed := by
  intro o q hedge
  by_cases hlt : o.index < h.size
  · rw [edge_congr (hcopied.fields_eq hlt)] at hedge
    exact Nat.lt_of_lt_of_le (hclosed o q hedge) hcopied.size_le
  · exact (hcopied.edges (Nat.le_of_not_lt hlt) hedge).2

end Copied

/-- The heap with copies of the listed objects at its end. -/
def withCopies (h : Heap) (listed : List ObjId) : Heap :=
  ⟨h.objects ++ (listed.map (h.copyFields listed)).toArray⟩

theorem deepCopy_object (h : Heap) (o : ObjId) :
    h.deepCopy (.object o) =
      (.object (h.copyId (h.reachable o) o), h.withCopies (h.reachable o)) := rfl

theorem size_withCopies (h : Heap) (listed : List ObjId) :
    (h.withCopies listed).size = h.size + listed.length := by
  simp [withCopies, size]

/-- A new object is the copy of a listed one. -/
theorem fields_withCopies {listed : List ObjId} {i : Nat} (hi : i < listed.length) :
    (h.withCopies listed).fields ⟨h.size + i⟩ = h.copyFields listed listed[i] := by
  simp [withCopies, fields, size, hi]

theorem fields_copyId {listed : List ObjId} (hq : q ∈ listed) :
    (h.withCopies listed).fields (h.copyId listed q) = h.copyFields listed q := by
  rw [copyId, fields_withCopies (List.idxOf_lt_length_iff.mpr hq), List.getElem_idxOf]

theorem mapObject_eq_object {f : ObjId → ObjId} :
    v.mapObject f = .object q ↔ ∃ o, v = .object o ∧ f o = q := by
  cases v <;> simp [Value.mapObject]

theorem mapObject_eq_func {f : ObjId → ObjId} {id : Option FuncId} :
    v.mapObject f = .func id ↔ v = .func id := by
  cases v <;> simp [Value.mapObject]

theorem copied_withCopies {listed : List ObjId}
    (hlisted : ∀ o ∈ listed, ∀ q, h.Edge o q → q ∈ listed) : Copied h (h.withCopies listed) := by
  -- A new object is the copy of the object at its place in the list.
  have hnew : ∀ {a : ObjId} {e : String × Value}, h.size ≤ a.index →
      e ∈ ((h.withCopies listed).fields a).entries → ∃ o ∈ listed, ∃ e' ∈ (h.fields o).entries,
        e = (e'.1, e'.2.mapObject (h.copyId listed)) := by
    intro a e ha he
    obtain ⟨i, hi⟩ := Nat.le.dest ha
    obtain ⟨index⟩ := a
    simp only at hi
    subst hi
    by_cases hlt : i < listed.length
    · rw [fields_withCopies hlt] at he
      obtain ⟨e', he', rfl⟩ := List.mem_map.mp he
      exact ⟨listed[i], List.getElem_mem hlt, e', he', rfl⟩
    · rw [fields_of_ge (by rw [size_withCopies]; simp only; omega)] at he
      cases he
  refine ⟨by rw [size_withCopies]; omega, fun {o} ho => ?_, fun {o q} ho hedge => ?_,
    fun {o name id} ho he => ?_⟩
  · simp only [withCopies, fields, Array.getD_eq_getD_getElem?]
    rw [Array.getElem?_append_left ho]
  · obtain ⟨e, he, hq⟩ := edge_iff.mp hedge
    obtain ⟨a, ha, e', he', rfl⟩ := hnew ho he
    obtain ⟨r, hr, rfl⟩ := mapObject_eq_object.mp hq
    have hidx := List.idxOf_lt_length_iff.mpr (hlisted a ha r (edge_iff.mpr ⟨e', he', hr⟩))
    rw [New, size_withCopies]
    simp only [copyId]
    omega
  · obtain ⟨a, -, e', he', heq⟩ := hnew ho he
    obtain ⟨rfl, hfunc⟩ := Prod.mk.inj heq
    rw [eq_comm, mapObject_eq_func] at hfunc
    exact ⟨a, hfunc ▸ he'⟩

/-! ### Isomorphic values -/

/-- The two values look the same, as far as fields go: the objects reachable from the
first correspond to different objects of the second heap, with the same fields. -/
def Isomorphic (h : Heap) (v : Value) (h' : Heap) (v' : Value) : Prop :=
  ∃ f : ObjId → ObjId,
    (∀ o q, h.ReachedFrom v o → h.ReachedFrom v q → f o = f q → o = q) ∧
    v' = v.mapObject f ∧
    ∀ o, h.ReachedFrom v o → h'.fields (f o) = (h.fields o).map (Value.mapObject f)

theorem ReachedFrom.tail (hr : h.ReachedFrom v o) (hedge : h.Edge o q) : h.ReachedFrom v q := by
  obtain ⟨a, hv, hr⟩ := hr
  exact ⟨a, hv, Relation.ReflTransGen.tail hr hedge⟩

/-- To hold of all objects that are reachable it is enough to hold of the first one and
to be passed on along fields. -/
theorem ReachedFrom.induct {P : ObjId → Prop} (hr : h.ReachedFrom v q)
    (hfirst : ∀ o, v = .object o → P o)
    (hnext : ∀ o q, h.ReachedFrom v o → P o → h.Edge o q → P q) : P q := by
  obtain ⟨a, hv, hr⟩ := hr
  induction hr with
  | refl => exact hfirst a hv
  | tail hrow hedge ih => exact hnext _ _ ⟨a, hv, hrow⟩ ih hedge

/-- What can be reached depends on the objects that can be reached. -/
theorem ReachedFrom.congr (hfields : ∀ o, h.ReachedFrom v o → h'.fields o = h.fields o) :
    h'.ReachedFrom v q ↔ h.ReachedFrom v q := by
  have hfirst : ∀ {g : Heap} (o : ObjId), v = .object o → g.ReachedFrom v o :=
    fun o hv => ⟨o, hv, .refl⟩
  constructor
  · intro hr
    refine hr.induct (fun o hv => hfirst o hv) ?_
    intro o q _ ho hedge
    exact ho.tail ((edge_congr (hfields o ho)).mp hedge)
  · intro hr
    refine hr.induct (fun o hv => hfirst o hv) ?_
    intro o q hro ho hedge
    exact ho.tail ((edge_congr (hfields o hro)).mpr hedge)

namespace Isomorphic

variable {h'' : Heap} {v'' : Value}

theorem refl (h : Heap) (v : Value) : Isomorphic h v h v := by
  have hmap : ∀ v : Value, v.mapObject id = v := fun v => by cases v <;> rfl
  refine ⟨id, fun _ _ _ _ hoq => hoq, (hmap v).symm, ?_⟩
  intro o _
  rw [Table.map, show Value.mapObject id = id from funext hmap]
  simp

/-- What is reachable from the first value corresponds to what is reachable from the
second. -/
theorem exists_image (hiso : Isomorphic h v h' v') :
    ∃ f : ObjId → ObjId,
      (∀ o q, h.ReachedFrom v o → h.ReachedFrom v q → f o = f q → o = q) ∧
      v' = v.mapObject f ∧
      (∀ o, h.ReachedFrom v o → h'.fields (f o) = (h.fields o).map (Value.mapObject f)) ∧
      ∀ o, h.ReachedFrom v o → h'.ReachedFrom v' (f o) := by
  obtain ⟨f, hinj, hv', hfields⟩ := hiso
  refine ⟨f, hinj, hv', hfields, ?_⟩
  intro o hr
  refine hr.induct (P := fun o => h'.ReachedFrom v' (f o)) ?_ ?_
  · intro a hv
    exact ⟨f a, by rw [hv', hv]; rfl, .refl⟩
  · intro a q hra ha hedge
    obtain ⟨e, he, hq⟩ := edge_iff.mp hedge
    refine ha.tail (edge_iff.mpr ⟨(e.1, e.2.mapObject f), ?_, by rw [hq]; rfl⟩)
    rw [hfields a hra]
    exact List.mem_map.mpr ⟨e, he, rfl⟩

theorem congr_right (hiso : Isomorphic h v h' v')
    (hfields : ∀ o, h'.ReachedFrom v' o → h''.fields o = h'.fields o) :
    Isomorphic h v h'' v' := by
  obtain ⟨f, hinj, hv', hmap, himage⟩ := hiso.exists_image
  exact ⟨f, hinj, hv', fun o hr => (hfields _ (himage o hr)).trans (hmap o hr)⟩

theorem congr_left (hiso : Isomorphic h v h' v')
    (hfields : ∀ o, h.ReachedFrom v o → h''.fields o = h.fields o) :
    Isomorphic h'' v h' v' := by
  obtain ⟨f, hinj, hv', hmap⟩ := hiso
  have hreach : ∀ {o}, h''.ReachedFrom v o → h.ReachedFrom v o := (ReachedFrom.congr hfields).mp
  refine ⟨f, fun o q ho hq => hinj o q (hreach ho) (hreach hq), hv', ?_⟩
  intro o ho
  rw [hmap o (hreach ho), hfields o (hreach ho)]

theorem trans (h₁ : Isomorphic h v h' v') (h₂ : Isomorphic h' v' h'' v'') :
    Isomorphic h v h'' v'' := by
  obtain ⟨f, hinj, hv', hmap, himage⟩ := h₁.exists_image
  obtain ⟨g, hinj', hv'', hmap'⟩ := h₂
  have hcomp : ∀ v : Value, (v.mapObject f).mapObject g = v.mapObject (g ∘ f) :=
    fun v => by cases v <;> rfl
  -- The second correspondence is known only where the first one leads to.
  refine ⟨g ∘ f, ?_, by rw [hv'', hv', hcomp], ?_⟩
  · intro o q ho hq heq
    exact hinj o q ho hq (hinj' _ _ (himage o ho) (himage q hq) heq)
  · intro o ho
    rw [Function.comp_apply, hmap' _ (himage o ho), hmap o ho]
    simp [Table.map, hcomp]

end Isomorphic

/-! ### Deep copies -/

/-- The value, if it is an object, is one that was made. -/
def Has (h : Heap) (v : Value) : Prop := ∀ o, v = .object o → o.index < h.size

theorem Copied.reachedFrom_iff (hcopied : Copied h h') (hclosed : h.Closed) (hv : h.Has v) :
    h'.ReachedFrom v q ↔ h.ReachedFrom v q :=
  ReachedFrom.congr fun _ hr => hcopied.fields_eq (by
    obtain ⟨a, rfl, hr⟩ := hr
    exact hclosed.lt_of_reaches (hv a rfl) hr)

/-- A deep copy looks like the original, is made of new objects only, and changes no
object that there was. -/
theorem isomorphic_deepCopy (hclosed : h.Closed) (hv : h.Has v) :
    Copied h (h.deepCopy v).2 ∧ Isomorphic h v (h.deepCopy v).2 (h.deepCopy v).1 ∧
      (h.deepCopy v).2.Has (h.deepCopy v).1 ∧
      ∀ o, (h.deepCopy v).1 = .object o → h.size ≤ o.index := by
  cases v with
  | object o =>
    have ho := hv o rfl
    have hlisted : ∀ a ∈ h.reachable o, ∀ q, h.Edge a q → q ∈ h.reachable o := by
      intro a ha q hedge
      rw [mem_reachable_iff hclosed ho] at ha ⊢
      exact ha.tail hedge
    have hmem : ∀ {a}, h.ReachedFrom (.object o) a → a ∈ h.reachable o := by
      rintro a ⟨b, hb, hr⟩
      cases hb
      exact (mem_reachable_iff hclosed ho).mpr hr
    have hidx := List.idxOf_lt_length_iff.mpr ((mem_reachable_iff hclosed ho).mpr .refl)
    rw [deepCopy_object]
    -- An object corresponds to the copy that has its place in the list of what is reachable.
    refine ⟨copied_withCopies hlisted, ⟨h.copyId (h.reachable o), ?_, rfl,
      fun a ha => fields_copyId (hmem ha)⟩, ?_, ?_⟩
    · intro a b ha hb hab
      have hindex : h.size + (h.reachable o).idxOf a = h.size + (h.reachable o).idxOf b :=
        congrArg ObjId.index hab
      exact (List.idxOf_inj (hmem ha)).mp (by omega)
    · intro q hq
      cases hq
      rw [size_withCopies]
      exact Nat.add_lt_add_left hidx _
    · intro q hq
      cases hq
      exact Nat.le_add_right _ _
  | int n => exact ⟨.refl h, .refl h _, hv, fun o ho => by cases ho⟩
  | bool b => exact ⟨.refl h, .refl h _, hv, fun o ho => by cases ho⟩
  | str text => exact ⟨.refl h, .refl h _, hv, fun o ho => by cases ho⟩
  | void => exact ⟨.refl h, .refl h _, hv, fun o ho => by cases ho⟩
  | func id => exact ⟨.refl h, .refl h _, hv, fun o ho => by cases ho⟩

/-- The second value, in the second heap, looks like the first one in the first heap, and
is made of objects that the first heap does not have. -/
structure CopyOf (h h' : Heap) (v v' : Value) : Prop where
  isomorphic : Isomorphic h v h' v'
  new : ∀ o, v' = .object o → New h h' o

theorem deepCopyAll_cons (h : Heap) (e : String × Value) (rest : List (String × Value)) :
    h.deepCopyAll (e :: rest) =
      ((e.1, (h.deepCopy e.2).1) :: ((h.deepCopy e.2).2.deepCopyAll rest).1,
        ((h.deepCopy e.2).2.deepCopyAll rest).2) := rfl

/-- Copies made one after the other are copies of what there was at first. -/
theorem copyOf_deepCopyAll {entries : List (String × Value)} (hclosed : h.Closed)
    (hv : ∀ e ∈ entries, h.Has e.2) :
    Copied h (h.deepCopyAll entries).2 ∧
      List.Forall₂ (fun e e' => e'.1 = e.1 ∧ CopyOf h (h.deepCopyAll entries).2 e.2 e'.2) entries
        (h.deepCopyAll entries).1 := by
  induction entries generalizing h with
  | nil => exact ⟨.refl h, .nil⟩
  | cons e rest ih =>
    obtain ⟨hcopied, hiso, hhas, hfresh⟩ := isomorphic_deepCopy hclosed (hv e List.mem_cons_self)
    have hrest : ∀ e ∈ rest, h.Has e.2 := fun e he => hv e (List.mem_cons_of_mem _ he)
    obtain ⟨hcopied', hcopies⟩ := ih (h := (h.deepCopy e.2).2) (hcopied.closed hclosed)
      fun e he o ho => Nat.lt_of_lt_of_le (hrest e he o ho) hcopied.size_le
    rw [deepCopyAll_cons]
    refine ⟨hcopied.trans hcopied', .cons ⟨rfl, ?_, ?_⟩ ?_⟩
    · -- The copies that come later leave this one as it is.
      refine hiso.congr_right fun o ho => hcopied'.fields_eq ?_
      obtain ⟨a, ha, hr⟩ := ho
      exact (hcopied.closed hclosed).lt_of_reaches (hhas a ha) hr
    · exact fun o ho => ⟨hfresh o ho, Nat.lt_of_lt_of_le (hhas o ho) hcopied'.size_le⟩
    · -- What is copied later is what it was before this copy was made.
      refine List.forall₂_iff_get.mpr ⟨hcopies.length_eq, fun i hi hi' => ?_⟩
      obtain ⟨hname, hcopy⟩ := (List.forall₂_iff_get.mp hcopies).2 i hi hi'
      have hhas' := hrest _ (List.get_mem rest ⟨i, hi⟩)
      refine ⟨hname, hcopy.isomorphic.congr_left fun o ho => ?_, fun o ho =>
        ⟨Nat.le_trans hcopied.size_le (hcopy.new o ho).1, (hcopy.new o ho).2⟩⟩
      rw [hcopied.reachedFrom_iff hclosed hhas'] at ho
      obtain ⟨a, ha, hr⟩ := ho
      exact (hcopied.fields_eq (hclosed.lt_of_reaches (hhas' a ha) hr)).symm

end Heap

theorem exists_mem_of_forall₂ {α β : Type} {R : α → β → Prop} {xs : List α} {ys : List β} {y : β}
    (h : List.Forall₂ R xs ys) (hy : y ∈ ys) : ∃ x ∈ xs, R x y := by
  induction h with
  | nil => cases hy
  | cons hhead _ ih =>
    rcases List.mem_cons.mp hy with rfl | hy
    · exact ⟨_, List.mem_cons_self, hhead⟩
    · obtain ⟨x, hx, hr⟩ := ih hy
      exact ⟨x, List.mem_cons_of_mem _ hx, hr⟩

/-- Two lists with the same names in the same places have corresponding entries. -/
theorem Table.lookup_rel {R : Value → Value → Prop} {xs ys : List (String × Value)}
    (h : List.Forall₂ (fun e e' => e'.1 = e.1 ∧ R e.2 e'.2) xs ys) (name : String) :
    Option.Rel R (lookup name xs) (lookup name ys) := by
  induction h with
  | nil => exact .none
  | @cons e e' xs ys hhead htail ih =>
    obtain ⟨key, v⟩ := e
    obtain ⟨key', v'⟩ := e'
    obtain ⟨rfl, hv⟩ := hhead
    rw [lookup, lookup]
    by_cases hname : key' = name
    · rw [if_pos hname, if_pos hname]
      exact .some hv
    · rw [if_neg hname, if_neg hname]
      exact ih

end LineScript
