/-
How variables come and go.

`ScopeStack.Op` lists what can happen to the variables at once, and a turn of the machine
is a row of such operations (`Turn.evolves`). Blocks are only ever written name by name,
so no block has a name twice (`ScopeStack.Tidy`); then the one table for a whole frame
has for each name what a lookup finds (`Frame.find?_visible`).
-/
import LineScript.Proofs.Turns
import Mathlib.Data.List.Induction
import Mathlib.Data.List.Nodup

namespace LineScript

namespace Table

variable {α : Type} {entries : List (String × α)} {name : String}

theorem lookup_append (xs ys : List (String × α)) (name : String) :
    lookup name (xs ++ ys) = (lookup name xs).or (lookup name ys) := by
  induction xs with
  | nil => rfl
  | cons e rest ih =>
    rw [List.cons_append, lookup, lookup, ih]
    split <;> rfl

theorem lookup_eq_none_iff : lookup name entries = none ↔ name ∉ entries.map Prod.fst := by
  induction entries with
  | nil => simp [lookup]
  | cons e rest ih =>
    rw [lookup]
    split
    · next hkey => simp [hkey]
    · next hkey => simp [ih, Ne.symm hkey]

/-- Among different names the order does not matter. -/
theorem lookup_reverse (h : (entries.map Prod.fst).Nodup) :
    lookup name entries.reverse = lookup name entries := by
  induction entries with
  | nil => rfl
  | cons e rest ih =>
    obtain ⟨hnew, hrest⟩ := List.nodup_cons.mp h
    rw [List.reverse_cons, lookup_append, ih hrest]
    by_cases hkey : e.1 = name
    · have hnone : lookup name rest = none := lookup_eq_none_iff.mpr (hkey ▸ hnew)
      simp [lookup, hkey, hnone]
    · simp [lookup, hkey]

theorem names_put (name : String) (a : α) (entries : List (String × α)) :
    (put name a entries).map Prod.fst =
      if name ∈ entries.map Prod.fst then entries.map Prod.fst
      else entries.map Prod.fst ++ [name] := by
  induction entries with
  | nil => rfl
  | cons e rest ih =>
    obtain ⟨key, b⟩ := e
    rw [put]
    by_cases hkey : key = name
    · simp [hkey]
    · rw [if_neg hkey, List.map_cons, ih]
      by_cases hmem : name ∈ rest.map Prod.fst
      · rw [if_pos hmem, List.map_cons, if_pos (List.mem_cons_of_mem _ hmem)]
      · rw [if_neg hmem, List.map_cons, if_neg, List.cons_append]
        exact fun h => (List.mem_cons.mp h).elim (fun h => hkey h.symm) hmem

/-- No name is there twice. -/
def Distinct (t : Table α) : Prop := t.names.Nodup

theorem distinct_empty : (empty : Table α).Distinct := List.nodup_nil

theorem Distinct.insert {t : Table α} (h : t.Distinct) (name : String) (a : α) :
    (t.insert name a).Distinct := by
  rw [Distinct, names, Table.insert, names_put]
  split
  · exact h
  · next hnew =>
    refine List.nodup_append.mpr ⟨h, List.nodup_singleton name, ?_⟩
    intro x hx y hy
    rw [List.mem_singleton] at hy
    rintro rfl
    exact hnew (hy ▸ hx)

/-- The table with entries written one after the other. -/
def insertAll (t : Table α) (entries : List (String × α)) : Table α :=
  entries.foldl (fun t e => t.insert e.1 e.2) t

theorem Distinct.insertAll {t : Table α} (h : t.Distinct) (entries : List (String × α)) :
    (t.insertAll entries).Distinct := by
  induction entries generalizing t with
  | nil => exact h
  | cons e rest ih => exact ih (h.insert e.1 e.2)

theorem find?_insertAll (t : Table α) (entries : List (String × α)) (name : String) :
    (t.insertAll entries).find? name = (lookup name entries.reverse).or (t.find? name) := by
  induction entries generalizing t with
  | nil => rfl
  | cons e rest ih =>
    rw [insertAll, List.foldl_cons, ← insertAll, ih, find?_insert, List.reverse_cons, lookup_append,
      Option.or_assoc]
    -- Both sides ask the rest first; what is left is the first entry before the table.
    congr 1
    rw [lookup, lookup]
    by_cases hkey : e.1 = name
    · rw [if_pos hkey, if_pos hkey.symm]
      rfl
    · rw [if_neg hkey, if_neg (Ne.symm hkey)]
      rfl

end Table

/-! ### Frames -/

namespace Frame

/-- All blocks of the frame are of the kind. -/
def All (Q : Block → Prop) (f : Frame) : Prop := Q f.root ∧ ∀ b ∈ f.inner, Q b

theorem All.setInnermost {Q : Block → Prop} {f : Frame} (h : f.All Q) {block : Block}
    (hblock : Q block) : (f.setInnermost block).All Q := by
  rw [Frame.setInnermost]
  split
  · next hinner =>
    have hall := h.2
    rw [hinner, List.forall_mem_cons] at hall
    exact ⟨h.1, List.forall_mem_cons.mpr ⟨hblock, hall.2⟩⟩
  · exact ⟨hblock, h.2⟩

theorem All.innermost {Q : Block → Prop} {f : Frame} (h : f.All Q) : Q f.innermost := by
  rw [Frame.innermost]
  split
  · next hinner => exact h.2 _ (hinner ▸ List.mem_cons_self)
  · exact h.1

/-- No block has a name twice. -/
def Tidy (f : Frame) : Prop := f.root.Distinct ∧ ∀ b ∈ f.inner, b.Distinct

theorem Tidy.blocks {f : Frame} (h : f.Tidy) : ∀ b ∈ f.blocks, b.Distinct := by
  intro b hb
  rcases List.mem_append.mp hb with hb | hb
  · exact h.2 b hb
  · rw [List.mem_singleton.mp hb]
    exact h.1

theorem Tidy.insertInnermost {f : Frame} (h : f.Tidy) (name : String) (cell : CellId) :
    (f.setInnermost (f.innermost.insert name cell)).Tidy :=
  All.setInnermost h ((All.innermost (Q := Table.Distinct) h).insert name cell)

/-- The table of all variables of a frame, built up from the outermost block. -/
def merged (blocks : List Block) : Block :=
  blocks.reverse.foldl (fun table block => table.insertAll block.entries) Table.empty

theorem merged_cons (block : Block) (outer : List Block) :
    merged (block :: outer) = (merged outer).insertAll block.entries := by
  simp [merged]

theorem distinct_merged (blocks : List Block) : (merged blocks).Distinct := by
  induction blocks with
  | nil => exact Table.distinct_empty
  | cons block outer ih =>
    rw [merged_cons]
    exact ih.insertAll _

theorem find?_merged {blocks : List Block} (h : ∀ b ∈ blocks, b.Distinct) (name : String) :
    (merged blocks).find? name = blocks.findSome? fun block => block.find? name := by
  induction blocks with
  | nil => rfl
  | cons block outer ih =>
    obtain ⟨hblock, houter⟩ := List.forall_mem_cons.mp h
    rw [merged_cons, Table.find?_insertAll, Table.lookup_reverse hblock, ih houter,
      List.findSome?_cons]
    rw [← Table.find?]
    cases block.find? name <;> rfl

/-- The table for the whole frame has for each name what a lookup finds. -/
theorem find?_visible {f : Frame} (h : f.Tidy) (name : String) :
    f.visible.find? name = f.cell? name :=
  find?_merged h.blocks name

end Frame

namespace ScopeStack

/-- What can happen to the variables at once. -/
inductive Op : ScopeStack → ScopeStack → Prop
  | pushFrame (c : ScopeStack) : Op c c.pushFrame
  | popFrame {c c' : ScopeStack} (h : c.popFrame? = some c') : Op c c'
  | nestBlock (c : ScopeStack) : Op c c.nestBlock
  | unnestBlock {c c' : ScopeStack} (h : c.unnestBlock? = some c') : Op c c'
  | publish (c : ScopeStack) (name : String) (v : Value) : Op c (c.publish name v)
  | bind (c : ScopeStack) (name : String) (b : Binding) : Op c (c.bind name b)
  | write (c : ScopeStack) (cell : CellId) (v : Value) : Op c (c.write cell v)

/-- The second stack comes from the first in a row of operations. -/
def Evolves : ScopeStack → ScopeStack → Prop := Relation.ReflTransGen Op

theorem Edit.op {c c' : ScopeStack} (h : Edit c c') : Op c c' := by
  cases h with
  | nestBlock => exact .nestBlock _
  | unnestBlock h => exact .unnestBlock h
  | define name v => exact .bind _ name (.fresh v)
  | publish name v => exact .publish _ name v
  | write bound v => exact .write _ _ v

theorem Edits.evolves {c c' : ScopeStack} (h : Edits c c') : Evolves c c' := by
  induction h with
  | refl => exact .refl
  | tail _ edit ih => exact ih.tail edit.op

theorem Evolves.bindAll (c : ScopeStack) (bindings : List (String × Binding)) :
    Evolves c (c.bindAll bindings) := by
  induction bindings generalizing c with
  | nil => exact .refl
  | cons b rest ih => exact .head (.bind c b.1 b.2) (ih (c.bind b.1 b.2))

/-- No block of any frame has a name twice. -/
def Tidy (c : ScopeStack) : Prop := c.current.Tidy ∧ ∀ f ∈ c.suspended, f.Tidy

theorem tidy_empty : empty.Tidy :=
  ⟨⟨Table.distinct_empty, List.forall_mem_nil _⟩, List.forall_mem_nil _⟩

theorem Op.tidy {c c' : ScopeStack} (h : Op c c') (hc : c.Tidy) : c'.Tidy := by
  obtain ⟨hcurrent, hsuspended⟩ := hc
  cases h with
  | pushFrame =>
    exact ⟨⟨Table.distinct_empty, List.forall_mem_nil _⟩,
      List.forall_mem_cons.mpr ⟨hcurrent, hsuspended⟩⟩
  | popFrame h =>
    -- The frame that comes back was tidy when it was suspended.
    rw [popFrame?] at h
    split at h
    · cases h
    · next hframes =>
      cases h
      rw [hframes, List.forall_mem_cons] at hsuspended
      exact hsuspended
  | nestBlock =>
    exact ⟨⟨hcurrent.1, List.forall_mem_cons.mpr ⟨Table.distinct_empty, hcurrent.2⟩⟩, hsuspended⟩
  | unnestBlock h =>
    rw [unnestBlock?] at h
    split at h
    · cases h
    · next hblocks =>
      cases h
      have hinner := hcurrent.2
      rw [hblocks, List.forall_mem_cons] at hinner
      exact ⟨⟨hcurrent.1, hinner.2⟩, hsuspended⟩
  | publish name v =>
    rw [ScopeStack.publish]
    split
    · exact ⟨hcurrent, hsuspended⟩
    · exact ⟨⟨hcurrent.1.insert _ _, hcurrent.2⟩, hsuspended⟩
  | bind name b =>
    cases b with
    | fresh v => exact ⟨hcurrent.insertInnermost _ _, hsuspended⟩
    | shared cell => exact ⟨hcurrent.insertInnermost _ _, hsuspended⟩
  | write cell v => exact ⟨hcurrent, hsuspended⟩

theorem Evolves.tidy {c c' : ScopeStack} (h : Evolves c c') (hc : c.Tidy) : c'.Tidy := by
  induction h with
  | refl => exact hc
  | tail _ hop ih => exact hop.tidy ih

end ScopeStack

/-! ### Steps -/

section
open ScopeStack (Evolves)

variable {img : Image} {cfg : Config} {s s' : State}

theorem State.evolves_restoreCapture (s : State) : Evolves s.scopes s.restoreCapture.scopes := by
  rw [restoreCapture]
  split
  · exact .refl
  · exact .bindAll _ _

theorem State.evolves_enter (s : State) (functions : FunctionTable) (sig : Signature)
    (bindings : List (String × Binding)) :
    Evolves s.scopes (s.enter functions sig bindings).scopes := by
  have hcalled : Evolves s.scopes (s.called sig).scopes := .single (.pushFrame _)
  rw [enter_eq]
  split
  · exact (hcalled.trans (s.called sig).evolves_restoreCapture).trans (Evolves.bindAll _ _)
  · exact hcalled.trans (Evolves.bindAll _ _)

theorem State.evolves_leave (s : State) (v : Option Value) (declared : Option DeclaredType) :
    Evolves s.scopes (s.leave v declared).scopes := by
  cases hback : s.returns.back? with
  | none =>
    rw [leave_of_none hback]
    exact .refl
  | some resume =>
    rw [leave_of_some hback]
    have hunwound : Evolves s.scopes s.unwound.scopes := by
      rw [unwound]
      cases hpop : s.scopes.popFrame? with
      | none => exact .refl
      | some scopes => exact .single (.popFrame hpop)
    exact hunwound.trans (s.unwound.published_publishResult v declared).edits.evolves

/-- What a turn does to the variables is a row of operations. -/
theorem Turn.evolves (h : Turn img cfg s s') : Evolves s.scopes s'.scopes := by
  cases h with
  | stay _ edits => exact edits.evolves
  | enter => exact s.evolves_enter _ _ _
  | leave v declared => exact s.evolves_leave v declared

theorem Machine.Reached.tidy {σ : Type} {m : Machine} {con : Console σ} {w₀ w : σ}
    (h : m.Reached con w₀ s w) : s.scopes.Tidy := by
  refine h.invariant (P := fun s => s.scopes.Tidy) (fun _ => ScopeStack.tidy_empty) ?_
  exact fun hs hstep => (turn_of_step hstep).evolves.tidy hs

end

end LineScript
