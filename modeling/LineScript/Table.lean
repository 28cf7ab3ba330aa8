/-
Finite tables from names to entries, in the order the names came in.

A name has at most one entry: `insert` replaces the entry a name has, in place,
and appends a name that is new. `find?` is the view through which a table is
used; `find?_insert` is the law of the write.
-/

namespace LineScript

/-- A table from names to entries. -/
structure Table (α : Type) where
  entries : List (String × α) := []
  deriving DecidableEq

namespace Table

variable {α β : Type}

/-- The table without entries. -/
def empty : Table α := ⟨[]⟩

instance : Inhabited (Table α) := ⟨empty⟩

/-- The entry of a name in a list of named entries. -/
def lookup (name : String) : List (String × α) → Option α
  | [] => none
  | (key, a) :: rest => if key = name then some a else lookup name rest

/-- The list with the entry of a name replaced, or appended if there was none. -/
def put (name : String) (a : α) : List (String × α) → List (String × α)
  | [] => [(name, a)]
  | (key, b) :: rest => if key = name then (key, a) :: rest else (key, b) :: put name a rest

/-- The entry of a name. -/
def find? (t : Table α) (name : String) : Option α := lookup name t.entries

/-- The name has an entry. -/
def contains (t : Table α) (name : String) : Bool := (t.find? name).isSome

/-- Gives a name an entry, in place of any it had. -/
def insert (t : Table α) (name : String) (a : α) : Table α := ⟨put name a t.entries⟩

/-- The names, in order. -/
def names (t : Table α) : List String := t.entries.map Prod.fst

/-- The number of names. -/
def size (t : Table α) : Nat := t.entries.length

/-- The table with each entry changed. -/
def map (f : α → β) (t : Table α) : Table β := ⟨t.entries.map fun e => (e.1, f e.2)⟩

/-! ### Laws -/

@[simp]
theorem find?_empty (name : String) : (empty : Table α).find? name = none := rfl

theorem lookup_put (entries : List (String × α)) (name key : String) (a : α) :
    lookup key (put name a entries) = if key = name then some a else lookup key entries := by
  induction entries with
  | nil =>
    by_cases h : key = name
    · simp [put, lookup, h]
    · simp [put, lookup, h, Ne.symm h]
  | cons e rest ih =>
    obtain ⟨k, b⟩ := e
    by_cases hk : k = name
    · subst hk
      by_cases h : key = k
      · simp [put, lookup, h]
      · simp [put, lookup, h, Ne.symm h]
    · by_cases h : k = key
      · subst h
        simp [put, lookup, hk]
      · simp [put, lookup, hk, h, ih]

/-- A written name has its new entry, any other keeps its own. -/
theorem find?_insert (t : Table α) (name key : String) (a : α) :
    (t.insert name a).find? key = if key = name then some a else t.find? key :=
  lookup_put t.entries name key a

theorem lookup_map (f : α → β) (entries : List (String × α)) (key : String) :
    lookup key (entries.map fun e => (e.1, f e.2)) = (lookup key entries).map f := by
  induction entries with
  | nil => rfl
  | cons e rest ih =>
    by_cases h : e.1 = key <;> simp [lookup, h, ih]

@[simp]
theorem find?_map (f : α → β) (t : Table α) (key : String) :
    (t.map f).find? key = (t.find? key).map f :=
  lookup_map f t.entries key

end Table
end LineScript
