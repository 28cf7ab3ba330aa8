/-
Edits and the table of distances.

`distance` fills a table row by row and keeps one row only. What is true of every entry of the
table is true of the result: `distance_induction` says so once for all relations between two
texts and a number, with one condition for the first row, one for the first column and one for
the entries inside.

It is used here to show that the distance is not too small. `editedIn_distance` gives a row of so
many edits, each an insertion, a deletion or a substitution of one character, that turn the one
text into the other. An edit adds or takes away only so much of whatever the characters weigh
(`EditedIn.weight_le`), so that texts of very different sizes are far apart.
-/
import LineScript.Text.EditDistance
import Mathlib.Order.MinMax

namespace LineScript.Text

/-! ### The table -/

/-- The entries of a row, from some column on, are in the relation to the first characters of the
second text: to those of the columns before, `done`, and to one more with each entry. -/
def RowHolds (P : List Char → Nat → Prop) : (done rest : List Char) → List Nat → Prop
  | _, [], entries => entries = []
  | _, _ :: _, [] => False
  | done, b :: rest, entry :: entries =>
    P (done ++ [b]) entry ∧ RowHolds P (done ++ [b]) rest entries

variable {P Q : List Char → Nat → Prop} {done rest : List Char} {entries : List Nat}

theorem rowHolds_extendRow {c : Char}
    (hentry : ∀ b d {up left diagonal}, P (b ++ [d]) up → Q b left → P b diagonal →
      Q (b ++ [d]) (min (min (up + 1) (left + 1)) (diagonal + if c = d then 0 else 1)))
    {left diagonal : Nat} (hleft : Q done left) (hdiagonal : P done diagonal)
    (h : RowHolds P done rest entries) :
    RowHolds Q done rest (extendRow c left diagonal rest entries) := by
  induction rest generalizing done left diagonal entries with
  | nil =>
    rw [extendRow]
    · rfl
    · simp
  | cons b rest ih =>
    match entries, h with
    | up :: entries, ⟨hup, h⟩ =>
      have hnew := hentry done b hup hleft hdiagonal
      exact ⟨hnew, ih hnew hup h⟩

/-- The entry of the last column is about the whole text. -/
theorem RowHolds.getLast {first : Nat} (hfirst : P done first) (h : RowHolds P done rest entries) :
    P (done ++ rest) ((first :: entries).getLast?.getD 0) := by
  induction rest generalizing done first entries with
  | nil =>
    obtain rfl : entries = [] := h
    simpa using hfirst
  | cons b rest ih =>
    match entries, h with
    | entry :: entries, ⟨hentry, h⟩ =>
      have hlast := ih hentry h
      rw [List.append_assoc] at hlast
      simpa [List.getLast?_cons_cons] using hlast

/-- The first row holds the lengths. -/
theorem rowHolds_range' (htop : ∀ b : List Char, P b b.length) (done rest : List Char) :
    RowHolds P done rest (List.range' (done.length + 1) rest.length) := by
  induction rest generalizing done with
  | nil => rfl
  | cons b rest ih =>
    have hnext := ih (done ++ [b])
    rw [List.length_append] at hnext
    refine ⟨?_, hnext⟩
    simpa using htop (done ++ [b])

/-- Induction over the table. A relation between two texts and a number that holds of the first
row and the first column, and that goes over from the three entries before to each entry inside,
holds of the distance. -/
theorem distance_induction {D : List Char → List Char → Nat → Prop}
    (top : ∀ b, D [] b b.length)
    (side : ∀ a c {n}, D a [] n → D (a ++ [c]) [] (n + 1))
    (inside : ∀ a c b d {up left diagonal},
      D a (b ++ [d]) up → D (a ++ [c]) b left → D a b diagonal →
      D (a ++ [c]) (b ++ [d]) (min (min (up + 1) (left + 1)) (diagonal + if c = d then 0 else 1)))
    (a b : String) : D a.toList b.toList (distance a b) := by
  -- The row that is kept belongs to the characters of the first text that were taken so far.
  have hrows : ∀ (cs bs taken : List Char) (first : Nat) (entries : List Nat),
      D taken [] first → RowHolds (D taken) [] bs entries →
      D (taken ++ cs) bs ((finalRow bs cs (first :: entries)).getLast?.getD 0) := by
    intro cs
    induction cs with
    | nil =>
      intro bs taken first entries hfirst h
      have hlast := RowHolds.getLast hfirst h
      simpa [finalRow] using hlast
    | cons c cs ih =>
      intro bs taken first entries hfirst h
      have hrow := rowHolds_extendRow (inside taken c) (side taken c hfirst) hfirst h
      have hfinal := ih bs (taken ++ [c]) _ _ (side taken c hfirst) hrow
      rw [List.append_assoc] at hfinal
      exact hfinal
  have hfirst : RowHolds (D []) [] b.toList (List.range' 1 b.toList.length) :=
    rowHolds_range' top [] b.toList
  have hall := hrows a.toList b.toList [] 0 _ (top []) hfirst
  rw [distance, List.range_eq_range', List.range'_succ]
  exact hall

/-! ### Edits -/

/-- One character of a text is inserted, deleted or substituted. -/
inductive CharEdit : List Char → List Char → Prop
  | insertion (u v : List Char) (c : Char) : CharEdit (u ++ v) (u ++ c :: v)
  | deletion (u v : List Char) (c : Char) : CharEdit (u ++ c :: v) (u ++ v)
  | substitution (u v : List Char) (c d : Char) : CharEdit (u ++ c :: v) (u ++ d :: v)

/-- So many edits, one after the other, turn the one text into the other. -/
inductive EditedIn : Nat → List Char → List Char → Prop
  | none (a : List Char) : EditedIn 0 a a
  | more {n : Nat} {a b c : List Char} (edit : CharEdit a b) (h : EditedIn n b c) :
    EditedIn (n + 1) a c

namespace EditedIn

variable {m n : Nat} {a b c : List Char}

theorem one (h : CharEdit a b) : EditedIn 1 a b := .more h (.none b)

theorem trans (h : EditedIn m a b) (h' : EditedIn n b c) : EditedIn (m + n) a c := by
  induction h with
  | none a =>
    rw [Nat.zero_add]
    exact h'
  | more edit h ih =>
    rw [Nat.succ_add]
    exact .more edit (ih h')

/-- What stands behind both texts does not matter. -/
theorem append (h : EditedIn n a b) (rest : List Char) : EditedIn n (a ++ rest) (b ++ rest) := by
  induction h with
  | none a => exact .none _
  | more edit h ih =>
    refine .more ?_ ih
    cases edit with
    | insertion u v c => simpa using CharEdit.insertion u (v ++ rest) c
    | deletion u v c => simpa using CharEdit.deletion u (v ++ rest) c
    | substitution u v c d => simpa using CharEdit.substitution u (v ++ rest) c d

theorem of_nil (b : List Char) : EditedIn b.length [] b := by
  induction b with
  | nil => exact .none []
  | cons c b ih => exact ih.trans (.one (.insertion [] b c))

end EditedIn

/-- The distance is the number of some edits that turn the one text into the other. -/
theorem editedIn_distance (a b : String) : EditedIn (distance a b) a.toList b.toList := by
  refine distance_induction (D := fun a b n => EditedIn n a b) EditedIn.of_nil ?_ ?_ a b
  · intro a c n h
    simpa using EditedIn.more (CharEdit.deletion a [] c) (by simpa using h)
  · intro a c b d up left diagonal hup hleft hdiagonal
    have hdeletion : EditedIn (up + 1) (a ++ [c]) (b ++ [d]) :=
      .more (.deletion a [] c) (by simpa using hup)
    have hinsertion : EditedIn (left + 1) (a ++ [c]) (b ++ [d]) :=
      hleft.trans (.one (by simpa using CharEdit.insertion b [] d))
    have hlast : EditedIn (diagonal + if c = d then 0 else 1) (a ++ [c]) (b ++ [d]) := by
      have hsame : EditedIn diagonal (a ++ [c]) (b ++ [c]) := hdiagonal.append [c]
      by_cases hcd : c = d
      · rw [if_pos hcd, ← hcd]
        exact hsame
      · rw [if_neg hcd]
        exact hsame.trans (.one (.substitution b [] c d))
    rcases min_choice (min (up + 1) (left + 1)) (diagonal + if c = d then 0 else 1) with h | h
    · rw [h]
      rcases min_choice (up + 1) (left + 1) with h' | h'
      · rw [h']
        exact hdeletion
      · rw [h']
        exact hinsertion
    · rw [h]
      exact hlast

/-! ### Weights -/

/-- The weights of all characters together. -/
def weight (w : Char → Nat) : List Char → Nat
  | [] => 0
  | c :: cs => w c + weight w cs

@[simp] theorem weight_cons (w : Char → Nat) (c : Char) (cs : List Char) :
    weight w (c :: cs) = w c + weight w cs := rfl

@[simp] theorem weight_append (w : Char → Nat) (a b : List Char) :
    weight w (a ++ b) = weight w a + weight w b := by
  induction a with
  | nil => exact (Nat.zero_add _).symm
  | cons c a ih => rw [List.cons_append, weight_cons, ih, weight_cons, Nat.add_assoc]

theorem weight_congr {w w' : Char → Nat} {cs : List Char} (h : ∀ c ∈ cs, w c = w' c) :
    weight w cs = weight w' cs := by
  induction cs with
  | nil => rfl
  | cons c cs ih =>
    rw [weight_cons, weight_cons, h c (by simp), ih fun d hd => h d (List.mem_cons_of_mem c hd)]

/-- If no character weighs more than `k`, so many edits change the weight by at most `k` each. -/
theorem EditedIn.weight_le {w : Char → Nat} {k n : Nat} {a b : List Char} (hw : ∀ c, w c ≤ k)
    (h : EditedIn n a b) : weight w a ≤ weight w b + k * n ∧ weight w b ≤ weight w a + k * n := by
  induction h with
  | none a => simp
  | more edit h ih =>
    rw [Nat.mul_succ]
    cases edit with
    | insertion u v c =>
      have := hw c
      simp only [weight_append, weight_cons] at ih ⊢
      omega
    | deletion u v c =>
      have := hw c
      simp only [weight_append, weight_cons] at ih ⊢
      omega
    | substitution u v c d =>
      have := hw c
      have := hw d
      simp only [weight_append, weight_cons] at ih ⊢
      omega

end LineScript.Text
