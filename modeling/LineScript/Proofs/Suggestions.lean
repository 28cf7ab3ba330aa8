/-
Which name is suggested for a misspelt one.

The search keeps the best candidate so far. After any part of the candidates, what it has is the
first of the nearest ones among those that pass its tests (`Keeps`): `Keeps.step` for one more
candidate, `keeps_nearestFrom` for a row of them.

One of the tests compares sizes before any distance is computed. It counts bytes, while distances
count characters, so it may refuse a candidate that is near enough. `nearest_of_sizes` says what is
found in any case, and when the test makes no difference: among names of one-byte characters it
never does, since so many edits change the length by no more than their number.
-/
import LineScript.Proofs.EditScripts

namespace LineScript.Text

/-! ### The nearest of some texts -/

/-- Of the texts in the list that have the property, this is the first one at the least distance
from the name. -/
def FirstNearest (name : String) (p : String → Prop) (l : List String) (c : String) : Prop :=
  ∃ before after, l = before ++ c :: after ∧ p c ∧
    (∀ x ∈ before, p x → distance name c < distance name x) ∧
    ∀ x ∈ after, p x → distance name c ≤ distance name x

/-- The answer to a search for the nearest text with the property: the first of the nearest ones,
or nothing if no text has the property. -/
def Answers (name : String) (p : String → Prop) (l : List String) : Option String → Prop
  | some c => FirstNearest name p l c
  | none => ∀ x ∈ l, ¬p x

variable {name : String} {p q : String → Prop} {l : List String} {c d x : String}

namespace FirstNearest

theorem holds (h : FirstNearest name p l c) : p c := by
  obtain ⟨before, after, -, hc, -⟩ := h
  exact hc

theorem mem (h : FirstNearest name p l c) : c ∈ l := by
  obtain ⟨before, after, rfl, -⟩ := h
  simp

theorem le (h : FirstNearest name p l c) (hx : x ∈ l) (hp : p x) :
    distance name c ≤ distance name x := by
  obtain ⟨before, after, rfl, -, hbefore, hafter⟩ := h
  rcases List.mem_append.mp hx with hx | hx
  · exact Nat.le_of_lt (hbefore x hx hp)
  · rcases List.mem_cons.mp hx with rfl | hx
    · exact Nat.le_refl _
    · exact hafter x hx hp

theorem unique (h : FirstNearest name p l c) (h' : FirstNearest name p l d) : c = d := by
  have hle := h.le h'.mem h'.holds
  have hge := h'.le h.mem h.holds
  obtain ⟨before, after, rfl, hc, hbefore, -⟩ := h
  obtain ⟨before', after', heq, hd, hbefore', -⟩ := h'
  -- If one of the two stood before the other, it would be nearer.
  rcases List.append_eq_append_iff.mp heq with ⟨between, rfl, hrest⟩ | ⟨between, rfl, hrest⟩
  · match between, hrest with
    | [], hrest => exact (List.cons.inj hrest).1
    | y :: between, hrest =>
      obtain ⟨rfl, -⟩ := List.cons.inj hrest
      have := hbefore' c (by simp) hc
      omega
  · match between, hrest with
    | [], hrest => exact (List.cons.inj hrest).1.symm
    | y :: between, hrest =>
      obtain ⟨rfl, -⟩ := List.cons.inj hrest
      have := hbefore d (by simp) hd
      omega

/-- A further text that has not the property or is not nearer changes nothing. -/
theorem keep (h : FirstNearest name p l c) (hx : p x → distance name c ≤ distance name x) :
    FirstNearest name p (l ++ [x]) c := by
  obtain ⟨before, after, rfl, hc, hbefore, hafter⟩ := h
  refine ⟨before, after ++ [x], by simp, hc, hbefore, ?_⟩
  intro y hy hp
  rcases List.mem_append.mp hy with hy | hy
  · exact hafter y hy hp
  · rw [List.mem_singleton.mp hy] at hp ⊢
    exact hx hp

/-- A further text that has the property and is nearer takes the place. -/
theorem replace (hx : p x) (hless : ∀ y ∈ l, p y → distance name x < distance name y) :
    FirstNearest name p (l ++ [x]) x :=
  ⟨l, [], rfl, hx, hless, by simp⟩

end FirstNearest

theorem Answers.unique {r r' : Option String} (h : Answers name p l r) (h' : Answers name p l r') :
    r = r' := by
  match r, r', h, h' with
  | none, none, _, _ => rfl
  | some c, some d, h, h' => rw [FirstNearest.unique h h']
  | some c, none, h, h' => exact absurd h.holds (h' c h.mem)
  | none, some d, h, h' => exact absurd h'.holds (h d h'.mem)

theorem Answers.congr {r : Option String} (hpq : ∀ x ∈ l, p x ↔ q x) :
    Answers name p l r ↔ Answers name q l r := by
  have himp : ∀ {p q : String → Prop}, (∀ x ∈ l, p x ↔ q x) → Answers name p l r →
      Answers name q l r := by
    intro p q hpq h
    match r, h with
    | none, h =>
      intro x hx hq
      exact h x hx ((hpq x hx).mpr hq)
    | some c, h =>
      have hc := (hpq c h.mem).mp h.holds
      obtain ⟨before, after, rfl, -, hbefore, hafter⟩ := h
      refine ⟨before, after, rfl, hc, ?_, ?_⟩
      · intro x hx hq
        exact hbefore x hx ((hpq x (by simp [hx])).mpr hq)
      · intro x hx hq
        exact hafter x hx ((hpq x (by simp [hx])).mpr hq)
  exact ⟨himp hpq, himp fun x hx => (hpq x hx).symm⟩

/-! ### The search -/

variable {threshold : Nat}

/-- The text is another name, at most so many edits away. -/
def Within (name : String) (threshold : Nat) (x : String) : Prop :=
  x ≠ name ∧ distance name x ≤ threshold

/-- The numbers of bytes differ by no more than the threshold. -/
def NearInSize (name : String) (threshold : Nat) (x : String) : Prop :=
  absDiff x.utf8ByteSize name.utf8ByteSize ≤ threshold

instance (name : String) (threshold : Nat) (x : String) : Decidable (Within name threshold x) :=
  inferInstanceAs (Decidable (x ≠ name ∧ distance name x ≤ threshold))

instance (name : String) (threshold : Nat) (x : String) : Decidable (NearInSize name threshold x) :=
  inferInstanceAs (Decidable (_ ≤ threshold))

/-- The text is a candidate that the search does not refuse. -/
def Considered (name : String) (threshold : Nat) (x : String) : Prop :=
  Within name threshold x ∧ NearInSize name threshold x

/-- What a search has found when it has seen these candidates. -/
def Keeps (name : String) (threshold : Nat) (seen : List String) : Option (String × Nat) → Prop
  | some (c, d) => d = distance name c ∧ FirstNearest name (Considered name threshold) seen c
  | none => ∀ x ∈ seen, ¬Considered name threshold x

variable {seen : List String} {best : Option (String × Nat)}

theorem Keeps.skip (h : Keeps name threshold seen best) (hx : ¬Considered name threshold x) :
    Keeps name threshold (seen ++ [x]) best := by
  match best, h with
  | none, h =>
    intro y hy
    rcases List.mem_append.mp hy with hy | hy
    · exact h y hy
    · rw [List.mem_singleton.mp hy]
      exact hx
  | some (c, d), ⟨hd, h⟩ => exact ⟨hd, h.keep fun hp => absurd hp hx⟩

/-- One more candidate that passes the tests before the distance. -/
theorem Keeps.step (h : Keeps name threshold seen best) (hne : x ≠ name)
    (hsize : NearInSize name threshold x) :
    Keeps name threshold (seen ++ [x])
      (if (distance name x ≤ threshold && best.all fun found => distance name x < found.2) = true
        then some (x, distance name x) else best) := by
  by_cases hfar : distance name x ≤ threshold
  · have hx : Considered name threshold x := ⟨⟨hne, hfar⟩, hsize⟩
    match best, h with
    | none, h =>
      simp only [hfar, Option.all_none, decide_true, Bool.and_true, if_true]
      exact ⟨rfl, .replace hx fun y hy hp => absurd hp (h y hy)⟩
    | some (c, d), ⟨hd, h⟩ =>
      by_cases hless : distance name x < d
      · simp only [hfar, hless, Option.all_some, decide_true, Bool.and_true, if_true]
        refine ⟨rfl, .replace hx ?_⟩
        intro y hy hp
        have := h.le hy hp
        omega
      · simp only [hless, Option.all_some, decide_false, Bool.and_false, Bool.false_eq_true,
          if_false]
        exact ⟨hd, h.keep fun _ => by omega⟩
  · simp only [hfar, decide_false, Bool.false_and, Bool.false_eq_true, if_false]
    exact h.skip fun hx => hfar hx.1.2

/-- A search that goes on keeps the first of the nearest candidates. -/
theorem keeps_nearestFrom (candidates : List String) (h : Keeps name threshold seen best) :
    Keeps name threshold (seen ++ candidates) (nearestFrom name threshold best candidates) := by
  induction candidates generalizing seen best with
  | nil => simpa [nearestFrom] using h
  | cons x rest ih =>
    rw [nearestFrom, List.append_cons]
    split
    · next hrefused =>
      refine ih (h.skip ?_)
      rintro ⟨⟨hne, -⟩, hsize⟩
      rcases hrefused with heq | hfar
      · exact hne heq
      · exact Nat.not_le_of_lt hfar hsize
    · next hpasses =>
      obtain ⟨hne, hsize⟩ := not_or.mp hpasses
      exact ih (h.step hne (Nat.le_of_not_lt hsize))

/-- The answer is the first of the nearest candidates that the search does not refuse. -/
theorem answers_nearest? (name : String) (candidates : List String) (threshold : Nat) :
    Answers name (Considered name threshold) candidates (nearest? name candidates threshold) := by
  have hkeeps : Keeps name threshold ([] ++ candidates)
      (nearestFrom name threshold none candidates) := keeps_nearestFrom candidates (by simp [Keeps])
  rw [List.nil_append] at hkeeps
  rw [nearest?]
  match nearestFrom name threshold none candidates, hkeeps with
  | none, h => exact h
  | some (c, d), ⟨_, h⟩ => exact h

/-! ### Sizes -/

theorem utf8ByteSize_eq_weight (s : String) : s.utf8ByteSize = weight Char.utf8Size s.toList := by
  have hlist : ∀ cs : List Char, (String.ofList cs).utf8ByteSize = weight Char.utf8Size cs := by
    intro cs
    induction cs with
    | nil => rfl
    | cons c cs ih =>
      rw [String.ofList_cons, String.utf8ByteSize_append, String.utf8ByteSize_singleton, ih,
        weight_cons]
  rw [← hlist, String.ofList_toList]

/-- All characters of the text take one byte. -/
def IsPlain (s : String) : Prop := ∀ c ∈ s.toList, c.utf8Size = 1

instance (s : String) : Decidable (IsPlain s) :=
  decidable_of_iff (s.toList.all (fun c => c.utf8Size = 1) = true) (by simp [IsPlain])

theorem utf8ByteSize_of_isPlain {s : String} (h : IsPlain s) :
    s.utf8ByteSize = weight (fun _ => 1) s.toList := by
  rw [utf8ByteSize_eq_weight, weight_congr h]

theorem nearInSize_of_weight {a b : Nat} (hx : x.utf8ByteSize = a) (hname : name.utf8ByteSize = b)
    (h : b ≤ a + threshold ∧ a ≤ b + threshold) : NearInSize name threshold x := by
  rw [NearInSize, absDiff, hx, hname]
  omega

/-- Among names of one-byte characters the test of sizes refuses no candidate that is near. -/
theorem nearInSize_of_isPlain (hname : IsPlain name) (hx : IsPlain x)
    (hnear : distance name x ≤ threshold) : NearInSize name threshold x := by
  have hone : ∀ _ : Char, 1 ≤ 1 := fun _ => Nat.le_refl 1
  have hweight := (editedIn_distance name x).weight_le hone
  refine nearInSize_of_weight (utf8ByteSize_of_isPlain hx) (utf8ByteSize_of_isPlain hname) ?_
  omega

/-- Whatever the characters, an edit changes the size by four bytes at most. -/
theorem nearInSize_of_distance (hnear : 4 * distance name x ≤ threshold) :
    NearInSize name threshold x := by
  have hweight := (editedIn_distance name x).weight_le Char.utf8Size_le_four
  refine nearInSize_of_weight (utf8ByteSize_eq_weight x) (utf8ByteSize_eq_weight name) ?_
  omega

/-- What is suggested is the first of the nearest candidates, among those that are other names, at
most so many edits away, and that pass the test of sizes; and nothing if there is none. Where the
test refuses no candidate that is near enough, it makes no difference. It refuses none if all
characters take one byte, and none that is at most a quarter of the threshold away. -/
theorem nearest_of_sizes (name : String) (candidates : List String) (threshold : Nat) :
    (∀ r, nearest? name candidates threshold = r ↔
      Answers name (fun x => Within name threshold x ∧ NearInSize name threshold x) candidates r) ∧
    ((∀ x ∈ candidates, Within name threshold x → NearInSize name threshold x) →
      ∀ r, nearest? name candidates threshold = r ↔
        Answers name (Within name threshold) candidates r) ∧
    (∀ x, IsPlain name → IsPlain x → Within name threshold x → NearInSize name threshold x) ∧
    ∀ x, 4 * distance name x ≤ threshold → NearInSize name threshold x := by
  have hanswers := answers_nearest? name candidates threshold
  have hexact : ∀ r, nearest? name candidates threshold = r ↔
      Answers name (Considered name threshold) candidates r := by
    intro r
    constructor
    · rintro rfl
      exact hanswers
    · exact hanswers.unique
  refine ⟨hexact, ?_, ?_, fun x => nearInSize_of_distance⟩
  · intro hpass r
    rw [hexact r]
    refine Answers.congr fun x hx => ?_
    exact ⟨fun h => h.1, fun h => ⟨h, hpass x hx h⟩⟩
  · intro x hname hx hwithin
    exact nearInSize_of_isPlain hname hx hwithin.2

/-- Two substitutions turn `ab` into a name of two letters that take three bytes each, which is
refused for its size; among plain letters the nearest candidate is found. -/
theorem nearest_of_sizes_wide_letters :
    Within "ab" 2 "日本" ∧ nearest? "ab" ["日本"] 2 = none ∧
    nearest? "abcd" ["abxy", "abcx"] 2 = some "abcx" := by
  refine ⟨by decide +kernel, ?_, ?_⟩
  · refine ((nearest_of_sizes "ab" ["日本"] 2).1 none).mpr ?_
    intro x hx hconsidered
    rw [List.mem_singleton.mp hx] at hconsidered
    exact absurd hconsidered.2 (by decide +kernel)
  · obtain ⟨-, hplain, hsizes, -⟩ := nearest_of_sizes "abcd" ["abxy", "abcx"] 2
    have hcandidates : ∀ x ∈ ["abxy", "abcx"], IsPlain x := by decide +kernel
    refine (hplain ?_ _).mpr ?_
    · intro x hx
      exact hsizes x (by decide +kernel) (hcandidates x hx)
    · refine ⟨["abxy"], [], rfl, by decide +kernel, ?_, by simp⟩
      intro x hx _
      rw [List.mem_singleton.mp hx]
      decide +kernel

end LineScript.Text
