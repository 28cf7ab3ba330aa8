/-
The distance is the least number of edits.

Edits come in any order and at any place, so there are many ways from one text to another. An
`Aligned` pair of texts is gone through once, from left to right, and each character is kept,
changed, inserted or deleted.

* `CharEdit.aligned`: one edit more makes an alignment longer by one step at most, so a row of
  edits never does with less than an alignment (`EditedIn.aligned`);
* `le_of_aligned`: no alignment does with less than the entry of the table, since its last step
  comes from one of the three entries before.

With the edits that are found in `EditScripts`, `isLeast_distance` follows.

The table is also filled in place: `distanceInPlace?` keeps two rows of fixed length, reads and
writes them by position, and exchanges them after each round. It gives up at a position that a
row does not have. `distanceInPlace?_eq` says that this never happens.
-/
import LineScript.Proofs.EditScripts
import Mathlib.Order.Bounds.Defs

namespace LineScript.Text

/-! ### Alignments -/

/-- The texts are gone through from left to right, with at most so many characters changed,
inserted or deleted. -/
inductive Aligned : Nat → List Char → List Char → Prop
  | done (k : Nat) : Aligned k [] []
  | keep {k : Nat} {a b : List Char} (c : Char) (h : Aligned k a b) : Aligned k (c :: a) (c :: b)
  | change {k : Nat} {a b : List Char} (c d : Char) (h : Aligned k a b) :
    Aligned (k + 1) (c :: a) (d :: b)
  | insert {k : Nat} {a b : List Char} (d : Char) (h : Aligned k a b) : Aligned (k + 1) a (d :: b)
  | delete {k : Nat} {a b : List Char} (c : Char) (h : Aligned k a b) : Aligned (k + 1) (c :: a) b

namespace Aligned

variable {k : Nat} {a b v x y : List Char} {c : Char}

theorem refl (a : List Char) : Aligned 0 a a := by
  induction a with
  | nil => exact .done 0
  | cons c a ih => exact .keep c ih

theorem succ (h : Aligned k a b) : Aligned (k + 1) a b := by
  induction h with
  | done k => exact .done (k + 1)
  | keep c h ih => exact .keep c ih
  | change c d h ih => exact .change c d ih
  | insert d h ih => exact .insert d ih
  | delete c h ih => exact .delete c ih

/-- Where the first text has lost a character, what became of it is inserted. -/
theorem tail (h : Aligned k (c :: v) b) : Aligned (k + 1) v b := by
  generalize htext : c :: v = text at h
  induction h with
  | done k => cases htext
  | keep e h ih =>
    cases htext
    exact .insert c h
  | change e d h ih =>
    cases htext
    exact .insert d h.succ
  | insert d h ih => exact .insert d (ih htext)
  | delete e h ih =>
    cases htext
    exact h.succ.succ

/-- Another character in the first text is changed into what became of the one before. -/
theorem replace (d : Char) (h : Aligned k (c :: v) b) : Aligned (k + 1) (d :: v) b := by
  generalize htext : c :: v = text at h
  induction h with
  | done k => cases htext
  | keep e h ih =>
    cases htext
    exact .change d c h
  | change e f h ih =>
    cases htext
    exact .change d f h.succ
  | insert f h ih => exact .insert f (ih htext)
  | delete e h ih =>
    cases htext
    exact .delete d h.succ

/-- Where the texts `x` and `y` are one step apart in all alignments, so are they behind one more
character. -/
theorem cons (hxy : ∀ {k b}, Aligned k x b → Aligned (k + 1) y b)
    (h : Aligned k (c :: x) b) : Aligned (k + 1) (c :: y) b := by
  generalize htext : c :: x = text at h
  induction h with
  | done k => cases htext
  | keep e h ih =>
    cases htext
    exact .keep c (hxy h)
  | change e d h ih =>
    cases htext
    exact .change c d (hxy h)
  | insert d h ih => exact .insert d (ih htext)
  | delete e h ih =>
    cases htext
    exact .delete c (hxy h)

theorem append (hxy : ∀ {k b}, Aligned k x b → Aligned (k + 1) y b) (u : List Char)
    (h : Aligned k (u ++ x) b) : Aligned (k + 1) (u ++ y) b := by
  induction u generalizing k b with
  | nil => exact hxy h
  | cons c u ih => exact cons ih h

end Aligned

variable {k n : Nat} {a b c : List Char}

/-- An edit before the others makes an alignment longer by one step at most. -/
theorem CharEdit.aligned (edit : CharEdit a b) (h : Aligned k b c) : Aligned (k + 1) a c := by
  cases edit with
  | insertion u v d => exact Aligned.append Aligned.tail u h
  | deletion u v d => exact Aligned.append (.delete d) u h
  | substitution u v d e => exact Aligned.append (.replace d) u h

theorem EditedIn.aligned (h : EditedIn n a b) : Aligned n a b := by
  induction h with
  | none a => exact .refl a
  | more edit h ih => exact edit.aligned ih

/-! ### Edits backwards -/

theorem CharEdit.reverse (edit : CharEdit a b) : CharEdit a.reverse b.reverse := by
  cases edit with
  | insertion u v c => simpa using CharEdit.insertion v.reverse u.reverse c
  | deletion u v c => simpa using CharEdit.deletion v.reverse u.reverse c
  | substitution u v c d => simpa using CharEdit.substitution v.reverse u.reverse c d

theorem EditedIn.reverse (h : EditedIn n a b) : EditedIn n a.reverse b.reverse := by
  induction h with
  | none a => exact .none _
  | more edit h ih => exact .more edit.reverse ih

theorem CharEdit.symm (edit : CharEdit a b) : CharEdit b a := by
  cases edit with
  | insertion u v c => exact .deletion u v c
  | deletion u v c => exact .insertion u v c
  | substitution u v c d => exact .substitution u v d c

theorem EditedIn.symm (h : EditedIn n a b) : EditedIn n b a := by
  induction h with
  | none a => exact .none a
  | more edit h ih => exact ih.trans (.one edit.symm)

/-! ### The least number -/

theorem length_le_of_aligned (h : Aligned k [] b) : b.length ≤ k := by
  generalize htext : ([] : List Char) = text at h
  induction h with
  | done k => exact Nat.zero_le k
  | keep c h ih => cases htext
  | change c d h ih => cases htext
  | insert d h ih => exact Nat.succ_le_succ (ih htext)
  | delete c h ih => cases htext

/-- No alignment does with less than the distance. The table grows at the ends of the texts, so
they are aligned from right to left here. -/
theorem le_of_aligned {a b : String} (h : Aligned k a.toList.reverse b.toList.reverse) :
    distance a b ≤ k := by
  refine distance_induction (D := fun a b n => ∀ k, Aligned k a.reverse b.reverse → n ≤ k)
    ?_ ?_ ?_ a b k h
  · intro b k h
    rw [← List.length_reverse]
    exact length_le_of_aligned h
  · intro a c n hn k h
    rw [List.reverse_append, List.reverse_singleton, List.singleton_append] at h
    cases h with
    | delete c h => exact Nat.succ_le_succ (hn _ h)
  · intro a c b d up left diagonal hup hleft hdiagonal k h
    simp only [List.reverse_append, List.reverse_singleton, List.singleton_append] at h hup hleft
    -- The last step leads to the entry beside, above or before.
    cases h with
    | keep c h =>
      have := hdiagonal k h
      rw [if_pos rfl]
      omega
    | @change k a b c d h =>
      have := hdiagonal k h
      split <;> omega
    | @insert k a b d h =>
      have := hleft k h
      omega
    | @delete k a b c h =>
      have := hup k h
      omega

theorem isLeast_distance (a b : String) :
    IsLeast {n | EditedIn n a.toList b.toList} (distance a b) := by
  refine ⟨editedIn_distance a b, ?_⟩
  intro n hn
  exact le_of_aligned (EditedIn.reverse hn).aligned

theorem distance_le {a b : String} (h : EditedIn n a.toList b.toList) : distance a b ≤ n :=
  (isLeast_distance a b).2 h

theorem distance_eq_zero_iff {a b : String} : distance a b = 0 ↔ a = b := by
  constructor
  · intro hzero
    have h := editedIn_distance a b
    rw [hzero] at h
    generalize hfirst : a.toList = first, hlast : b.toList = last at h
    cases h with
    | none _ => exact String.toList_inj.mp (hfirst.trans hlast.symm)
  · rintro rfl
    exact Nat.le_zero.mp (distance_le (.none _))

theorem distance_comm (a b : String) : distance a b = distance b a :=
  Nat.le_antisymm (distance_le (editedIn_distance b a).symm)
    (distance_le (editedIn_distance a b).symm)

theorem distance_triangle (a b c : String) : distance a c ≤ distance a b + distance b c :=
  distance_le ((editedIn_distance a b).trans (editedIn_distance b c))

/-! ### Two rows in place -/

/-- Writes an entry of a row, if the row has the position. -/
def setAt? (row : Array Nat) (j entry : Nat) : Option (Array Nat) :=
  if j < row.size then some (row.setIfInBounds j entry) else none

/-- Writes the entry at the position `j` of the row `curr`, from the entry to its left and from
two entries of the row `prev` above. -/
def fillAt? (as bs : Array Char) (i : Nat) (prev curr : Array Nat) (j : Nat) :
    Option (Array Nat) := do
  let a ← as[i - 1]?
  let b ← bs[j - 1]?
  let cost := if a = b then 0 else 1
  let up ← prev[j]?
  let left ← curr[j - 1]?
  let diagonal ← prev[j - 1]?
  setAt? curr j (min (min (up + 1) (left + 1)) (diagonal + cost))

/-- Fills the second of two rows from the first one, whatever the second one holds, and exchanges
them. -/
def round? (as bs : Array Char) (rows : Array Nat × Array Nat) (i : Nat) :
    Option (Array Nat × Array Nat) := do
  let curr ← setAt? rows.2 0 i
  let curr ← (List.range' 1 bs.size).foldlM (fillAt? as bs i rows.1) curr
  return (curr, rows.1)

/-- The distance, found with two rows that are written over and over. -/
def distanceInPlace? (a b : String) : Option Nat :=
  let as := a.toList.toArray
  let bs := b.toList.toArray
  if as.size = 0 then some bs.size
  else if bs.size = 0 then some as.size
  else do
    let rows ← (List.range' 1 as.size).foldlM (round? as bs)
      (Array.range (bs.size + 1), Array.replicate (bs.size + 1) 0)
    rows.1[bs.size]?

theorem length_extendRow (c : Char) {left diagonal : Nat} {bs : List Char} {above : List Nat}
    (h : above.length = bs.length) : (extendRow c left diagonal bs above).length = bs.length := by
  induction bs generalizing left diagonal above with
  | nil =>
    obtain rfl := List.eq_nil_of_length_eq_zero h
    rfl
  | cons b bs ih =>
    obtain ⟨up, above, rfl⟩ := List.exists_cons_of_length_eq_add_one h
    rw [extendRow, List.length_cons, ih (Nat.succ.inj h), List.length_cons]

section
variable {as : Array Char} {i : Nat} {c : Char} {bs : List Char} {above old : List Nat}

/-- One more position is filled. In both rows it comes right behind as many entries as characters
of the second text are taken. -/
theorem fillAt?_eq (hc : as[i - 1]? = some c) {taken : List Char} {before done : List Nat}
    (hbefore : before.length = taken.length) (hdone : done.length = taken.length) (b : Char)
    (left diagonal up last : Nat) :
    fillAt? as (taken ++ b :: bs).toArray i (before ++ diagonal :: up :: above).toArray
        (done ++ left :: last :: old).toArray (taken.length + 1) =
      some (done ++ left :: min (min (up + 1) (left + 1)) (diagonal + if c = b then 0 else 1) ::
        old).toArray := by
  have hup : (before ++ diagonal :: up :: above)[taken.length + 1]? = some up := by
    simp [← hbefore]
  have hleft : (done ++ left :: last :: old)[taken.length]? = some left := by
    simp [← hdone]
  have hdiagonal : (before ++ diagonal :: up :: above)[taken.length]? = some diagonal := by
    simp [← hbefore]
  have hsize : taken.length + 1 < done.length + (old.length + 1 + 1) := by omega
  have hset : ∀ entry, (done ++ left :: last :: old).set (taken.length + 1) entry =
      done ++ left :: entry :: old := by
    intro entry
    rw [← hdone]
    simp
  simp [fillAt?, setAt?, hc, hup, hleft, hdiagonal, hsize, hset]

/-- The positions of a row, one after the other, are filled as a row is completed. What the row
held behind `left` is written over. -/
theorem foldlM_fillAt? (hc : as[i - 1]? = some c) (taken : List Char) (before done : List Nat)
    (left diagonal : Nat) (habove : above.length = bs.length) (hold : old.length = bs.length)
    (hbefore : before.length = taken.length) (hdone : done.length = taken.length) :
    (List.range' (taken.length + 1) bs.length).foldlM
        (fillAt? as (taken ++ bs).toArray i (before ++ diagonal :: above).toArray)
        (done ++ left :: old).toArray =
      some (done ++ left :: extendRow c left diagonal bs above).toArray := by
  induction bs generalizing left diagonal taken before done above old with
  | nil =>
    obtain rfl := List.eq_nil_of_length_eq_zero habove
    obtain rfl := List.eq_nil_of_length_eq_zero hold
    simp [extendRow]
  | cons b bs ih =>
    obtain ⟨up, above, rfl⟩ := List.exists_cons_of_length_eq_add_one habove
    obtain ⟨last, old, rfl⟩ := List.exists_cons_of_length_eq_add_one hold
    have hnext := ih (taken ++ [b]) (before ++ [diagonal]) (done ++ [left])
      (min (min (up + 1) (left + 1)) (diagonal + if c = b then 0 else 1)) up
      (Nat.succ.inj habove) (Nat.succ.inj hold) (by simp [hbefore]) (by simp [hdone])
    rw [List.length_cons, List.range'_succ, List.foldlM_cons,
      fillAt?_eq hc hbefore hdone b left diagonal up last]
    simpa [extendRow] using hnext

/-- A round makes the next row of the table. The first entry of a row is the number of rounds. -/
theorem round?_eq (hc : as[i]? = some c) {curr : Array Nat} (habove : above.length = bs.length)
    (hcurr : curr.size = bs.length + 1) :
    round? as bs.toArray ((i :: above).toArray, curr) (i + 1) =
      some ((nextRow c bs (i :: above)).toArray, (i :: above).toArray) := by
  obtain ⟨curr⟩ := curr
  obtain ⟨first, old, rfl⟩ := List.exists_cons_of_length_eq_add_one hcurr
  have hrow := foldlM_fillAt? (i := i + 1) hc [] [] [] (i + 1) i habove (Nat.succ.inj hcurr) rfl rfl
  simp only [List.length_nil, Nat.zero_add, List.nil_append] at hrow
  simp [round?, setAt?, nextRow, hrow]

end

theorem foldlM_round? (taken cs : List Char) {bs : List Char} {above : List Nat}
    {curr : Array Nat} (habove : above.length = bs.length)
    (hcurr : curr.size = bs.length + 1) :
    ∃ rest, (List.range' (taken.length + 1) cs.length).foldlM
        (round? (taken ++ cs).toArray bs.toArray) ((taken.length :: above).toArray, curr) =
      some ((finalRow bs cs (taken.length :: above)).toArray, rest) ∧
      (finalRow bs cs (taken.length :: above)).length = bs.length + 1 := by
  induction cs generalizing taken above curr with
  | nil => exact ⟨curr, by simp [finalRow, habove]⟩
  | cons c cs ih =>
    have hc : (taken ++ c :: cs).toArray[taken.length]? = some c := by simp
    have hrow : (extendRow c (taken.length + 1) taken.length bs above).length = bs.length :=
      length_extendRow c habove
    have hfirst : (taken.length :: above).toArray.size = bs.length + 1 := by simp [habove]
    obtain ⟨rest, hrest, hlength⟩ := ih (taken ++ [c]) hrow hfirst
    refine ⟨rest, ?_, ?_⟩
    · rw [List.length_cons, List.range'_succ, List.foldlM_cons, round?_eq hc habove hcurr]
      simpa [finalRow, nextRow] using hrest
    · simpa [finalRow, nextRow] using hlength

theorem distance_of_toList_eq_nil {a : String} (h : a.toList = []) (b : String) :
    distance a b = b.toList.length := by
  simp [distance, h, finalRow, List.range_succ]

/-- No position is missed, and the two rows in place come to the distance. -/
theorem distanceInPlace?_eq (a b : String) : distanceInPlace? a b = some (distance a b) := by
  by_cases ha : a.toList = []
  · simp [distanceInPlace?, ha, distance_of_toList_eq_nil ha]
  by_cases hb : b.toList = []
  · simp [distanceInPlace?, ha, hb, distance_comm a b, distance_of_toList_eq_nil hb]
  have hrange : List.range (b.toList.length + 1) = 0 :: List.range' 1 b.toList.length := by
    rw [List.range_eq_range', List.range'_succ]
  have habove : (List.range' 1 b.toList.length).length = b.toList.length := List.length_range'
  have hcurr : (Array.replicate (b.toList.length + 1) 0).size = b.toList.length + 1 :=
    Array.size_replicate
  obtain ⟨rest, hrounds, hlength⟩ := foldlM_round? [] a.toList habove hcurr
  simp only [List.length_nil, Nat.zero_add, List.nil_append, ← hrange] at hrounds hlength
  have hlast : (finalRow b.toList a.toList (List.range (b.toList.length + 1)))[b.toList.length]? =
      some (distance a b) := by
    rw [distance, List.getLast?_eq_getElem?, hlength, Nat.add_sub_cancel,
      List.getElem?_eq_getElem (by omega), Option.getD_some]
  have hfirst : Array.range (b.toList.length + 1) = (List.range (b.toList.length + 1)).toArray :=
    Array.toList_inj.mp (by simp)
  simp only [distanceInPlace?, List.size_toArray, List.length_eq_zero_iff, ha, hb, if_false, hfirst,
    hrounds, Option.bind_eq_bind, Option.bind_some, List.getElem?_toArray, hlast]

/-- The distance is the least number of insertions, deletions and substitutions of one character
that turn the one text into the other, and the two rows in place come to it without missing a
position. So it is zero just between equal texts, it is the same in both directions, and a way
over a third text is not shorter. -/
theorem distance_least_edits :
    (∀ a b : String, IsLeast {n | EditedIn n a.toList b.toList} (distance a b)) ∧
    (∀ a b : String, distanceInPlace? a b = some (distance a b)) ∧
    (∀ a b : String, distance a b = 0 ↔ a = b) ∧
    (∀ a b : String, distance a b = distance b a) ∧
    ∀ a b c : String, distance a c ≤ distance a b + distance b c :=
  ⟨isLeast_distance, distanceInPlace?_eq, fun _ _ => distance_eq_zero_iff, distance_comm,
    distance_triangle⟩

end LineScript.Text
