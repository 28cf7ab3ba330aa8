/-
Lines as they are typed.

A backspace in a line takes back the cluster before it, if there still is one, and
is not part of the line itself. What is taken back is counted in bytes, and the
size of each cluster is kept in a single byte, so that of a cluster of 256 bytes or
more only the remainder goes.

A line without backspaces is as it stands (`typed_of_not_mem`), and a backspace
after a cluster of ordinary size undoes it (`strike_backspace_strike`).
-/
import LineScript.Text.Cluster

namespace LineScript.Text

/-- The character that takes back what was typed last. -/
def backspace : Char := '\x08'

/-- The number of bytes of a text. -/
def byteSize : List Char → Nat
  | [] => 0
  | c :: cs => c.utf8Size + byteSize cs

/-- Drops characters that make up a number of bytes, or as many as fit in it. -/
def dropBytes (size : Nat) : List Char → List Char
  | [] => []
  | c :: cs => if c.utf8Size ≤ size then dropBytes (size - c.utf8Size) cs else c :: cs

/-- A line while it is typed. -/
structure Typing where
  /-- The characters so far, the last one first. -/
  text : List Char := []
  /-- The sizes of the clusters that can be taken back, the last one first. -/
  sizes : List UInt8 := []
  deriving DecidableEq

namespace Typing

/-- Takes back the last cluster. -/
def back (t : Typing) : Typing :=
  match t.sizes with
  | [] => t
  | size :: sizes => { text := dropBytes size.toNat t.text, sizes }

/-- Types a cluster. -/
def strike (t : Typing) (cluster : List Char) : Typing :=
  if cluster = [backspace] then t.back
  else
    { text := cluster.reverse ++ t.text
      sizes := (byteSize cluster).toUInt8 :: t.sizes }

end Typing

/-- What is left of a line once its backspaces have been carried out. -/
def typed (cs : List Char) : List Char :=
  ((clusters cs).foldl Typing.strike {}).text.reverse

/-! ### Sizes -/

@[simp]
theorem byteSize_append (a b : List Char) : byteSize (a ++ b) = byteSize a + byteSize b := by
  induction a with
  | nil => simp [byteSize]
  | cons c a ih => simp [byteSize, ih, Nat.add_assoc]

/-- The number of bytes does not depend on the order of the characters. -/
@[simp]
theorem byteSize_reverse (cs : List Char) : byteSize cs.reverse = byteSize cs := by
  induction cs with
  | nil => rfl
  | cons c cs ih => simp [byteSize, ih, Nat.add_comm]

@[simp]
theorem dropBytes_zero (cs : List Char) : dropBytes 0 cs = cs := by
  cases cs with
  | nil => rfl
  | cons c cs =>
    have hc := c.utf8Size_pos
    rw [dropBytes, if_neg (by omega)]

/-- Dropping the bytes of a text that stands in front drops just that text. -/
theorem dropBytes_append (a b : List Char) : dropBytes (byteSize a) (a ++ b) = b := by
  induction a with
  | nil => simp [byteSize]
  | cons c a ih =>
    rw [List.cons_append, byteSize, dropBytes, if_pos (Nat.le_add_right _ _), Nat.add_sub_cancel_left]
    exact ih

/-! ### Backspaces -/

/-- A backspace undoes a cluster whose size fits in a byte. -/
theorem strike_backspace_strike (t : Typing) {cluster : List Char}
    (hc : cluster ≠ [backspace]) (hs : byteSize cluster < 256) :
    (t.strike cluster).strike [backspace] = t := by
  have hn : (byteSize cluster).toUInt8.toNat = byteSize cluster := Nat.mod_eq_of_lt hs
  simp only [Typing.strike, if_neg hc, if_pos, Typing.back, hn]
  rw [← byteSize_reverse, dropBytes_append]

theorem text_foldl_strike (l : List (List Char)) (t : Typing)
    (h : ∀ cluster ∈ l, cluster ≠ [backspace]) :
    (l.foldl Typing.strike t).text = l.flatten.reverse ++ t.text := by
  induction l generalizing t with
  | nil => rfl
  | cons cluster l ih =>
    have hc : cluster ≠ [backspace] := h cluster (by simp)
    have hl : ∀ other ∈ l, other ≠ [backspace] := fun other hm => h other (by simp [hm])
    rw [List.foldl_cons, ih _ hl]
    simp [Typing.strike, hc]

/-- A line without backspaces is left as it is. -/
theorem typed_of_not_mem {cs : List Char} (h : backspace ∉ cs) : typed cs = cs := by
  have hne : ∀ cluster ∈ clusters cs, cluster ≠ [backspace] := by
    rintro cluster hm rfl
    refine h ?_
    rw [← flatten_clusters cs]
    exact List.mem_flatten.2 ⟨_, hm, by simp⟩
  rw [typed, text_foldl_strike _ _ hne]
  simp [flatten_clusters]

end LineScript.Text
