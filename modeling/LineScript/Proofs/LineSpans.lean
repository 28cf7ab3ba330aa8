/-
Lines and where they stand.

A program is executed line by line, and a report of a problem points at a range of characters of
the source. Both begin with the same pieces, each up to a line feed (`Pieced`), but they take off
different ends: a line loses its line feed and one carriage return before it, a range leaves out
every line feed and carriage return at the end.

* `spanFrom_eq`: a range begins where the pieces before it end;
* `slice_span?`: the characters in the range are those of the piece, less its end;
* `trimLineEnd_eq`: they are the line, less the carriage returns that it may still end with.

`spans_of_lines` puts them together, with the order of the ranges.
-/
import LineScript.Program
import Mathlib.Data.List.Induction

namespace LineScript.Text

/-! ### Ends that are taken off -/

theorem dropEndWhile_concat {α : Type} (p : α → Bool) (l : List α) (a : α) :
    dropEndWhile p (l ++ [a]) = if p a then dropEndWhile p l else l ++ [a] := by
  rw [dropEndWhile, List.reverse_concat, List.dropWhile_cons]
  split
  · rfl
  · simp

theorem dropEndWhile_isPrefix {α : Type} (p : α → Bool) (l : List α) : dropEndWhile p l <+: l :=
  ⟨_, dropEndWhile_append_takeWhile p l⟩

/-- The character is a carriage return. -/
def isReturn (c : Char) : Bool := c = '\r'

/-- In a text without line feeds only carriage returns can end a line. -/
theorem trimLineEnd_of_not_mem {body : List Char} (h : '\n' ∉ body) :
    trimLineEnd body = dropEndWhile isReturn body := by
  induction body using List.reverseRecOn with
  | nil => rfl
  | append_singleton body c ih =>
    obtain ⟨hbody, hc⟩ : '\n' ∉ body ∧ c ≠ '\n' := by
      simpa [eq_comm] using h
    have hclass : isLineEnd c = isReturn c := by
      simp [isLineEnd, isReturn, hc]
    rw [trimLineEnd, dropEndWhile_concat, dropEndWhile_concat, hclass, ← ih hbody, trimLineEnd]

theorem stripTerminator_of_not_mem {body : List Char} (h : '\n' ∉ body) :
    stripTerminator body = body := by
  rw [stripTerminator]
  split
  · next heq => exact absurd (List.mem_reverse.mp (heq ▸ List.mem_cons_self)) h
  · next heq => exact absurd (List.mem_reverse.mp (heq ▸ List.mem_cons_self)) h
  · rfl

/-- Of the carriage returns before a line feed one is taken off, and it makes no difference when
all of them are. -/
theorem dropEndWhile_stripTerminator (body : List Char) :
    dropEndWhile isReturn (stripTerminator (body ++ ['\n'])) = dropEndWhile isReturn body := by
  rw [stripTerminator]
  split
  · next r heq =>
    obtain rfl : body = r.reverse ++ ['\r'] := by simpa using heq
    rw [dropEndWhile_concat]
    rfl
  · next r _ heq =>
    obtain rfl : body.reverse = r := by simpa using heq
    rw [List.reverse_reverse]
  · next hother => simp at hother

/-! ### Pieces -/

/-- The texts are pieces of a text: each ends with its only line feed, but the last one may have
none. -/
inductive Pieced : List (List Char) → Prop
  | nil : Pieced []
  | last {body : List Char} (hne : body ≠ []) (hbody : '\n' ∉ body) : Pieced [body]
  | line {body : List Char} {ps : List (List Char)} (hbody : '\n' ∉ body) (h : Pieced ps) :
    Pieced ((body ++ ['\n']) :: ps)

theorem Pieced.consPiece {ps : List (List Char)} (h : Pieced ps) (c : Char) :
    Pieced (consPiece c ps) := by
  by_cases hc : c = '\n'
  · subst hc
    have hempty : '\n' ∉ ([] : List Char) := List.not_mem_nil
    cases h with
    | nil => exact .line hempty .nil
    | last hne hbody => exact .line hempty (.last hne hbody)
    | line hbody h => exact .line hempty (.line hbody h)
  · cases h with
    | nil => exact .last (by simp) (by simpa [eq_comm] using hc)
    | @last body hne hbody =>
      rw [Text.consPiece, if_neg hc]
      exact .last (by simp) (by simp [hbody, Ne.symm hc])
    | @line body ps hbody h =>
      rw [Text.consPiece, if_neg hc, ← List.cons_append]
      exact .line (by simp [hbody, Ne.symm hc]) h

theorem pieced_pieces (cs : List Char) : Pieced (pieces cs) := by
  induction cs with
  | nil => exact .nil
  | cons c cs ih => exact ih.consPiece c

/-- A piece is a text without line feeds, and a line feed unless it is the last piece. -/
theorem Pieced.exists_body {ps : List (List Char)} (h : Pieced ps) {l : Nat} {p : List Char}
    (hp : ps[l]? = some p) :
    ∃ body, '\n' ∉ body ∧ (p = body ++ ['\n'] ∨ p = body ∧ l + 1 = ps.length) := by
  induction h generalizing l with
  | nil => simp at hp
  | @last body hne hbody =>
    obtain ⟨rfl, rfl⟩ : l = 0 ∧ body = p := by simpa [List.getElem?_singleton] using hp
    exact ⟨body, hbody, .inr ⟨rfl, rfl⟩⟩
  | @line body ps hbody h ih =>
    cases l with
    | zero =>
      obtain rfl : body ++ ['\n'] = p := by simpa using hp
      exact ⟨body, hbody, .inl rfl⟩
    | succ l =>
      obtain ⟨body', hbody', hends⟩ := ih (by simpa using hp)
      refine ⟨body', hbody', hends.imp_right ?_⟩
      rintro ⟨rfl, hlast⟩
      exact ⟨rfl, by simp [hlast]⟩

/-- What a range shows of a piece is its line without the carriage returns at the end. -/
theorem trimLineEnd_eq {ps : List (List Char)} (h : Pieced ps) {l : Nat} {p : List Char}
    (hp : ps[l]? = some p) : trimLineEnd p = dropEndWhile isReturn (stripTerminator p) := by
  obtain ⟨body, hbody, rfl | ⟨rfl, -⟩⟩ := h.exists_body hp
  · rw [dropEndWhile_stripTerminator, ← trimLineEnd_of_not_mem hbody, trimLineEnd,
      dropEndWhile_concat]
    rfl
  · rw [stripTerminator_of_not_mem hbody, trimLineEnd_of_not_mem hbody]

/-! ### Ranges -/

/-- A range begins where the pieces before it end, and has as many characters as are left of its
piece. -/
theorem spanFrom_eq (offset : Nat) (ps : List (List Char)) (l : Nat) :
    spanFrom offset ps l = ps[l]?.map fun p =>
      ⟨offset + (ps.take l).flatten.length,
        offset + (ps.take l).flatten.length + (trimLineEnd p).length⟩ := by
  induction ps generalizing offset l with
  | nil => simp [spanFrom]
  | cons p ps ih =>
    cases l with
    | zero => simp [spanFrom]
    | succ l => simp [spanFrom, ih, Nat.add_assoc]

variable {source : String} {l : Nat} {span : Span}

theorem exists_piece (h : span? source l = some span) :
    ∃ p, (pieces source.toList)[l]? = some p ∧
      span.start = ((pieces source.toList).take l).flatten.length ∧
      span.stop = span.start + (trimLineEnd p).length := by
  rw [span?, spanFrom_eq] at h
  obtain ⟨p, hp, rfl⟩ := Option.map_eq_some_iff.mp h
  exact ⟨p, hp, by simp, by simp⟩

/-- The text is made of the pieces before one, this piece, and those after it. -/
theorem eq_append_of_piece {p : List Char} (hp : (pieces source.toList)[l]? = some p) :
    source.toList = ((pieces source.toList).take l).flatten ++ p ++
      ((pieces source.toList).drop (l + 1)).flatten := by
  obtain ⟨hl, rfl⟩ := List.getElem?_eq_some_iff.mp hp
  conv_lhs => rw [← flatten_pieces source.toList, ← List.take_append_drop l (pieces source.toList),
    List.drop_eq_getElem_cons hl, List.flatten_append, List.flatten_cons]
  rw [List.append_assoc]

/-- The characters in a range are those of its piece without the end of the line. -/
theorem slice_span? {p : List Char} (hp : (pieces source.toList)[l]? = some p)
    (h : span? source l = some span) : (slice source span).toList = trimLineEnd p := by
  obtain ⟨p', hp', hstart, hstop⟩ := exists_piece h
  cases hp.symm.trans hp'
  obtain ⟨dropped, hdropped⟩ := dropEndWhile_isPrefix isLineEnd p
  have hwidth : span.width = (trimLineEnd p).length := by
    rw [Span.width, hstop, Nat.add_sub_cancel_left]
  rw [slice, String.toList_ofList, eq_append_of_piece hp, hstart, List.append_assoc,
    List.drop_left, hwidth]
  nth_rewrite 2 [← hdropped]
  rw [List.append_assoc]
  exact List.take_left

theorem stop_le_length (h : span? source l = some span) : span.stop ≤ source.toList.length := by
  obtain ⟨p, hp, hstart, hstop⟩ := exists_piece h
  have hlength := congrArg List.length (eq_append_of_piece hp)
  have htrim := (dropEndWhile_isPrefix isLineEnd p).length_le
  rw [List.length_append, List.length_append] at hlength
  rw [trimLineEnd] at hstop
  omega

/-- Behind a range that is not the last one there is a line feed at least, before the next range
begins. -/
theorem stop_lt_start {l' : Nat} {span' : Span} (h : span? source l = some span)
    (h' : span? source l' = some span') (hlt : l < l') : span.stop < span'.start := by
  obtain ⟨p, hp, hstart, hstop⟩ := exists_piece h
  obtain ⟨p', hp', hstart', -⟩ := exists_piece h'
  obtain ⟨hl', -⟩ := List.getElem?_eq_some_iff.mp hp'
  obtain ⟨body, hbody, rfl | ⟨-, hlast⟩⟩ := (pieced_pieces source.toList).exists_body hp
  · have htrim : (trimLineEnd (body ++ ['\n'])).length ≤ body.length := by
      rw [trimLineEnd, dropEndWhile_concat]
      exact (dropEndWhile_isPrefix isLineEnd body).length_le
    -- The piece of the first range is among those before the second one.
    have hbefore : ((pieces source.toList).take l).flatten ++ (body ++ ['\n']) <+:
        ((pieces source.toList).take l').flatten := by
      obtain ⟨hl, hpiece⟩ := List.getElem?_eq_some_iff.mp hp
      obtain ⟨between, hbetween⟩ := List.take_prefix_take_left (l := pieces source.toList) hlt
      rw [← hpiece, ← List.flatten_concat, ← List.take_succ_eq_append_getElem hl, ← hbetween,
        List.flatten_append]
      exact List.prefix_append _ _
    have hle := hbefore.length_le
    rw [List.length_append, List.length_append, List.length_singleton] at hle
    omega
  · omega

/-! ### Lines of programs -/

theorem size_ofSource (source : String) :
    (Program.ofSource source).size = (pieces source.toList).length := by
  simp [Program.ofSource, Program.ofLines, Program.size, lines]

theorem text_line_ofSource {p : List Char} (hp : (pieces source.toList)[l]? = some p) :
    ((Program.ofSource source).line l).text = String.ofList (stripTerminator p) := by
  simp [Program.ofSource, Program.ofLines, Program.line, lines, hp, SourceLine.ofText]

/-- A line of the source has a range just if the program has this line. The range lies within the
source, its characters are those of the line without the carriage returns at its end, and it ends
before the range of any later line begins. -/
theorem spans_of_lines (source : String) (l : Nat) :
    ((span? source l).isSome = true ↔ l < (Program.ofSource source).size) ∧
    ∀ span, span? source l = some span →
      span.start ≤ span.stop ∧ span.stop ≤ source.length ∧
      (slice source span).toList =
        dropEndWhile isReturn ((Program.ofSource source).line l).text.toList ∧
      ∀ l' span', l < l' → span? source l' = some span' → span.stop < span'.start := by
  refine ⟨?_, ?_⟩
  · rw [span?, spanFrom_eq, size_ofSource]
    simp
  · intro span h
    obtain ⟨p, hp, hstart, hstop⟩ := exists_piece h
    refine ⟨by omega, ?_, ?_, ?_⟩
    · rw [← String.length_toList]
      exact stop_le_length h
    · rw [slice_span? hp h, text_line_ofSource hp, String.toList_ofList,
        trimLineEnd_eq (pieced_pieces _) hp]
    · intro l' span' hlt h'
      exact stop_lt_start h h' hlt

/-- A source with all sorts of line ends: a line feed, a carriage return before it, two of them, an
empty line, and a last line that has no line feed but a carriage return. -/
def mixedSource : String := "func é void\n  var int x\r\n\r\r\n\nendfunc\r"

/-- It has five lines. The range of the last one leaves out the carriage return that belongs to
the line, and the range of the second one ends before it begins. -/
theorem spans_of_lines_mixedSource :
    (Program.ofSource mixedSource).size = 5 ∧
    span? mixedSource 1 = some ⟨12, 23⟩ ∧ span? mixedSource 4 = some ⟨29, 36⟩ ∧
    (span? mixedSource 5).isSome = false ∧
    ((Program.ofSource mixedSource).line 4).text = "endfunc\r" ∧
    (slice mixedSource ⟨29, 36⟩).toList = "endfunc".toList ∧ 23 < 29 := by
  have hsize : (Program.ofSource mixedSource).size = 5 := by decide +kernel
  have hsecond : span? mixedSource 1 = some ⟨12, 23⟩ := by decide +kernel
  have hlast : span? mixedSource 4 = some ⟨29, 36⟩ := by decide +kernel
  have htext : ((Program.ofSource mixedSource).line 4).text = "endfunc\r" := by decide +kernel
  obtain ⟨-, -, hslice, -⟩ := (spans_of_lines mixedSource 4).2 _ hlast
  obtain ⟨-, -, -, hbefore⟩ := (spans_of_lines mixedSource 1).2 _ hsecond
  refine ⟨hsize, hsecond, hlast, ?_, htext, ?_, hbefore 4 _ (by decide) hlast⟩
  · have hnone := (spans_of_lines mixedSource 5).1.not
    rw [hsize] at hnone
    simpa using hnone.mpr (by decide)
  · rw [hslice, htext]
    decide

end LineScript.Text
