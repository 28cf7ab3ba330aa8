/-
Lines put together.

Where one text is followed by another, the tokens of the two are those of the whole, unless
something is open between them: a string, a comment, or a word. `Mode` tells strings and comments
from the rest of a line, character by character, without any tokens.

* `scan_append`: the tokens of two texts are those of the first and those of the second, if the
  first leaves neither a string nor a comment open and no word goes on from one to the other;
* `Slot.ofLine_eq`: a token that is put between blanks, or at an end of the line, is one token of
  the line, and the others are those before and behind it.
-/
import LineScript.Proofs.Lexemes

namespace LineScript.Token

variable {before after cs t : List Char} {c : Char} {p : Char → Bool}

/-! ### What is open -/

/-- What a line is in the middle of. -/
inductive Mode
  | plain
  | string
  | comment
  deriving DecidableEq

/-- What a line is in the middle of after one more character. A string ends with a quote or with
the line, a comment with the line. -/
def Mode.next : Mode → Char → Mode
  | plain, c => if c = '"' then string else if c = '#' then comment else plain
  | string, c => if c = '"' ∨ c = '\n' then plain else string
  | comment, c => if c = '\n' then plain else comment

/-- What a text leaves open when it has begun in the given mode. -/
def Mode.behind (m : Mode) (cs : List Char) : Mode := cs.foldl Mode.next m

namespace Mode

@[simp] theorem behind_nil (m : Mode) : m.behind [] = m := rfl

@[simp] theorem behind_cons (m : Mode) (c : Char) (cs : List Char) :
    m.behind (c :: cs) = (m.next c).behind cs := rfl

/-- Characters that go on with what is open can be left out. -/
theorem behind_dropWhile {m : Mode} (h : ∀ c, p c = true → m.next c = m) (cs : List Char) :
    m.behind cs = m.behind (cs.dropWhile p) := by
  induction cs with
  | nil => rfl
  | cons c cs ih =>
    rw [List.dropWhile_cons]
    split
    · next hc => rw [behind_cons, h c hc, ih]
    · rfl

theorem next_of_isBlank (h : isBlank c = true) : plain.next c = plain := by
  have hquote : c ≠ '"' := by
    rintro rfl
    cases h
  have hhash : c ≠ '#' := by
    rintro rfl
    cases h
  simp [next, hquote, hhash]

theorem next_of_isWordChar (h : isWordChar c = true) : plain.next c = plain := by
  obtain ⟨-, hhash, hquote⟩ := isBlank_eq_false_of_isWordChar h
  simp [next, hquote, hhash]

/-- A comment that is closed was closed by a line feed. -/
theorem exists_of_comment (h : comment.behind cs = plain) :
    ∃ rest, cs.dropWhile inComment = '\n' :: rest ∧ plain.behind rest = plain := by
  rw [behind_dropWhile (p := inComment) (by simp [next, inComment])] at h
  have hhead := List.head?_dropWhile_not inComment cs
  cases hdrop : cs.dropWhile inComment with
  | nil =>
    rw [hdrop] at h
    cases h
  | cons c rest =>
    rw [hdrop] at h hhead
    obtain rfl : c = '\n' := by simpa [inComment] using hhead
    exact ⟨rest, rfl, h⟩

/-- A string that is closed was closed by a quote or by a line feed. -/
theorem exists_of_string (h : string.behind cs = plain) :
    ∃ c rest, cs.dropWhile inString = c :: rest ∧ (c = '"' ∨ c = '\n') ∧
      plain.behind rest = plain := by
  rw [behind_dropWhile (p := inString) (by simp [next, inString])] at h
  have hhead := List.head?_dropWhile_not inString cs
  cases hdrop : cs.dropWhile inString with
  | nil =>
    rw [hdrop] at h
    cases h
  | cons c rest =>
    rw [hdrop] at h hhead
    have hc : c = '"' ∨ c = '\n' := by
      simpa [inString, or_iff_not_imp_left] using hhead
    rw [behind_cons, next, if_pos hc] at h
    exact ⟨c, rest, rfl, hc, h⟩

end Mode

/-! ### Two texts -/

theorem Apart.of_suffix {rest : List Char} (h : Apart before after) (hsuffix : rest <:+ before) :
    Apart rest after := by
  intro c hc hword d hd
  obtain ⟨first, rfl⟩ := hsuffix
  refine h c hc hword d ?_
  have hne : rest ≠ [] := by
    rintro rfl
    cases hd
  rw [List.getLast?_append_of_ne_nil first hne]
  exact hd

/-- What is taken from the first of two texts, if something stops it there. -/
theorem takeWhile_append_of_dropWhile (h : cs.dropWhile p ≠ []) (after : List Char) :
    (cs ++ after).takeWhile p = cs.takeWhile p ∧
      (cs ++ after).dropWhile p = cs.dropWhile p ++ after := by
  have hstops : Stops p (cs.dropWhile p ++ after) := by
    obtain ⟨c, rest, hrest⟩ := List.exists_cons_of_ne_nil h
    have hhead := List.head?_dropWhile_not p cs
    rw [hrest] at hhead ⊢
    intro d hd
    cases hd
    simpa using hhead
  have htaken : ∀ c ∈ cs.takeWhile p, p c = true := fun c hc => List.mem_takeWhile_imp hc
  have hcs : cs ++ after = cs.takeWhile p ++ (cs.dropWhile p ++ after) := by
    rw [← List.append_assoc, List.takeWhile_append_dropWhile]
  constructor
  · rw [hcs, takeWhile_append_of_stops htaken hstops]
  · rw [hcs, dropWhile_append_of_stops htaken hstops]

/-- The tokens of two texts, if nothing is open between them. -/
theorem scan_append (hmode : Mode.plain.behind before = .plain) (hapart : Apart before after) :
    scan (before ++ after) = scan before ++ scan after := by
  induction before using scan.induct with
  | case1 => simp
  | case2 c rest hblank ih =>
    rw [List.cons_append, scan_blank hblank, scan_blank hblank]
    rw [Mode.behind_cons, Mode.next_of_isBlank hblank] at hmode
    exact ih hmode (hapart.of_suffix (List.suffix_cons c rest))
  | case3 rest _ ih =>
    obtain ⟨rest', hdrop, hmode'⟩ := Mode.exists_of_comment hmode
    have hne : rest.dropWhile inComment ≠ [] := by simp [hdrop]
    rw [List.cons_append, scan_comment, scan_comment,
      (takeWhile_append_of_dropWhile hne after).2]
    refine ih ?_ (hapart.of_suffix ?_)
    · rw [hdrop]
      exact hmode'
    · exact (List.dropWhile_suffix _).trans (List.suffix_cons _ _)
  | case4 rest close _ _ ih =>
    obtain ⟨c, rest', hdrop, hc, hmode'⟩ := Mode.exists_of_string hmode
    have hne : rest.dropWhile inString ≠ [] := by simp [hdrop]
    obtain ⟨htake, hdropped⟩ := takeWhile_append_of_dropWhile hne after
    have hclose : takeClosing (rest.dropWhile inString ++ after) = (close.1, close.2 ++ after) := by
      simp only [close, hdrop, List.cons_append, takeClosing]
      split <;> rfl
    have hsuffix : close.2 <:+ rest.dropWhile inString := ⟨close.1, takeClosing_append _⟩
    have hplain : Mode.plain.behind close.2 = .plain := by
      rcases hc with rfl | rfl <;> simpa [close, hdrop, takeClosing, Mode.next] using hmode'
    have hrest := ih hplain (hapart.of_suffix
      (hsuffix.trans ((List.dropWhile_suffix _).trans (List.suffix_cons _ _))))
    rw [List.cons_append, scan_string, scan_string, htake, hdropped, hclose, hrest]
    rfl
  | case5 c rest hblank hhash hquote ih =>
    have hc : isWordChar c = true := by simp [isWordChar, hblank, hhash, hquote]
    rw [List.cons_append, scan_word hc, scan_word hc]
    rw [Mode.behind_cons, Mode.next_of_isWordChar hc,
      Mode.behind_dropWhile fun _ => Mode.next_of_isWordChar] at hmode
    by_cases hne : rest.dropWhile isWordChar = []
    · -- The first text is one word, and it does not go on in the second.
      have hall : ∀ d ∈ rest, isWordChar d = true := List.dropWhile_eq_nil_iff.mp hne
      have hstops : Stops isWordChar after := by
        intro d hd
        by_contra hword
        obtain ⟨e, he⟩ : ∃ e, (c :: rest).getLast? = some e :=
          ⟨_, List.getLast?_eq_some_getLast (by simp)⟩
        have hlast := hapart d hd (by simpa using hword) e he
        rcases List.mem_cons.mp (List.mem_of_getLast? he) with rfl | hmem
        · rw [hc] at hlast
          cases hlast
        · rw [hall e hmem] at hlast
          cases hlast
      rw [takeWhile_append_of_stops hall hstops, dropWhile_append_of_stops hall hstops, hne,
        List.takeWhile_eq_self_iff.mpr hall, scan_nil, List.singleton_append]
    · obtain ⟨htake, hdropped⟩ := takeWhile_append_of_dropWhile hne after
      have hrest := ih hmode (hapart.of_suffix
        ((List.dropWhile_suffix _).trans (List.suffix_cons _ _)))
      rw [htake, hdropped, hrest, List.cons_append]

/-! ### Places for tokens -/

/-- A place in a line where a token can stand: no string and no comment is open there, and on both
sides there are blanks, if anything. -/
structure Slot (before after : List Char) : Prop where
  plain : Mode.plain.behind before = .plain
  left : ∀ c ∈ before.getLast?, isBlank c = true
  right : ∀ c ∈ after.head?, isBlank c = true

theorem Slot.apart (h : Slot before after) (rest : List Char) : Apart before rest := by
  intro c _ _ d hd
  exact isWordChar_eq_false_of_isBlank (h.left d hd)

/-- A run of characters of words is a word in such a place. -/
theorem Slot.isWord (h : Slot before after) (hne : t ≠ []) (hchars : ∀ c ∈ t, isWordChar c = true) :
    IsWord before t after :=
  ⟨hne, hchars, fun c hc => isWordChar_eq_false_of_isBlank (h.right c hc),
    fun c hc => isWordChar_eq_false_of_isBlank (h.left c hc)⟩

/-- A token that is put in such a place is one token of the line. -/
theorem Slot.ofLine_eq {before text after : String} (h : Slot before.toList after.toList)
    (htoken : IsToken before.toList text.toList after.toList) :
    ofLine (before ++ text ++ after) = ofLine before ++ text :: ofLine after := by
  rw [ofLine, String.toList_append, String.toList_append, List.append_assoc,
    scan_append h.plain (h.apart _), htoken.scan_append, List.map_append, List.map_cons,
    String.ofList_toList]
  rfl

end LineScript.Token
