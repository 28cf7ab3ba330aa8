/-
Lines cut into tokens and gaps.

A line consists of tokens and of the gaps between them. A `Division` says which; each piece is
known by its surroundings: a word cannot be made longer on either side, and a string or a comment
goes on for as long as it can. So nothing is left to choose:

* `Division.Divides.scan_eq`: the scan finds the tokens of any division of the line;
* `Division.Divides.unique`: a line has one division at most.

That each line has one is shown in `Lexemes`.
-/
import LineScript.Token
import Mathlib.Data.List.Basic

namespace LineScript.Token

variable {p : Char → Bool} {before after body rest g g' t t' cs : List Char}

/-! ### Runs of characters of one class -/

/-- The text does not begin with a character of the class. -/
def Stops (p : Char → Bool) (rest : List Char) : Prop := ∀ c ∈ rest.head?, p c = false

theorem takeWhile_append_of_stops (h : ∀ c ∈ body, p c = true) (hstops : Stops p rest) :
    (body ++ rest).takeWhile p = body := by
  rw [List.takeWhile_append_of_pos h]
  cases rest with
  | nil => simp
  | cons c rest => simp [hstops c rfl]

theorem dropWhile_append_of_stops (h : ∀ c ∈ body, p c = true) (hstops : Stops p rest) :
    (body ++ rest).dropWhile p = rest := by
  rw [List.dropWhile_append_of_pos h]
  cases rest with
  | nil => rfl
  | cons c rest => simp [hstops c rfl]

/-! ### Gaps and tokens in their surroundings -/

/-- The text is at its end, or a line feed comes next. -/
def EndsLine (rest : List Char) : Prop := ∀ c ∈ rest.head?, c = '\n'

/-- Blanks and comments, one after the other. A comment goes up to a line feed or to the end of
the text, so it depends on what comes after the gap. -/
inductive IsGap : (gap after : List Char) → Prop
  | nil (after : List Char) : IsGap [] after
  | blank {c : Char} {g after : List Char} (hc : isBlank c = true) (h : IsGap g after) :
    IsGap (c :: g) after
  | comment {body g after : List Char} (hbody : '\n' ∉ body) (hend : EndsLine (g ++ after))
    (h : IsGap g after) : IsGap ('#' :: (body ++ g)) after

/-- A word: characters that belong to words, with no such character on either side. -/
structure IsWord (before t after : List Char) : Prop where
  nonempty : t ≠ []
  chars : ∀ c ∈ t, isWordChar c = true
  right : ∀ c ∈ after.head?, isWordChar c = false
  left : ∀ c ∈ before.getLast?, isWordChar c = false

/-- A string: a quote and the characters up to the next quote, which belongs to the string, or up
to a line feed or the end of the text, if that comes first. -/
inductive IsString : (t after : List Char) → Prop
  | closed {body after : List Char} (hbody : ∀ c ∈ body, c ≠ '"' ∧ c ≠ '\n') :
    IsString ('"' :: (body ++ ['"'])) after
  | opened {body after : List Char} (hbody : ∀ c ∈ body, c ≠ '"' ∧ c ≠ '\n')
    (hend : EndsLine after) : IsString ('"' :: body) after

/-- A token in its surroundings. -/
def IsToken (before t after : List Char) : Prop := IsWord before t after ∨ IsString t after

/-- Tokens, each with the gap behind it, put together. -/
def joined : List (List Char × List Char) → List Char
  | [] => []
  | (t, g) :: pairs => t ++ g ++ joined pairs

/-- Tokens, each with the gap behind it, are tokens and gaps in their surroundings. -/
def Cut (before : List Char) : List (List Char × List Char) → Prop
  | [] => True
  | (t, g) :: pairs =>
    IsToken before t (g ++ joined pairs) ∧ IsGap g (joined pairs) ∧ Cut (before ++ t ++ g) pairs

/-- A text cut into a first gap and tokens with the gaps behind them. -/
structure Division where
  first : List Char
  pairs : List (List Char × List Char)

namespace Division

/-- The tokens, in order. -/
def tokens (d : Division) : List (List Char) := d.pairs.map Prod.fst

/-- The gaps, in order. -/
def gaps (d : Division) : List (List Char) := d.first :: d.pairs.map Prod.snd

/-- The pieces put together are the text, and each is a gap or a token where it stands. -/
structure Divides (d : Division) (cs : List Char) : Prop where
  whole : d.first ++ joined d.pairs = cs
  gap : IsGap d.first (joined d.pairs)
  cut : Cut d.first d.pairs

end Division

/-! ### Scanning a piece -/

theorem inComment_of_not_mem (h : '\n' ∉ body) : ∀ c ∈ body, inComment c = true := by
  intro c hc
  have hne : c ≠ '\n' := by
    rintro rfl
    exact h hc
  simp [inComment, hne]

theorem inString_of_ne (h : ∀ c ∈ body, c ≠ '"' ∧ c ≠ '\n') : ∀ c ∈ body, inString c = true := by
  intro c hc
  simp [inString, (h c hc).1, (h c hc).2]

theorem EndsLine.stops_comment (h : EndsLine rest) : Stops inComment rest := by
  intro c hc
  simp [inComment, h c hc]

theorem EndsLine.stops_string (h : EndsLine rest) : Stops inString rest := by
  intro c hc
  simp [inString, h c hc]

/-- A gap has no tokens. -/
theorem IsGap.scan_append (h : IsGap g after) : scan (g ++ after) = scan after := by
  induction h with
  | nil after => rfl
  | blank hc h ih =>
    rw [List.cons_append, scan_blank hc]
    exact ih
  | comment hbody hend h ih =>
    rw [List.cons_append, List.append_assoc, scan_comment,
      dropWhile_append_of_stops (inComment_of_not_mem hbody) hend.stops_comment]
    exact ih

theorem scan_word_append (hne : t ≠ []) (hchars : ∀ c ∈ t, isWordChar c = true)
    (hstops : Stops isWordChar after) : scan (t ++ after) = t :: scan after := by
  match t, hne with
  | c :: t, _ =>
    have htail : ∀ d ∈ t, isWordChar d = true := fun d hd => hchars d (List.mem_cons_of_mem c hd)
    rw [List.cons_append, scan_word (hchars c List.mem_cons_self),
      takeWhile_append_of_stops htail hstops, dropWhile_append_of_stops htail hstops]

theorem IsString.scan_append (h : IsString t after) : scan (t ++ after) = t :: scan after := by
  cases h with
  | @closed body after hbody =>
    have hquote : Stops inString ('"' :: after) := by
      intro c hc
      cases hc
      rfl
    rw [List.cons_append, List.append_assoc, List.singleton_append, scan_string,
      takeWhile_append_of_stops (inString_of_ne hbody) hquote,
      dropWhile_append_of_stops (inString_of_ne hbody) hquote]
    simp [takeClosing]
  | @opened body after hbody hend =>
    have hclose : takeClosing after = ([], after) := by
      cases after with
      | nil => rfl
      | cons c after => simp [takeClosing, hend c rfl]
    rw [List.cons_append, scan_string,
      takeWhile_append_of_stops (inString_of_ne hbody) hend.stops_string,
      dropWhile_append_of_stops (inString_of_ne hbody) hend.stops_string, hclose]
    simp

theorem IsToken.scan_append (h : IsToken before t after) : scan (t ++ after) = t :: scan after := by
  rcases h with h | h
  · exact scan_word_append h.nonempty h.chars h.right
  · exact h.scan_append

/-- The scan finds the tokens that a text is cut into. -/
theorem Cut.scan_joined {pairs : List (List Char × List Char)} (h : Cut before pairs) :
    scan (joined pairs) = pairs.map Prod.fst := by
  induction pairs generalizing before with
  | nil => simp [joined]
  | cons pair pairs ih =>
    obtain ⟨t, g⟩ := pair
    obtain ⟨htoken, hgap, hcut⟩ := h
    rw [joined, List.append_assoc, htoken.scan_append, hgap.scan_append, ih hcut]
    rfl

theorem Division.Divides.scan_eq {d : Division} (h : d.Divides cs) : scan cs = d.tokens := by
  rw [← h.whole, h.gap.scan_append, h.cut.scan_joined, Division.tokens]

/-! ### Only one division -/

/-- The text is at its end, or a token comes next. -/
def StartsToken (rest : List Char) : Prop := ∀ c ∈ rest.head?, isBlank c = false ∧ c ≠ '#'

theorem isBlank_eq_false_of_isWordChar {c : Char} (h : isWordChar c = true) :
    isBlank c = false ∧ c ≠ '#' ∧ c ≠ '"' := by
  simp only [isWordChar, Bool.not_eq_true', Bool.or_eq_false_iff, decide_eq_false_iff_not] at h
  exact ⟨h.1.1, h.2, h.1.2⟩

theorem IsToken.startsToken (h : IsToken before t after) (rest : List Char) :
    StartsToken (t ++ rest) := by
  rcases h with h | h
  · match t, h with
    | c :: t, h =>
      intro d hd
      cases hd
      have hclass := isBlank_eq_false_of_isWordChar (h.chars c List.mem_cons_self)
      exact ⟨hclass.1, hclass.2.1⟩
    | [], h => exact absurd rfl h.nonempty
  · intro d hd
    cases h <;> (cases hd; decide)

theorem Cut.startsToken {pairs : List (List Char × List Char)} (h : Cut before pairs) :
    StartsToken (joined pairs) := by
  match pairs, h with
  | [], _ =>
    intro c hc
    cases hc
  | (t, g) :: pairs, ⟨htoken, _, _⟩ =>
    rw [joined, List.append_assoc]
    exact htoken.startsToken _

/-- A gap ends where the next token begins. -/
theorem IsGap.append_inj {after' : List Char} (h : IsGap g after) (h' : IsGap g' after')
    (hleft : StartsToken after) (hright : StartsToken after') (heq : g ++ after = g' ++ after') :
    g = g' ∧ after = after' := by
  induction h generalizing g' with
  | nil after =>
    cases h' with
    | nil after' => exact ⟨rfl, heq⟩
    | @blank c g' after' hc h' =>
      have hclass := (hleft c (by rw [show after = _ from heq]; rfl)).1
      rw [hc] at hclass
      cases hclass
    | @comment body g' after' hbody hend h' =>
      exact absurd rfl (hleft '#' (by rw [show after = _ from heq]; rfl)).2
  | @blank c g after hc h ih =>
    cases h' with
    | nil after' =>
      have hclass := (hright c (by rw [← show c :: (g ++ after) = after' from heq]; rfl)).1
      rw [hc] at hclass
      cases hclass
    | @blank c' g' after' hc' h' =>
      obtain ⟨rfl, hrest⟩ := List.cons.inj heq
      obtain ⟨rfl, hafter⟩ := ih h' hleft hrest
      exact ⟨rfl, hafter⟩
    | @comment body g' after' hbody hend h' =>
      obtain ⟨rfl, -⟩ := List.cons.inj heq
      cases hc
  | @comment body g after hbody hend h ih =>
    cases h' with
    | nil after' =>
      exact absurd rfl
        (hright '#' (by rw [← show '#' :: (body ++ g ++ after) = after' from heq]; rfl)).2
    | @blank c' g' after' hc' h' =>
      obtain ⟨rfl, -⟩ := List.cons.inj heq
      cases hc'
    | @comment body' g' after' hbody' hend' h' =>
      have hrest : body ++ (g ++ after) = body' ++ (g' ++ after') := by
        simpa using heq
      -- Both comments go up to the next line feed.
      have hbodies : body = body' := by
        rw [← takeWhile_append_of_stops (inComment_of_not_mem hbody) hend.stops_comment, hrest,
          takeWhile_append_of_stops (inComment_of_not_mem hbody') hend'.stops_comment]
      subst hbodies
      obtain ⟨rfl, hafter⟩ := ih h' hleft (List.append_cancel_left hrest)
      exact ⟨rfl, hafter⟩

theorem Cut.unique {before' : List Char} {pairs pairs' : List (List Char × List Char)}
    (h : Cut before pairs) (h' : Cut before' pairs') (heq : joined pairs = joined pairs') :
    pairs = pairs' := by
  induction pairs generalizing before before' pairs' with
  | nil =>
    have htokens := h'.scan_joined
    rw [← heq] at htokens
    match pairs', htokens with
    | [], _ => rfl
    | pair :: pairs', htokens => simp [joined] at htokens
  | cons pair pairs ih =>
    obtain ⟨t, g⟩ := pair
    match pairs', h', heq with
    | [], h', heq =>
      have htokens := h.scan_joined
      rw [heq] at htokens
      simp [joined] at htokens
    | (t', g') :: pairs', ⟨htoken', hgap', hcut'⟩, heq =>
      obtain ⟨htoken, hgap, hcut⟩ := h
      rw [joined, joined, List.append_assoc, List.append_assoc] at heq
      have htokens : t :: scan (g ++ joined pairs) = t' :: scan (g' ++ joined pairs') := by
        rw [← htoken.scan_append, ← htoken'.scan_append, heq]
      obtain ⟨rfl, -⟩ := List.cons.inj htokens
      obtain ⟨rfl, hrest⟩ := hgap.append_inj hgap' hcut.startsToken hcut'.startsToken
        (List.append_cancel_left heq)
      rw [ih hcut hcut' hrest]

theorem Division.Divides.unique {d d' : Division} (h : d.Divides cs) (h' : d'.Divides cs) :
    d = d' := by
  obtain ⟨hfirst, hrest⟩ := h.gap.append_inj h'.gap h.cut.startsToken h'.cut.startsToken
    (h.whole.trans h'.whole.symm)
  have hpairs := h.cut.unique h'.cut hrest
  cases d
  cases d'
  simp only at hfirst hpairs
  rw [hfirst, hpairs]

/-! ### Hashes and quotes -/

/-- A quote in a gap stands in a comment. -/
theorem IsGap.exists_hash (h : IsGap g after) {u v : List Char} (heq : g = u ++ '"' :: v) :
    ∃ w x, u = w ++ '#' :: x ∧ '\n' ∉ x := by
  induction h generalizing u with
  | nil after => simp at heq
  | @blank c g after hc h ih =>
    match u, heq with
    | [], heq =>
      obtain ⟨rfl, -⟩ := List.cons.inj heq
      cases hc
    | _ :: u, heq =>
      obtain ⟨rfl, hg⟩ := List.cons.inj heq
      obtain ⟨w, x, rfl, hx⟩ := ih hg
      exact ⟨c :: w, x, rfl, hx⟩
  | @comment body g after hbody hend h ih =>
    match u, heq with
    | [], heq => simp at heq
    | _ :: u, heq =>
      obtain ⟨rfl, hrest⟩ := List.cons.inj heq
      rcases List.append_eq_append_iff.mp hrest with ⟨between, rfl, hg⟩ | ⟨between, rfl, -⟩
      · obtain ⟨w, x, rfl, hx⟩ := ih hg
        exact ⟨'#' :: (body ++ w), x, by simp, hx⟩
      · exact ⟨[], u, rfl, fun hmem => hbody (List.mem_append_left between hmem)⟩

theorem IsToken.quote_of_hash (h : IsToken before t after) (hhash : '#' ∈ t) :
    t.head? = some '"' := by
  rcases h with h | h
  · cases h.chars '#' hhash
  · cases h <;> rfl

/-- Each token and each gap of a text that is cut stands somewhere. -/
theorem Cut.of_mem {pairs : List (List Char × List Char)} (h : Cut before pairs)
    (hmem : (t, g) ∈ pairs) :
    (∃ before after, IsToken before t after) ∧ ∃ after, IsGap g after := by
  induction pairs generalizing before with
  | nil => cases hmem
  | cons pair pairs ih =>
    obtain ⟨htoken, hgap, hcut⟩ := h
    rcases List.mem_cons.mp hmem with rfl | hmem
    · exact ⟨⟨_, _, htoken⟩, _, hgap⟩
    · exact ih hcut hmem

end LineScript.Token
