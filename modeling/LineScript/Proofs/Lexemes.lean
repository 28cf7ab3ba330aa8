/-
The lexemes of a line.

Four rules say what a line is made of: blanks, comments, strings and words. `Munched` applies the
rule that matches most, over and over.

* `exists_longest`: wherever text is left, a rule matches;
* `Longest.isGap` and `Longest.isToken`: what the longest match of a rule leaves cannot belong to
  the same piece, so the match is a gap or a token where it stands;
* `exists_divides`: lexemes put together make a division with the same tokens.

`ofLine_divides_uniquely` puts them together with what is known of divisions.
-/
import LineScript.Proofs.Divisions
import Mathlib.Data.List.TakeWhile
import Mathlib.Logic.ExistsUnique

namespace LineScript.Token

variable {p : Char → Bool} {before after body rest g g' cs : List Char}

/-! ### The four rules -/

/-- What a piece of a line can be. -/
inductive Rule
  | blanks
  | comment
  | string
  | word

namespace Rule

/-- What the rule matches is a token; what the other ones match is skipped. -/
def isToken : Rule → Bool
  | blanks | comment => false
  | string | word => true

/-- The texts that a rule matches. -/
inductive Matches : Rule → List Char → Prop
  | blanks {cs : List Char} (hne : cs ≠ []) (h : ∀ c ∈ cs, isBlank c = true) : Matches blanks cs
  | comment {body : List Char} (h : '\n' ∉ body) : Matches comment ('#' :: body)
  | closed {body : List Char} (h : ∀ c ∈ body, c ≠ '"' ∧ c ≠ '\n') :
    Matches string ('"' :: (body ++ ['"']))
  | opened {body : List Char} (h : ∀ c ∈ body, c ≠ '"' ∧ c ≠ '\n') : Matches string ('"' :: body)
  | word {cs : List Char} (hne : cs ≠ []) (h : ∀ c ∈ cs, isWordChar c = true) : Matches word cs

/-- The one rule for texts that begin with the character. -/
def ofChar (c : Char) : Rule :=
  if isBlank c then blanks else if c = '#' then comment else if c = '"' then string else word

variable {rule : Rule} {c : Char} {cs : List Char}

theorem Matches.exists_cons (h : rule.Matches cs) : ∃ c tail, cs = c :: tail := by
  cases h with
  | blanks hne _ => exact List.exists_cons_of_ne_nil hne
  | comment _ => exact ⟨_, _, rfl⟩
  | closed _ => exact ⟨_, _, rfl⟩
  | opened _ => exact ⟨_, _, rfl⟩
  | word hne _ => exact List.exists_cons_of_ne_nil hne

/-- The first character tells which rule it is. -/
theorem Matches.eq_ofChar (h : rule.Matches (c :: cs)) : rule = ofChar c := by
  cases h with
  | blanks _ h => simp [ofChar, h c List.mem_cons_self]
  | comment _ => rfl
  | closed _ => rfl
  | opened _ => rfl
  | word _ h =>
    have hclass := isBlank_eq_false_of_isWordChar (h c List.mem_cons_self)
    simp [ofChar, hclass]

end Rule

/-- The rule matches a piece at the beginning of the text, and no rule matches a longer one. -/
structure Longest (cs : List Char) (rule : Rule) (lexeme : List Char) : Prop where
  begins : lexeme <+: cs
  fits : rule.Matches lexeme
  longest : ∀ (rule' : Rule) (lexeme' : List Char), lexeme' <+: cs → rule'.Matches lexeme' →
    lexeme'.length ≤ lexeme.length

/-- The lexemes of a text, each the longest that a rule matches where the one before ends. -/
inductive Munched : List Char → List (Rule × List Char) → Prop
  | done : Munched [] []
  | next {cs lexeme rest : List Char} {rule : Rule} {lexemes : List (Rule × List Char)}
    (heq : cs = lexeme ++ rest) (longest : Longest cs rule lexeme) (h : Munched rest lexemes) :
    Munched cs ((rule, lexeme) :: lexemes)

/-- The lexemes that are tokens. -/
def tokensOf (lexemes : List (Rule × List Char)) : List (List Char) :=
  (lexemes.filter fun l => l.1.isToken).map Prod.snd

variable {rule rule' : Rule} {lexeme lexeme' : List Char}
  {lexemes lexemes' : List (Rule × List Char)}

/-! ### The longest match -/

theorem takeClosing_fst (cs : List Char) :
    (takeClosing cs).1 = [] ∨ (takeClosing cs).1 = ['"'] := by
  rw [takeClosing.eq_def]
  split
  · exact .inl rfl
  · split
    · exact .inr rfl
    · exact .inl rfl

theorem length_le_takeWhile (hbegins : lexeme <+: cs) (h : ∀ c ∈ lexeme, p c = true) :
    lexeme.length ≤ (cs.takeWhile p).length := by
  obtain ⟨rest, rfl⟩ := hbegins
  rw [List.takeWhile_append_of_pos h, List.length_append]
  exact Nat.le_add_right _ _

/-- To be the longest match, a piece has to be compared with those of its own rule only. -/
theorem longest_of_ofChar {c : Char} (hbegins : lexeme <+: c :: cs)
    (hfits : (Rule.ofChar c).Matches lexeme)
    (hlongest : ∀ tail, tail <+: cs → (Rule.ofChar c).Matches (c :: tail) →
      tail.length < lexeme.length) :
    Longest (c :: cs) (Rule.ofChar c) lexeme := by
  refine ⟨hbegins, hfits, ?_⟩
  intro rule' lexeme' hbegins' hfits'
  obtain ⟨d, tail, rfl⟩ := hfits'.exists_cons
  obtain ⟨rfl, htail⟩ := List.cons_prefix_cons.mp hbegins'
  rw [hfits'.eq_ofChar] at hfits'
  exact hlongest tail htail hfits'

/-- A run of characters of one class is the longest match if the rule of its first character
matches runs of this class only. -/
theorem longest_run {c : Char} (hc : p c = true)
    (hfits : ∀ run, run ≠ [] → (∀ d ∈ run, p d = true) → (Rule.ofChar c).Matches run)
    (hruns : ∀ run, (Rule.ofChar c).Matches run → ∀ d ∈ run, p d = true) :
    Longest (c :: cs) (Rule.ofChar c) ((c :: cs).takeWhile p) := by
  have hrun : (c :: cs).takeWhile p = c :: cs.takeWhile p := by simp [hc]
  refine longest_of_ofChar ( List.takeWhile_prefix p) (hfits _ (by simp [hrun]) ?_) ?_
  · intro d hd
    exact List.mem_takeWhile_imp hd
  · intro tail htail hmatches
    have hle := length_le_takeWhile htail fun d hd => hruns _ hmatches d (List.mem_cons_of_mem c hd)
    rw [hrun, List.length_cons]
    omega

theorem longest_comment (cs : List Char) :
    Longest ('#' :: cs) .comment ('#' :: cs.takeWhile inComment) := by
  refine longest_of_ofChar (c := '#') ?_ (.comment ?_) ?_
  · exact List.cons_prefix_cons.mpr ⟨rfl, List.takeWhile_prefix inComment⟩
  · intro hmem
    have := List.mem_takeWhile_imp hmem
    simp [inComment] at this
  · intro tail htail hmatches
    cases hmatches with
    | comment hbody =>
      have hle := length_le_takeWhile htail (inComment_of_not_mem hbody)
      rw [List.length_cons]
      omega

theorem ne_of_inString {c : Char} (h : inString c = true) : c ≠ '"' ∧ c ≠ '\n' := by
  simpa [inString] using h

/-- The string that begins with a quote goes on to the next quote or to the end of the line. -/
theorem longest_string (cs : List Char) :
    Longest ('"' :: cs) .string
      ('"' :: (cs.takeWhile inString ++ (takeClosing (cs.dropWhile inString)).1)) := by
  have hbody : ∀ c ∈ cs.takeWhile inString, c ≠ '"' ∧ c ≠ '\n' := fun c hc =>
    ne_of_inString (List.mem_takeWhile_imp hc)
  refine longest_of_ofChar (c := '"') ?_ ?_ ?_
  · refine List.cons_prefix_cons.mpr ⟨rfl, (takeClosing (cs.dropWhile inString)).2, ?_⟩
    rw [List.append_assoc, takeClosing_append, List.takeWhile_append_dropWhile]
  · rcases takeClosing_fst (cs.dropWhile inString) with hclose | hclose
    · rw [hclose, List.append_nil]
      exact .opened hbody
    · rw [hclose]
      exact .closed hbody
  · intro tail htail hmatches
    cases hmatches with
    | opened hchars =>
      have hle := length_le_takeWhile htail (inString_of_ne hchars)
      simp only [List.length_cons, List.length_append]
      omega
    | @closed body hchars =>
      -- A closing quote is the first quote there is, and the search finds it too.
      obtain ⟨rest, rfl⟩ := htail
      have hquote : Stops inString ('"' :: rest) := by
        intro c hc
        cases hc
        rfl
      rw [List.append_assoc, List.singleton_append,
        takeWhile_append_of_stops (inString_of_ne hchars) hquote,
        dropWhile_append_of_stops (inString_of_ne hchars) hquote]
      simp [takeClosing]

/-- Wherever text is left, one of the rules matches. -/
theorem exists_longest (hne : cs ≠ []) : ∃ rule lexeme, Longest cs rule lexeme := by
  obtain ⟨c, cs, rfl⟩ := List.exists_cons_of_ne_nil hne
  by_cases hblank : isBlank c = true
  · have hrule : Rule.ofChar c = .blanks := by simp [Rule.ofChar, hblank]
    refine ⟨_, _, longest_run hblank ?_ ?_⟩
    · intro run hrun h
      rw [hrule]
      exact .blanks hrun h
    · intro run h
      rw [hrule] at h
      cases h with
      | blanks _ h => exact h
  by_cases hcomment : c = '#'
  · subst hcomment
    exact ⟨_, _, longest_comment cs⟩
  by_cases hstring : c = '"'
  · subst hstring
    exact ⟨_, _, longest_string cs⟩
  · have hrule : Rule.ofChar c = .word := by simp [Rule.ofChar, hblank, hcomment, hstring]
    have hword : isWordChar c = true := by simp [isWordChar, hblank, hcomment, hstring]
    refine ⟨_, _, longest_run hword ?_ ?_⟩
    · intro run hrun h
      rw [hrule]
      exact .word hrun h
    · intro run h
      rw [hrule] at h
      cases h with
      | word _ h => exact h

theorem Longest.unique (h : Longest cs rule lexeme) (h' : Longest cs rule' lexeme') :
    rule = rule' ∧ lexeme = lexeme' := by
  have hle : lexeme.length ≤ lexeme'.length := h'.longest rule lexeme h.begins h.fits
  have hge : lexeme'.length ≤ lexeme.length := h.longest rule' lexeme' h'.begins h'.fits
  have hlexeme : lexeme = lexeme' :=
    (List.prefix_of_prefix_length_le h.begins h'.begins hle).eq_of_length_le hge
  subst hlexeme
  obtain ⟨c, tail, rfl⟩ := h.fits.exists_cons
  exact ⟨h.fits.eq_ofChar.trans h'.fits.eq_ofChar.symm, rfl⟩

/-- One more character behind the longest match does not make a match. -/
theorem Longest.not_matches {c : Char} (h : Longest (lexeme ++ c :: rest) rule lexeme) :
    ¬rule.Matches (lexeme ++ [c]) := by
  intro hmatches
  have hle := h.longest rule (lexeme ++ [c]) ⟨rest, by simp⟩ hmatches
  rw [List.length_append, List.length_singleton] at hle
  omega

/-! ### Lexemes make a division -/

theorem isGap_of_isBlank (h : ∀ c ∈ g, isBlank c = true) (after : List Char) : IsGap g after := by
  induction g with
  | nil => exact .nil after
  | cons c g ih =>
    exact .blank (h c List.mem_cons_self) (ih fun d hd => h d (List.mem_cons_of_mem c hd))

theorem IsGap.append (h : IsGap g (g' ++ after)) (h' : IsGap g' after) : IsGap (g ++ g') after := by
  generalize hrest : g' ++ after = rest at h
  induction h with
  | nil rest => exact h'
  | blank hc h ih => exact .blank hc (ih hrest)
  | comment hbody hend h ih =>
    subst hrest
    rw [List.cons_append, List.append_assoc]
    exact .comment hbody (by simpa using hend) (ih rfl)

theorem Longest.endsLine_of_comment (h : Longest ('#' :: body ++ rest) .comment ('#' :: body))
    (hbody : '\n' ∉ body) : EndsLine rest := by
  intro c hc
  obtain ⟨rest, rfl⟩ := List.head?_eq_some_iff.mp hc
  by_contra hne
  refine h.not_matches (.comment ?_)
  simp [hbody, Ne.symm hne]

theorem Longest.endsLine_of_string (h : Longest ('"' :: body ++ rest) .string ('"' :: body))
    (hbody : ∀ c ∈ body, c ≠ '"' ∧ c ≠ '\n') : EndsLine rest := by
  intro c hc
  obtain ⟨rest, rfl⟩ := List.head?_eq_some_iff.mp hc
  by_contra hne
  by_cases hquote : c = '"'
  · subst hquote
    exact h.not_matches (.closed hbody)
  · refine h.not_matches (.opened ?_)
    intro d hd
    rcases List.mem_append.mp hd with hd | hd
    · exact hbody d hd
    · rw [List.mem_singleton.mp hd]
      exact ⟨hquote, hne⟩

theorem Longest.stops_of_word (h : Longest (lexeme ++ rest) .word lexeme)
    (hchars : ∀ c ∈ lexeme, isWordChar c = true) : Stops isWordChar rest := by
  intro c hc
  obtain ⟨rest, rfl⟩ := List.head?_eq_some_iff.mp hc
  by_contra hword
  refine h.not_matches (.word (by simp) ?_)
  intro d hd
  rcases List.mem_append.mp hd with hd | hd
  · exact hchars d hd
  · rw [List.mem_singleton.mp hd]
    simpa using hword

theorem Longest.isGap (h : Longest (lexeme ++ rest) rule lexeme) (hskip : rule.isToken = false) :
    IsGap lexeme rest := by
  have hfits := h.fits
  cases hfits with
  | blanks _ hblank => exact isGap_of_isBlank hblank rest
  | @comment body hbody =>
    rw [← List.append_nil body]
    exact .comment hbody (h.endsLine_of_comment hbody) (.nil rest)
  | closed _ => cases hskip
  | opened _ => cases hskip
  | word _ _ => cases hskip

/-- The two texts do not meet inside a word. -/
def Apart (before after : List Char) : Prop :=
  ∀ c ∈ after.head?, isWordChar c = true → ∀ d ∈ before.getLast?, isWordChar d = false

theorem Longest.isToken (h : Longest (lexeme ++ rest) rule lexeme) (htoken : rule.isToken = true)
    (hapart : Apart before (lexeme ++ rest)) : IsToken before lexeme rest := by
  have hfits := h.fits
  cases hfits with
  | blanks _ _ => cases htoken
  | comment _ => cases htoken
  | closed hbody => exact .inr (.closed hbody)
  | opened hbody => exact .inr (.opened hbody (h.endsLine_of_string hbody))
  | word hne hchars =>
    obtain ⟨c, tail, rfl⟩ := List.exists_cons_of_ne_nil hne
    exact .inl ⟨hne, hchars, h.stops_of_word hchars, hapart c rfl (hchars c List.mem_cons_self)⟩

theorem isWordChar_eq_false_of_isBlank {c : Char} (h : isBlank c = true) :
    isWordChar c = false := by
  simp [isWordChar, h]

theorem EndsLine.apart (h : EndsLine rest) (before : List Char) : Apart before rest := by
  intro c hc hword
  rw [h c hc] at hword
  cases hword

/-- A lexeme and what comes behind it do not meet inside a word. -/
theorem Longest.apart (h : Longest (lexeme ++ rest) rule lexeme) (before : List Char) :
    Apart (before ++ lexeme) rest := by
  have hfits := h.fits
  cases hfits with
  | blanks hne hblank =>
    intro c _ _ d hd
    rw [List.getLast?_append_of_ne_nil before hne] at hd
    exact isWordChar_eq_false_of_isBlank (hblank d (List.mem_of_getLast? hd))
  | comment hbody => exact (h.endsLine_of_comment hbody).apart _
  | @closed body _ =>
    intro c _ _ d hd
    rw [← List.cons_append, ← List.append_assoc, List.getLast?_append_of_ne_nil _ (by simp)] at hd
    cases hd
    rfl
  | opened hbody => exact (h.endsLine_of_string hbody).apart _
  | word _ hchars =>
    intro c hc hword
    rw [h.stops_of_word hchars c hc] at hword
    cases hword

/-- Lexemes put together make a division with the same tokens. -/
theorem exists_divides (h : Munched cs lexemes) (before : List Char) (hapart : Apart before cs) :
    ∃ first pairs, first ++ joined pairs = cs ∧ IsGap first (joined pairs) ∧
      Cut (before ++ first) pairs ∧ pairs.map Prod.fst = tokensOf lexemes := by
  induction h generalizing before with
  | done => exact ⟨[], [], rfl, .nil _, trivial, rfl⟩
  | @next cs lexeme rest rule lexemes heq longest h ih =>
    subst heq
    obtain ⟨first, pairs, rfl, hgap, hcut, htokens⟩ := ih _ (longest.apart before)
    cases htoken : rule.isToken with
    | false =>
      refine ⟨lexeme ++ first, pairs, by simp, (longest.isGap htoken).append hgap, ?_, ?_⟩
      · rw [← List.append_assoc]
        exact hcut
      · simpa [tokensOf, htoken] using htokens
    | true =>
      refine ⟨[], (lexeme, first) :: pairs, by simp [joined], .nil _, ?_, ?_⟩
      · rw [List.append_nil]
        exact ⟨longest.isToken htoken hapart, hgap, hcut⟩
      · simpa [tokensOf, htoken] using htokens

theorem exists_munched (cs : List Char) : ∃ lexemes, Munched cs lexemes := by
  induction hlength : cs.length using Nat.strongRecOn generalizing cs with
  | ind n ih =>
    by_cases hne : cs = []
    · subst hne
      exact ⟨[], .done⟩
    · obtain ⟨rule, lexeme, longest⟩ := exists_longest hne
      obtain ⟨rest, hrest⟩ := longest.begins
      -- A lexeme is not empty, so it leaves a shorter text.
      obtain ⟨c, tail, rfl⟩ := longest.fits.exists_cons
      have hshorter : rest.length < n := by
        rw [← hlength, ← hrest, List.length_append, List.length_cons]
        omega
      obtain ⟨lexemes, h⟩ := ih _ hshorter rest rfl
      exact ⟨_, .next hrest.symm longest h⟩

theorem Munched.unique (h : Munched cs lexemes) (h' : Munched cs lexemes') :
    lexemes = lexemes' := by
  induction h generalizing lexemes' with
  | done =>
    cases h' with
    | done => rfl
    | next heq longest h' =>
      obtain ⟨c, tail, rfl⟩ := longest.fits.exists_cons
      cases heq
  | next heq longest h ih =>
    cases h' with
    | done =>
      obtain ⟨c, tail, rfl⟩ := longest.fits.exists_cons
      cases heq
    | next heq' longest' h' =>
      obtain ⟨rfl, rfl⟩ := longest.unique longest'
      rw [heq] at heq'
      rw [ih (List.append_cancel_left heq' ▸ h')]

/-! ### The whole line -/

/-- A line has one division into tokens and gaps, one division into the longest lexemes that the
rules match, and both have the tokens that are found for the line. Nowhere does a line go on
with text that no rule matches. A `#` in a token stands in a string, and a quote in a gap stands
in a comment. -/
theorem ofLine_divides_uniquely (line : String) :
    (∃! d : Division, d.Divides line.toList) ∧
    (∃! lexemes, Munched line.toList lexemes) ∧
    (∀ cs, cs ≠ [] → ∃ rule lexeme, Longest cs rule lexeme) ∧
    (∀ lexemes, Munched line.toList lexemes →
      (tokensOf lexemes).map String.ofList = ofLine line) ∧
    ∀ d : Division, d.Divides line.toList →
      d.tokens.map String.ofList = ofLine line ∧
      (∀ t ∈ d.tokens, '#' ∈ t → t.head? = some '"') ∧
      ∀ g ∈ d.gaps, ∀ u v, g = u ++ '"' :: v → ∃ w x, u = w ++ '#' :: x ∧ '\n' ∉ x := by
  obtain ⟨lexemes, hmunched⟩ := exists_munched line.toList
  obtain ⟨first, pairs, hwhole, hgap, hcut, htokens⟩ :=
    exists_divides hmunched [] (by simp [Apart])
  have hdivides : Division.Divides ⟨first, pairs⟩ line.toList := ⟨hwhole, hgap, hcut⟩
  have hline : ∀ d : Division, d.Divides line.toList →
      d.tokens.map String.ofList = ofLine line := by
    intro d hd
    rw [ofLine, hd.scan_eq]
  refine ⟨⟨_, hdivides, fun d hd => hd.unique hdivides⟩,
    ⟨lexemes, hmunched, fun _ h => h.unique hmunched⟩, fun cs => exists_longest, ?_, ?_⟩
  · intro lexemes' hmunched'
    rw [hmunched'.unique hmunched, ← htokens]
    exact hline _ hdivides
  · intro d hd
    refine ⟨hline d hd, ?_, ?_⟩
    · intro t ht hhash
      obtain ⟨⟨t, g⟩, hmem, rfl⟩ := List.mem_map.mp ht
      obtain ⟨⟨before, after, htoken⟩, -⟩ := hd.cut.of_mem hmem
      exact htoken.quote_of_hash hhash
    · intro g hg u v hquote
      rcases List.mem_cons.mp hg with rfl | hg
      · exact hd.gap.exists_hash hquote
      · obtain ⟨⟨t, g⟩, hmem, rfl⟩ := List.mem_map.mp hg
        obtain ⟨-, after, hgap⟩ := hd.cut.of_mem hmem
        exact hgap.exists_hash hquote

/-- The division of a line in which words and strings follow each other without a blank, and
which goes on behind a line feed with a string that is not closed. -/
def tightDivision : Division where
  first := [' ']
  pairs := [("say".toList, []), ('"' :: ("a # b".toList ++ ['"']), []),
    ("c".toList, '#' :: (" \"d\"".toList ++ ['\n'])), ('"' :: "open # e".toList, [])]

/-- It is the division of this line, so the line has these four tokens. -/
theorem ofLine_divides_uniquely_tightDivision :
    tightDivision.Divides " say\"a # b\"c# \"d\"\n\"open # e".toList ∧
    ofLine " say\"a # b\"c# \"d\"\n\"open # e" = ["say", "\"a # b\"", "c", "\"open # e"] := by
  have hdivides : tightDivision.Divides " say\"a # b\"c# \"d\"\n\"open # e".toList := by
    refine ⟨by decide, .blank rfl (.nil _), ?_, .nil _, ?_, .nil _, ?_, ?_, ?_, .nil _, trivial⟩
    · refine .inl ⟨by decide, List.all_eq_true.mp (by decide), ?_, ?_⟩ <;> rintro c ⟨⟩ <;> rfl
    · exact .inr (.closed (by simp))
    · refine .inl ⟨by decide, List.all_eq_true.mp (by decide), ?_, ?_⟩ <;> rintro c ⟨⟩ <;> rfl
    · exact .comment (by decide) (by simp [EndsLine]) (.blank rfl (.nil _))
    · exact .inr (.opened (by simp) (by simp [EndsLine, joined]))
  obtain ⟨-, -, -, -, hall⟩ := ofLine_divides_uniquely " say\"a # b\"c# \"d\"\n\"open # e"
  refine ⟨hdivides, ?_⟩
  rw [← (hall tightDivision hdivides).1]
  decide

end LineScript.Token
