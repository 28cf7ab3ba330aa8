/-
Tokens one space apart.

When the tokens of a line are written again with single spaces between them, nothing else is left
of the line: no other blanks, no comments. The new line has the same tokens, since a token can do
without what stood around it, with one exception. A string that is not closed takes all that
follows, so it has to be the last token of its line; and that is what it was.

* `Cut.row`: the tokens of a line without line feeds make a `Row`, in which only the last token
  can be an open string;
* `Row.cut`: the tokens of a row, one space apart, are tokens where they stand.

`respaced_tokens` puts them together.
-/
import LineScript.Proofs.Lexemes

namespace LineScript.Token

variable {before after t : List Char} {ts : List (List Char)}
  {pairs : List (List Char × List Char)}

/-! ### Rows of tokens -/

/-- A token that ends by itself: a word, or a string with both its quotes. -/
inductive Complete : List Char → Prop
  | word {t : List Char} (hne : t ≠ []) (hchars : ∀ c ∈ t, isWordChar c = true) : Complete t
  | closed {body : List Char} (hbody : ∀ c ∈ body, c ≠ '"' ∧ c ≠ '\n') :
    Complete ('"' :: (body ++ ['"']))

/-- Tokens that can follow each other in one line. A string that is not closed can only be the
last one. -/
inductive Row : List (List Char) → Prop
  | nil : Row []
  | opened {body : List Char} (hbody : ∀ c ∈ body, c ≠ '"' ∧ c ≠ '\n') : Row ['"' :: body]
  | cons {t : List Char} {ts : List (List Char)} (ht : Complete t) (hrow : Row ts) : Row (t :: ts)

theorem EndsLine.eq_nil (h : EndsLine after) (hline : '\n' ∉ after) : after = [] := by
  match after, h, hline with
  | [], _, _ => rfl
  | c :: after, h, hline =>
    have hc : c = '\n' := h c rfl
    exact absurd (hc ▸ List.mem_cons_self) hline

theorem Cut.eq_nil (h : Cut before pairs) (hjoined : joined pairs = []) : pairs = [] := by
  have htokens := h.scan_joined
  rw [hjoined, scan_nil] at htokens
  exact List.map_eq_nil_iff.mp htokens.symm

/-- Where there are no line feeds, nothing comes behind a string that is not closed. -/
theorem Cut.row (h : Cut before pairs) (hline : '\n' ∉ joined pairs) :
    Row (pairs.map Prod.fst) := by
  induction pairs generalizing before with
  | nil => exact .nil
  | cons pair pairs ih =>
    obtain ⟨t, g⟩ := pair
    obtain ⟨htoken, -, hcut⟩ := h
    rw [joined, List.append_assoc, List.mem_append, not_or] at hline
    obtain ⟨-, hbehind⟩ := hline
    have hrow : Row (pairs.map Prod.fst) :=
      ih hcut fun hmem => hbehind (List.mem_append_right g hmem)
    rcases htoken with hword | hstring
    · exact .cons (.word hword.nonempty hword.chars) hrow
    · cases hstring with
      | closed hbody => exact .cons (.closed hbody) hrow
      | opened hbody hend =>
        have hnil := List.append_eq_nil_iff.mp (hend.eq_nil hbehind)
        rw [hcut.eq_nil hnil.2]
        exact .opened hbody

/-! ### Single spaces -/

/-- The tokens, each but the last one with a space behind it. -/
def spaced : List (List Char) → List (List Char × List Char)
  | [] => []
  | [t] => [(t, [])]
  | t :: u :: ts => (t, [' ']) :: spaced (u :: ts)

theorem map_fst_spaced (ts : List (List Char)) : (spaced ts).map Prod.fst = ts := by
  fun_induction spaced ts with
  | case1 => rfl
  | case2 t => rfl
  | case3 t u ts ih => rw [List.map_cons, ih]

theorem joined_spaced (ts : List (List Char)) : joined (spaced ts) = [' '].intercalate ts := by
  fun_induction spaced ts with
  | case1 => rfl
  | case2 t => simp [joined]
  | case3 t u ts ih => rw [joined, ih, List.intercalate_cons_cons]

/-- A token that ends by itself is a token wherever no word goes on into it or out of it. -/
theorem Complete.isToken (h : Complete t) (hleft : ∀ c ∈ before.getLast?, isWordChar c = false)
    (hright : Stops isWordChar after) : IsToken before t after := by
  cases h with
  | word hne hchars => exact .inl ⟨hne, hchars, hright, hleft⟩
  | closed hbody => exact .inr (.closed hbody)

/-- With single spaces between them, the tokens of a row are tokens where they stand. -/
theorem Row.cut (h : Row ts) (hleft : ∀ c ∈ before.getLast?, isWordChar c = false) :
    Cut before (spaced ts) := by
  induction h generalizing before with
  | nil => trivial
  | opened hbody =>
    -- The string goes on to the end of the line, and there it ends anyway.
    have hend : EndsLine [] := by
      intro c hc
      cases hc
    exact ⟨.inr (.opened hbody hend), .nil _, trivial⟩
  | @cons t ts ht hrow ih =>
    cases ts with
    | nil =>
      have hstops : Stops isWordChar [] := by
        intro c hc
        cases hc
      exact ⟨ht.isToken hleft hstops, .nil _, trivial⟩
    | cons u ts =>
      have hstops : Stops isWordChar ([' '] ++ joined (spaced (u :: ts))) := by
        intro c hc
        cases hc
        rfl
      refine ⟨ht.isToken hleft hstops, .blank rfl (.nil _), ih ?_⟩
      intro c hc
      rw [List.getLast?_concat] at hc
      cases hc
      rfl

/-! ### Lines written again -/

theorem toList_join_ofLine (line : String) :
    (" ".intercalate (ofLine line)).toList = [' '].intercalate (scan line.toList) := by
  have hmap : (ofLine line).map String.toList = scan line.toList := by
    simp [ofLine, Function.comp_def]
  rw [String.toList_intercalate, hmap]
  rfl

/-- A line without line feeds that is written again, with its tokens one space apart, has the same
tokens. They are those of the line, however it is divided, and in the new line there is nothing
besides them and the single spaces. -/
theorem respaced_tokens (line : String) (hline : '\n' ∉ line.toList) :
    ofLine (" ".intercalate (ofLine line)) = ofLine line ∧
    ∀ d : Division, d.Divides line.toList →
      Division.Divides ⟨[], spaced d.tokens⟩ (" ".intercalate (ofLine line)).toList := by
  have hdivides : ∀ d : Division, d.Divides line.toList →
      Division.Divides ⟨[], spaced d.tokens⟩ (" ".intercalate (ofLine line)).toList := by
    intro d hd
    have hjoined : '\n' ∉ joined d.pairs := by
      rw [← hd.whole] at hline
      exact fun hmem => hline (List.mem_append_right d.first hmem)
    have hrow : Row d.tokens := hd.cut.row hjoined
    refine ⟨?_, .nil _, hrow.cut (by simp)⟩
    rw [toList_join_ofLine, hd.scan_eq, List.nil_append, joined_spaced]
  -- The line has a division, so its tokens are known to be those of the new line too.
  obtain ⟨lexemes, hmunched⟩ := exists_munched line.toList
  obtain ⟨first, pairs, hwhole, hgap, hcut, -⟩ := exists_divides hmunched [] (by simp [Apart])
  have hd : Division.Divides ⟨first, pairs⟩ line.toList := ⟨hwhole, hgap, hcut⟩
  refine ⟨?_, hdivides⟩
  rw [ofLine, (hdivides _ hd).scan_eq, Division.tokens, map_fst_spaced, ← hd.scan_eq, ofLine]

/-- A line with a tab, without blanks between words and strings, with a closed string that has
blanks and a hash in it, and with an open one at its end. Another one ends with a comment. -/
theorem respaced_tokens_crowdedLines :
    '\n' ∉ "\tsay\"a # b\"c\"open  # d".toList ∧
    " ".intercalate (ofLine "\tsay\"a # b\"c\"open  # d") = "say \"a # b\" c \"open  # d" ∧
    ofLine "say \"a # b\" c \"open  # d" = ofLine "\tsay\"a # b\"c\"open  # d" ∧
    '\n' ∉ "\"\"x#\"y".toList ∧ " ".intercalate (ofLine "\"\"x#\"y") = "\"\" x" ∧
    ofLine "\"\" x" = ofLine "\"\"x#\"y" := by
  have hopen : '\n' ∉ "\tsay\"a # b\"c\"open  # d".toList := by decide
  have hcomment : '\n' ∉ "\"\"x#\"y".toList := by decide
  have hrespaced : " ".intercalate (ofLine "\tsay\"a # b\"c\"open  # d") =
      "say \"a # b\" c \"open  # d" := by decide +kernel
  have hrespaced' : " ".intercalate (ofLine "\"\"x#\"y") = "\"\" x" := by decide +kernel
  refine ⟨hopen, hrespaced, ?_, hcomment, hrespaced', ?_⟩
  · rw [← hrespaced]
    exact (respaced_tokens _ hopen).1
  · rw [← hrespaced']
    exact (respaced_tokens _ hcomment).1

end LineScript.Token
