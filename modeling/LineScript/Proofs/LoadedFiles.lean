/-
Files that are loaded into a session.

A file is executed line by line. A session that loads the file keeps its lines; to run them it puts
them together with line feeds and splits the text once more. What the second split takes off is
lost (`relined`): an empty last line, and, of each other line that ends with a carriage return, this
carriage return.

* `Text.lines_intercalate`: the lines of a text that was put together from lines;
* `Token.Mode.exists_opening`: what a text leaves open was opened by one of its characters, and
  all characters behind it go on with it;
* `Token.ofLine_withoutReturn` and `Token.ofLine_of_open`: a carriage return at the end of a line
  belongs to a token only if the line leaves a string open.

`loaded_program` says for each line of a file what a session runs in its place.
-/
import LineScript.Session
import LineScript.Proofs.LineSpans
import LineScript.Proofs.Splices

namespace LineScript

/-! ### Lines put together -/

namespace Text

variable {body : List Char} {t : String} {ts : List String}

theorem pieces_append_lineFeed (h : '\n' ∉ body) (rest : List Char) :
    pieces (body ++ '\n' :: rest) = (body ++ ['\n']) :: pieces rest := by
  induction body with
  | nil =>
    rw [List.nil_append, pieces_cons]
    cases pieces rest with
    | nil => rfl
    | cons p ps => rw [consPiece, if_pos rfl, List.nil_append]
  | cons c body ih =>
    obtain ⟨hc, hbody⟩ := List.ne_and_not_mem_of_not_mem_cons h
    rw [List.cons_append, pieces_cons, ih hbody, consPiece, if_neg hc.symm]
    rfl

theorem pieces_of_not_mem (hne : body ≠ []) (h : '\n' ∉ body) : pieces body = [body] := by
  induction body with
  | nil => exact absurd rfl hne
  | cons c body ih =>
    obtain ⟨hc, hbody⟩ := List.ne_and_not_mem_of_not_mem_cons h
    by_cases hlast : body = []
    · rw [hlast]
      rfl
    · rw [pieces_cons, ih hlast hbody, consPiece, if_neg hc.symm]

/-- The line without a carriage return at its end, if it has one there. -/
def withoutReturn (t : String) : String :=
  if t.toList.getLast? = some '\r' then String.ofList t.toList.dropLast else t

/-- A line feed at the end goes, and a carriage return before it. -/
theorem stripTerminator_concat (t : String) :
    stripTerminator (t.toList ++ ['\n']) = (withoutReturn t).toList := by
  rw [withoutReturn]
  split
  · next hlast =>
    obtain ⟨front, hfront⟩ := List.getLast?_eq_some_iff.mp hlast
    simp [hfront, stripTerminator]
  · next hlast =>
    rw [stripTerminator]
    split
    · next r heq =>
      have ht : t.toList.reverse = '\r' :: r := by simpa using heq
      rw [← List.head?_reverse, ht] at hlast
      exact absurd rfl hlast
    · next r _ heq =>
      have ht : t.toList.reverse = r := by simpa using heq
      rw [← ht, List.reverse_reverse]
    · next hother => simp at hother

/-- What becomes of lines when they are put together, with line feeds between them, and the text is
split again. -/
def relined : List String → List String
  | [] => []
  | [t] => if t = "" then [] else [t]
  | t :: u :: ts => withoutReturn t :: relined (u :: ts)

theorem lines_intercalate (h : ∀ t ∈ ts, '\n' ∉ t.toList) :
    lines ("\n".intercalate ts) = relined ts := by
  induction ts using relined.induct with
  | case1 => rfl
  | case2 => rfl
  | case3 t hne =>
    have hbody : t.toList ≠ [] := by simpa using hne
    rw [String.intercalate_singleton, lines, pieces_of_not_mem hbody (h t List.mem_cons_self),
      relined, if_neg hne]
    simp [stripTerminator_of_not_mem (h t List.mem_cons_self)]
  | case4 t u ts ih =>
    obtain ⟨ht, hts⟩ := List.forall_mem_cons.mp h
    have htext : ("\n".intercalate (t :: u :: ts)).toList =
        t.toList ++ '\n' :: ("\n".intercalate (u :: ts)).toList := by
      rw [String.intercalate_cons_cons, String.toList_append, String.toList_append,
        List.append_assoc]
      rfl
    rw [lines, htext, pieces_append_lineFeed ht, List.map_cons, stripTerminator_concat,
      String.ofList_toList, relined, ← ih hts]
    rfl

theorem mem_of_mem_withoutReturn {c : Char} (h : c ∈ (withoutReturn t).toList) :
    c ∈ t.toList := by
  rw [withoutReturn] at h
  split at h
  · rw [String.toList_ofList] at h
    exact (List.dropLast_sublist _).mem h
  · exact h

theorem not_mem_of_mem_lines {source : String} (h : t ∈ lines source) : '\n' ∉ t.toList := by
  obtain ⟨p, hp, rfl⟩ := List.mem_map.mp h
  obtain ⟨l, hl⟩ := List.mem_iff_getElem?.mp hp
  rw [String.toList_ofList]
  obtain ⟨body, hbody, rfl | ⟨rfl, -⟩⟩ := (pieced_pieces source.toList).exists_body hl
  · rw [← String.toList_ofList (l := body), stripTerminator_concat]
    intro hmem
    exact hbody (by simpa using mem_of_mem_withoutReturn hmem)
  · rw [stripTerminator_of_not_mem hbody]
    exact hbody

/-- One line may be missing at the end, and if it is, it was empty. -/
theorem length_relined (hne : ts ≠ []) :
    (relined ts).length + 1 = ts.length ∧ ts.getLast? = some "" ∨
      (relined ts).length = ts.length ∧ ts.getLast? ≠ some "" := by
  induction ts using relined.induct with
  | case1 => exact absurd rfl hne
  | case2 => exact .inl ⟨rfl, rfl⟩
  | case3 t ht =>
    rw [relined, if_neg ht]
    exact .inr ⟨rfl, by simpa using ht⟩
  | case4 t u ts ih =>
    rw [relined, List.length_cons, List.length_cons, List.getLast?_cons_cons]
    refine (ih (List.cons_ne_nil u ts)).imp ?_ ?_
    · exact fun h => ⟨by rw [h.1], h.2⟩
    · exact fun h => ⟨by rw [h.1], h.2⟩

end Text

/-! ### Carriage returns at the end of a line -/

namespace Token

variable {cs : List Char} {t : String}

theorem Mode.behind_concat (m : Mode) (cs : List Char) (c : Char) :
    m.behind (cs ++ [c]) = (m.behind cs).next c := by
  simp [Mode.behind]

/-- A string or a comment goes on, or nothing is open any more. -/
theorem Mode.next_eq {m : Mode} (h : m ≠ .plain) (c : Char) : m.next c = .plain ∨ m.next c = m := by
  cases m with
  | plain => exact absurd rfl h
  | string => grind [Mode.next]
  | comment => grind [Mode.next]

theorem Mode.opens_string_iff {c : Char} : Mode.plain.next c = .string ↔ c = '"' := by
  grind [Mode.next]

theorem Mode.opens_comment_iff {c : Char} : Mode.plain.next c = .comment ↔ c = '#' := by
  grind [Mode.next]

theorem Mode.string_goes_on_iff {c : Char} :
    Mode.string.next c = .string ↔ c ≠ '"' ∧ c ≠ '\n' := by
  grind [Mode.next]

theorem Mode.comment_goes_on_iff {c : Char} : Mode.comment.next c = .comment ↔ c ≠ '\n' := by
  grind [Mode.next]

/-- What a text leaves open was opened by a character of it, and has gone on since. -/
theorem Mode.exists_opening {m : Mode} (hm : m ≠ .plain) (h : Mode.plain.behind cs = m) :
    ∃ before c body, cs = before ++ c :: body ∧ Mode.plain.behind before = .plain ∧
      Mode.plain.next c = m ∧ ∀ d ∈ body, m.next d = m := by
  induction cs using List.reverseRecOn with
  | nil => exact absurd h.symm hm
  | append_singleton cs d ih =>
    rw [Mode.behind_concat] at h
    by_cases hplain : Mode.plain.behind cs = .plain
    · rw [hplain] at h
      exact ⟨cs, d, [], rfl, hplain, h, List.forall_mem_nil _⟩
    · -- It was open before the last character, which has not closed it.
      have hbefore : Mode.plain.behind cs = m := by
        rcases Mode.next_eq hplain d with hnext | hnext
        · exact absurd (h.symm.trans hnext) hm
        · exact hnext.symm.trans h
      rw [hbefore] at h
      obtain ⟨before, c, body, rfl, hopen, hc, hbody⟩ := ih hbefore
      refine ⟨before, c, body ++ [d], by simp, hopen, hc, ?_⟩
      intro e he
      rcases List.mem_append.mp he with he | he
      · exact hbody e he
      · rw [List.mem_singleton.mp he]
        exact h

theorem Mode.behind_concat_return (cs : List Char) :
    Mode.plain.behind (cs ++ ['\r']) = Mode.plain.behind cs := by
  rw [Mode.behind_concat]
  cases Mode.plain.behind cs <;> rfl

/-- No word goes on into a text that begins with another kind of character. -/
theorem apart_cons {c : Char} (hc : isWordChar c = false) (before rest : List Char) :
    Apart before (c :: rest) := by
  intro d hd hword
  cases hd
  rw [hc] at hword
  cases hword

/-- An open string is the last token, with all that stands behind its quote. -/
theorem scan_of_open {before body : List Char} (hbefore : Mode.plain.behind before = .plain)
    (hbody : ∀ c ∈ body, c ≠ '"' ∧ c ≠ '\n') :
    scan (before ++ '"' :: body) = scan before ++ ['"' :: body] := by
  have hend : EndsLine [] := by
    intro c hc
    cases hc
  have hstring := (IsString.opened hbody hend).scan_append
  rw [List.append_nil, scan_nil] at hstring
  rw [scan_append hbefore (apart_cons rfl _ _), hstring]

/-- A comment goes on to the end, so it has no tokens. -/
theorem scan_of_comment {before body : List Char} (hbefore : Mode.plain.behind before = .plain)
    (hbody : '\n' ∉ body) : scan (before ++ '#' :: body) = scan before := by
  have hdrop : body.dropWhile inComment = [] :=
    List.dropWhile_eq_nil_iff.mpr (inComment_of_not_mem hbody)
  rw [scan_append hbefore (apart_cons rfl _ _), scan_comment, hdrop, scan_nil, List.append_nil]

/-- A carriage return behind a line belongs to a token only if a string is open there. -/
theorem scan_concat_return (h : Mode.plain.behind cs ≠ .string) : scan (cs ++ ['\r']) = scan cs := by
  cases hmode : Mode.plain.behind cs with
  | plain =>
    rw [scan_append hmode (apart_cons rfl _ _), scan_blank rfl, scan_nil, List.append_nil]
  | string => exact absurd hmode h
  | comment =>
    obtain ⟨before, c, body, rfl, hbefore, hc, hgoes⟩ := Mode.exists_opening (by decide) hmode
    obtain rfl := Mode.opens_comment_iff.mp hc
    have hbody : '\n' ∉ body := fun hmem => Mode.comment_goes_on_iff.mp (hgoes _ hmem) rfl
    rw [List.append_assoc, List.cons_append, scan_of_comment hbefore hbody,
      scan_of_comment hbefore (by simpa using hbody)]

/-- The tokens of a line that leaves a string open, and of the same line with a carriage return
behind it. -/
theorem scan_concat_return_of_open (h : Mode.plain.behind cs = .string) :
    ∃ tokens body, scan cs = tokens ++ ['"' :: body] ∧
      scan (cs ++ ['\r']) = tokens ++ ['"' :: (body ++ ['\r'])] := by
  obtain ⟨before, c, body, rfl, hbefore, hc, hgoes⟩ := Mode.exists_opening (by decide) h
  obtain rfl := Mode.opens_string_iff.mp hc
  have hbody : ∀ d ∈ body, d ≠ '"' ∧ d ≠ '\n' := fun d hd => Mode.string_goes_on_iff.mp (hgoes d hd)
  have hbody' : ∀ d ∈ body ++ ['\r'], d ≠ '"' ∧ d ≠ '\n' := by
    intro d hd
    rcases List.mem_append.mp hd with hd | hd
    · exact hbody d hd
    · rw [List.mem_singleton.mp hd]
      decide
  refine ⟨scan before, body, scan_of_open hbefore hbody, ?_⟩
  rw [List.append_assoc, List.cons_append, scan_of_open hbefore hbody']

/-- The line leaves a string open that has a carriage return as its last character. -/
def EndsOpen (t : String) : Prop :=
  t.toList.getLast? = some '\r' ∧ Mode.plain.behind t.toList = .string

theorem exists_concat_return (h : t.toList.getLast? = some '\r') :
    t.toList = (Text.withoutReturn t).toList ++ ['\r'] := by
  obtain ⟨front, hfront⟩ := List.getLast?_eq_some_iff.mp h
  rw [Text.withoutReturn, if_pos h, hfront]
  simp

theorem indentation_withoutReturn (t : String) :
    indentation (Text.withoutReturn t) = indentation t := by
  by_cases h : t.toList.getLast? = some '\r'
  · rw [indentation, indentation, exists_concat_return h, List.takeWhile_append]
    split
    · next hall => simp [hall]
    · rfl
  · rw [Text.withoutReturn, if_neg h]

theorem ofLine_withoutReturn (h : ¬ EndsOpen t) : ofLine (Text.withoutReturn t) = ofLine t := by
  by_cases hlast : t.toList.getLast? = some '\r'
  · have hmode : Mode.plain.behind (Text.withoutReturn t).toList ≠ .string := by
      intro hmode
      rw [← Mode.behind_concat_return, ← exists_concat_return hlast] at hmode
      exact h ⟨hlast, hmode⟩
    have hscan := scan_concat_return hmode
    rw [← exists_concat_return hlast] at hscan
    rw [ofLine, ofLine, hscan]
  · rw [Text.withoutReturn, if_neg hlast]

theorem ofLine_of_endsOpen (h : EndsOpen t) :
    ∃ tokens body, ofLine t = tokens ++ ["\"" ++ body ++ "\r"] ∧
      ofLine (Text.withoutReturn t) = tokens ++ ["\"" ++ body] := by
  obtain ⟨hlast, hmode⟩ := h
  rw [exists_concat_return hlast, Mode.behind_concat_return] at hmode
  obtain ⟨tokens, body, hscan, hscan'⟩ := scan_concat_return_of_open hmode
  rw [← exists_concat_return hlast] at hscan'
  refine ⟨tokens.map String.ofList, String.ofList body, ?_, ?_⟩
  · have htext : String.ofList ('"' :: (body ++ ['\r'])) = "\"" ++ String.ofList body ++ "\r" :=
      String.toList_inj.mp (by simp)
    rw [ofLine, hscan', List.map_append, List.map_singleton, htext]
  · have htext : String.ofList ('"' :: body) = "\"" ++ String.ofList body :=
      String.toList_inj.mp (by simp)
    rw [ofLine, hscan, List.map_append, List.map_singleton, htext]

end Token

/-! ### Programs of lines -/

namespace Program

theorem ofText_empty : SourceLine.ofText "" = SourceLine.empty := by
  simp [SourceLine.ofText, SourceLine.empty, Token.ofLine, Token.indentation]

/-- Lines past the end are as if they were written without a character. -/
theorem line_ofLines (ts : List String) (n : Nat) :
    (ofLines ts).line n = SourceLine.ofText (ts[n]?.getD "") := by
  cases h : ts[n]? with
  | none => simp [ofLines, line, h, ofText_empty]
  | some t => simp [ofLines, line, h]

theorem text_ofLines (ts : List String) (n : Nat) :
    ((ofLines ts).line n).text = ts[n]?.getD "" := by
  rw [line_ofLines, SourceLine.ofText]

theorem tokens_ofLines (ts : List String) (n : Nat) :
    ((ofLines ts).line n).tokens = Token.ofLine (ts[n]?.getD "") := by
  rw [line_ofLines, SourceLine.ofText]

theorem indent_ofLines (ts : List String) (n : Nat) :
    ((ofLines ts).line n).indent = Token.indentation (ts[n]?.getD "") := by
  rw [line_ofLines, SourceLine.ofText]

theorem size_ofLines (ts : List String) : (ofLines ts).size = ts.length := by
  simp [ofLines, size]

/-- A line that another one follows may lose a carriage return. Any other line stays. -/
theorem getD_relined (ts : List String) (n : Nat) :
    (Text.relined ts)[n]?.getD "" =
      if n + 1 < ts.length then Text.withoutReturn (ts[n]?.getD "") else ts[n]?.getD "" := by
  induction ts using Text.relined.induct generalizing n with
  | case1 => simp [Text.relined]
  | case2 => cases n <;> simp [Text.relined]
  | case3 t ht => simp [Text.relined, ht]
  | case4 t u ts ih =>
    cases n with
    | zero => simp [Text.relined]
    | succ n => simpa [Text.relined] using ih n

end Program

/-! ### Sessions -/

namespace Session

/-- The program that a session runs. -/
def program (s : Session) : Program := Program.ofSource s.source

theorem respond_run {s : Session} (h : s.lines ≠ []) : s.respond ":run\n" = .run s.source := by
  have htyped : Text.typed (Text.stripTerminator ":run\n".toList) = ":run".toList := by
    decide +kernel
  have htrimmed : Text.trimChars ":run".toList = ":run".toList := by decide +kernel
  have hsplit : splitCommand ":run" = (":run", "") := by decide +kernel
  rw [respond, htyped, take, htrimmed]
  show s.obey ":run" = .run s.source
  simp [obey, hsplit, h]

/-- Lines without line feeds that are run by a session. -/
theorem program_eq {s : Session} (h : ∀ t ∈ s.lines, '\n' ∉ t.toList) :
    s.program = Program.ofLines (Text.relined s.lines) := by
  rw [program, Program.ofSource, source, Text.lines_intercalate h]

end Session

/-- The line is not the last one, and it leaves a string open that has a carriage return as its last
character. -/
def Program.LosesReturn (p : Program) (n : Nat) : Prop :=
  n + 1 < p.size ∧ Token.EndsOpen (p.line n).text

/-- A session that has loaded a file with at least one line runs the lines of the file, but for an
empty last line. Each line has the indentation that it has in the file. It has the same tokens too,
unless a string is open at its end: then, if another line follows, the string loses a carriage
return at its end. -/
theorem loaded_program {s : Session} {file source answer : String}
    (hload : Session.loaded file source = (s, answer)) (hlines : Text.lines source ≠ []) :
    s.respond ":run\n" = .run s.source ∧
    (s.program.size + 1 = (Program.ofSource source).size ∧
        (Text.lines source).getLast? = some "" ∨
      s.program.size = (Program.ofSource source).size ∧
        (Text.lines source).getLast? ≠ some "") ∧
    ∀ n, (s.program.line n).indent = ((Program.ofSource source).line n).indent ∧
      (¬ (Program.ofSource source).LosesReturn n →
        (s.program.line n).tokens = ((Program.ofSource source).line n).tokens) ∧
      ((Program.ofSource source).LosesReturn n → ∃ tokens body,
        ((Program.ofSource source).line n).tokens = tokens ++ ["\"" ++ body ++ "\r"] ∧
        (s.program.line n).tokens = tokens ++ ["\"" ++ body]) := by
  obtain rfl : s = { lines := Text.lines source } := (congrArg Prod.fst hload).symm
  have hprogram := Session.program_eq (s := { lines := Text.lines source }) fun t ht =>
    Text.not_mem_of_mem_lines ht
  have hrun := Session.respond_run (s := { lines := Text.lines source }) hlines
  refine ⟨hrun, ?_, ?_⟩
  · rw [hprogram, Program.size_ofLines, Program.ofSource, Program.size_ofLines]
    exact Text.length_relined hlines
  · intro n
    simp only [hprogram, Program.LosesReturn, Program.ofSource, Program.size_ofLines,
      Program.text_ofLines, Program.tokens_ofLines, Program.indent_ofLines, Program.getD_relined]
    by_cases hfollowed : n + 1 < (Text.lines source).length
    · rw [if_pos hfollowed]
      refine ⟨Token.indentation_withoutReturn _, fun hkept => ?_, fun hloses => ?_⟩
      · exact Token.ofLine_withoutReturn fun hopen => hkept ⟨hfollowed, hopen⟩
      · exact Token.ofLine_of_endsOpen hloses.2
    · -- The last line stays as it is, and so do those past the end, which are empty.
      rw [if_neg hfollowed]
      exact ⟨rfl, fun _ => rfl, fun hloses => absurd hloses.1 hfollowed⟩

/-- A program that prints a string. The string is not closed, and its line ends with two carriage
returns and a line feed. -/
def printingSource : String := "func main void\n  funccall print \"a\r\r\nendfunc\n"

/-- One of the carriage returns belongs to the string. The program prints it, but not when a session
has loaded the program. -/
theorem loaded_program_printingSource :
    Text.lines printingSource ≠ [] ∧
    (Program.ofSource printingSource).LosesReturn 1 ∧
    ((Program.ofSource printingSource).line 1).tokens = ["funccall", "print", "\"a\r"] ∧
    ((Session.loaded "f" printingSource).1.program.line 1).tokens =
      ["funccall", "print", "\"a"] ∧
    (runSource printingSource {} Terminal.console 5 {}).2.stdout = "a\r\n" ∧
    (runSource (Session.loaded "f" printingSource).1.source {} Terminal.console 5 {}).2.stdout =
      "a\n" := by
  have hlines : Text.lines printingSource ≠ [] := by decide +kernel
  have htokens : ((Program.ofSource printingSource).line 1).tokens =
      ["funccall", "print", "\"a\r"] := by decide +kernel
  have hloses : (Program.ofSource printingSource).LosesReturn 1 := by
    refine ⟨?_, ?_, ?_⟩
    · decide +kernel
    · decide +kernel
    · decide +kernel
  obtain ⟨-, -, hline⟩ :=
    @loaded_program (Session.loaded "f" printingSource).1 "f" printingSource _ rfl hlines
  refine ⟨hlines, hloses, htokens, ?_, by decide +kernel, by decide +kernel⟩
  obtain ⟨tokens, body, hwritten, hrun⟩ := (hline 1).2.2 hloses
  rw [htokens] at hwritten
  have hsplit : ["funccall", "print"] ++ ["\"a\r"] = tokens ++ ["\"" ++ body ++ "\r"] := hwritten
  obtain ⟨rfl, hlast⟩ := List.append_inj' hsplit rfl
  have hbody : "\"a".toList ++ ['\r'] = ("\"" ++ body).toList ++ ['\r'] := by
    simpa using congrArg String.toList (List.singleton_inj.mp hlast)
  rw [hrun, ← String.toList_inj.mp (List.append_cancel_right hbody)]
  rfl

end LineScript
