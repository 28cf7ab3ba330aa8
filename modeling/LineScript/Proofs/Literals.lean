/-
Literals stand for themselves.

An integer, a truth value or a string is written in a program as its literal (`Value.Spelled`).
Between the text of a line and the value are three readers: the scan that cuts the line into
tokens, the tests that tell literals from names, and the reading of digits or the taking off of
quotes. All three agree:

* `Value.Spelled.isToken`: in any place where a token can stand, the literal is one token;
* `resolve_of_denotes`: a token of digits is the integer it denotes or out of range, whatever the
  state is;
* `Value.Spelled.resolve_eq`: a literal is resolved to its value;
* `conversion_eq`: a text is converted to the integer whose decimal it has between blanks.

`literals_read_back` puts them together.
-/
import LineScript.Proofs.Decimals
import LineScript.Proofs.Paths
import LineScript.Proofs.Sharing
import LineScript.Proofs.Splices

namespace LineScript

variable {img : Image} {cfg : Config} {s : State} {v : Value} {token text : String} {z : ℤ}
  {cs : List Char} {c : Char}

/-- The text is the literal of the value: an integer or a truth value as it is shown, a string in
quotes. A string with a quote or a line feed in it has no literal. -/
inductive Value.Spelled : Value → String → Prop
  | int (n : Int64) : Spelled (.int n) (Value.int n).display
  | bool (b : Bool) : Spelled (.bool b) (Value.bool b).display
  | str {text : String} (h : ∀ c ∈ text.toList, c ≠ '"' ∧ c ≠ '\n') :
    Spelled (.str text) ("\"" ++ text ++ "\"")

theorem toList_quoted (text : String) :
    ("\"" ++ text ++ "\"").toList = '"' :: (text.toList ++ ['"']) := by
  simp [String.toList_append]

/-! ### Literals as tokens -/

theorem isWordChar_of_isDigit (h : c.isDigit = true) : Token.isWordChar c = true := by
  have hne : ∀ d : Char, d.isDigit = false → c ≠ d := by
    rintro d hd rfl
    rw [h] at hd
    cases hd
  simp [Token.isWordChar, Token.isBlank, hne]

theorem Text.Denotes.isWordChar (h : Text.Denotes cs z) :
    cs ≠ [] ∧ ∀ c ∈ cs, Token.isWordChar c = true := by
  cases h with
  | positive hne hdigits => exact ⟨hne, fun c hc => isWordChar_of_isDigit (hdigits c hc)⟩
  | negative hne hdigits =>
    refine ⟨by simp, List.forall_mem_cons.mpr ⟨rfl, ?_⟩⟩
    exact fun c hc => isWordChar_of_isDigit (hdigits c hc)

theorem Value.Spelled.isToken {before after : List Char} (h : v.Spelled text)
    (hslot : Token.Slot before after) : Token.IsToken before text.toList after := by
  cases h with
  | int n =>
    obtain ⟨hne, hchars⟩ := (Text.denotes_decimal n).isWordChar
    exact .inl (hslot.isWord hne hchars)
  | bool b =>
    refine .inl (hslot.isWord ?_ (List.all_eq_true.mp ?_))
    · cases b <;> decide
    · cases b <;> decide
  | str hchars =>
    rw [toList_quoted]
    exact .inr (.closed hchars)

/-! ### Tokens as values -/

namespace Operand

theorem resolve_of_literal {value : Except Cause Value} (h : literal? token = some value) :
    resolve img s token = value := by
  rw [resolve_eq, h]

theorem isIntegerLike_of_denotes (h : Text.Denotes cs z) : isIntegerLike cs = true := by
  cases h with
  | positive hne hdigits =>
    rw [isIntegerLike.eq_def]
    split
    · exact absurd (hdigits '-' List.mem_cons_self) (by decide)
    · simp [hne, List.all_eq_true.mpr hdigits]
  | negative hne hdigits => simp [isIntegerLike, hne]

theorem literal?_of_denotes (h : Text.Denotes token.toList z) :
    literal? token = some ((integer token).map .int) := by
  rw [literal?]
  split
  · next htext =>
    rw [htext] at h
    exact absurd (h.isWordChar.2 '"' List.mem_cons_self) (by decide)
  · rw [if_pos (isIntegerLike_of_denotes h)]

/-- Digits are resolved to the integer they denote, or out of range, in any state. -/
theorem resolve_of_denotes (h : Text.Denotes token.toList z) :
    resolve img s token =
      if Text.fits z then .ok (.int (Int64.ofInt z)) else .error (.literalRange token) := by
  rw [resolve_of_literal (literal?_of_denotes h), integer, Text.readDecimal_of_denotes h]
  by_cases hfits : Text.fits z = true
  · simp [hfits, Except.map]
  · simp [hfits, Except.map]

theorem unquote_concat (body : List Char) : unquote (body ++ ['"']) = body := by
  simp [unquote]

theorem literal?_quoted (text : String) :
    literal? ("\"" ++ text ++ "\"") = some (.ok (.str text)) := by
  simp only [literal?, toList_quoted, unquote_concat, String.ofList_toList]

end Operand

/-- A literal is resolved to its value, whatever names there are in the state. -/
theorem Value.Spelled.resolve_eq (h : v.Spelled text) : Operand.resolve img s text = .ok v := by
  cases h with
  | int n =>
    rw [Value.display, Operand.resolve_of_denotes (Text.denotes_decimal n),
      if_pos (Text.fits_toInt n), Int64.ofInt_toInt]
  | bool b =>
    refine Operand.resolve_of_literal ?_
    cases b <;> decide
  | str hchars => exact Operand.resolve_of_literal (Operand.literal?_quoted _)

/-! ### Conversions -/

namespace Text

theorem isBlank_eq_false_of_isDigit (h : c.isDigit = true) : isBlank c = false := by
  have hdigit : 48 ≤ c.toNat ∧ c.toNat ≤ 57 := by
    simpa [Char.isDigit, UInt32.le_iff_toNat_le] using h
  rw [← Bool.not_eq_true, isBlank, inRanges_iff]
  rintro ⟨r, hr, hlow, hhigh⟩
  simp only [blankRanges, List.mem_cons, List.not_mem_nil, or_false] at hr
  rcases hr with rfl | rfl | rfl | rfl | rfl | rfl | rfl | rfl | rfl | rfl <;>
    simp only at hlow hhigh <;> omega

theorem Denotes.isBlank_eq_false (h : Denotes cs z) : ∀ c ∈ cs, isBlank c = false := by
  cases h with
  | positive hne hdigits => exact fun c hc => isBlank_eq_false_of_isDigit (hdigits c hc)
  | negative hne hdigits =>
    refine List.forall_mem_cons.mpr ⟨by decide, ?_⟩
    exact fun c hc => isBlank_eq_false_of_isDigit (hdigits c hc)

/-- Trimming takes off the blanks on both sides of a text without blanks. -/
theorem trimChars_append {left right : List Char} (hleft : ∀ c ∈ left, isBlank c = true)
    (hright : ∀ c ∈ right, isBlank c = true) (hne : cs ≠ [])
    (hcs : ∀ c ∈ cs, isBlank c = false) : trimChars (left ++ cs ++ right) = cs := by
  have hstops : ∀ {ds rest : List Char}, ds ≠ [] → (∀ c ∈ ds, isBlank c = false) →
      Token.Stops isBlank (ds ++ rest) := by
    intro ds rest hds hall c hc
    obtain ⟨first, ds, rfl⟩ := List.exists_cons_of_ne_nil hds
    obtain rfl : first = c := Option.some.inj hc
    exact hall first List.mem_cons_self
  have hback : ∀ c ∈ cs.reverse, isBlank c = false := fun c hc => hcs c (List.mem_reverse.mp hc)
  have hend : (right.reverse ++ (cs.reverse ++ [])).dropWhile isBlank = cs.reverse ++ [] :=
    Token.dropWhile_append_of_stops (fun c hc => hright c (List.mem_reverse.mp hc))
      (hstops (by simpa using hne) hback)
  rw [trimChars, List.append_assoc, Token.dropWhile_append_of_stops hleft (hstops hne hcs),
    trimEndChars, dropEndWhile, List.reverse_append]
  rw [List.append_nil] at hend
  rw [hend, List.reverse_reverse]

end Text

/-- A text that has the decimal of an integer between blanks is converted to the integer. -/
theorem conversion_eq {n : Int64} {left right : List Char}
    (htext : text.toList = left ++ (Text.decimal n).toList ++ right)
    (hleft : ∀ c ∈ left, Text.isBlank c = true) (hright : ∀ c ∈ right, Text.isBlank c = true) :
    Plan.conversion text = .ok n := by
  have hdenotes := Text.denotes_decimal n
  rw [Plan.conversion, htext,
    Text.trimChars_append hleft hright hdenotes.isWordChar.1 hdenotes.isBlank_eq_false,
    Text.readDecimal_decimal]

theorem step_strtoint {actual : String} {n : Int64}
    (hline : (img.program.line s.ip).tokens =
      [Keyword.call.text, Builtin.strtoint.text, actual])
    (hactual : Operand.resolve img s actual = .ok (.str text))
    (hconversion : Plan.conversion text = .ok n) :
    step img cfg s = .done { state := (s.publish (.int n)).advance } := by
  have hplan : Plan.statement img cfg s .call [Builtin.strtoint.text, actual] =
      .ok (.effect (.publish (.int n))) := by
    simp only [Plan.statement, Plan.invocation, Builtin.ofText?_text, Plan.builtin, hactual]
    simp only [bind, Except.bind, hconversion]
    rfl
  rw [step_of_keyword (Program.keyword?_of_tokens hline), hline, List.tail_cons,
    perform_of_effect hplan]
  rfl

/-- What is published is found in the root block of the frame. -/
theorem ScopeStack.InRange.exists_published {c : ScopeStack} (h : c.InRange) (name : String)
    (v : Value) : ∃ cell, (c.publish name v).current.root.find? name = some cell ∧
      (c.publish name v).read cell = v := by
  rw [ScopeStack.publish]
  split
  · next cell hcell =>
    have hlt : cell.index < c.cells.size := (h _ List.mem_cons_self).1 name cell hcell
    exact ⟨cell, hcell, by rw [ScopeStack.read_write, if_pos ⟨rfl, hlt⟩]⟩
  · refine ⟨⟨c.cells.size⟩, ?_, ?_⟩
    · rw [Table.find?_insert, if_pos rfl]
    · simp [ScopeStack.read]

/-! ### All literals -/

/-- A literal in a place for a token is one token of the line, and this token is resolved to the
value of the literal, in any state. The built-in conversion publishes the integer whose decimal a
string has between blanks, and in a run it is found under the name for integers afterwards. And a
token of digits, with or without a minus sign, is resolved to the integer that it denotes, or is a
fault if no word has this value. -/
theorem literals_read_back :
    (∀ v text, Value.Spelled v text →
      (∀ before after : String, Token.Slot before.toList after.toList →
        Token.ofLine (before ++ text ++ after) =
          Token.ofLine before ++ text :: Token.ofLine after) ∧
      ∀ img s, Operand.resolve img s text = .ok v) ∧
    (∀ (img : Image) (cfg : Config) (s : State) (actual text : String) (n : Int64)
        (left right : List Char),
      (img.program.line s.ip).tokens = [Keyword.call.text, Builtin.strtoint.text, actual] →
      Operand.resolve img s actual = .ok (.str text) →
      text.toList = left ++ (Value.int n).display.toList ++ right →
      (∀ c ∈ left, Text.isBlank c = true) → (∀ c ∈ right, Text.isBlank c = true) →
      step img cfg s = .done { state := (s.publish (.int n)).advance }) ∧
    (∀ (σ : Type) (m : Machine) (con : Console σ) (w₀ w : σ) (s : State) (n : Int64),
      m.Reached con w₀ s w → ∃ cell,
        (s.publish (.int n)).scopes.current.root.find? "resulti" = some cell ∧
        (s.publish (.int n)).scopes.read cell = .int n) ∧
    ∀ token z, Text.Denotes token.toList z → ∀ img s,
      (∀ n : Int64, n.toInt = z → Operand.resolve img s token = .ok (.int n)) ∧
      ((∀ n : Int64, n.toInt ≠ z) →
        ∃ cause, Operand.resolve img s token = .error cause ∧ cause.kind = .fault) := by
  refine ⟨?_, ?_, ?_, ?_⟩
  · intro v text h
    exact ⟨fun before after hslot => hslot.ofLine_eq (h.isToken hslot), fun img s => h.resolve_eq⟩
  · intro img cfg s actual text n left right hline hactual htext hleft hright
    exact step_strtoint hline hactual (conversion_eq htext hleft hright)
  · intro σ m con w₀ w s n hreached
    exact hreached.inRange.exists_published "resulti" (.int n)
  · intro token z h img s
    rw [Operand.resolve_of_denotes h]
    refine ⟨?_, ?_⟩
    · rintro n rfl
      rw [if_pos (Text.fits_toInt n), Int64.ofInt_toInt]
    · intro hnone
      have hfits : ¬Text.fits z = true := by
        intro hfits
        obtain ⟨hlow, hhigh⟩ := Arithmetic.fits_iff_isWord.mp hfits
        exact hnone _ (Int64.toInt_ofInt_of_le hlow hhigh)
      exact ⟨_, if_neg hfits, rfl⟩

/-- A function that converts the decimal of the least word. -/
def convertingProgram : Program := .ofLines [
  "func main void",
  "  funccall strtoint \"\t -9223372036854775808 \" # the least",
  "endfunc"]

/-- The string in the second line is one token between the name of the built-in function and the
comment. It is resolved to the text between its quotes, the conversion finds the least word in it,
and the digits of the greatest word and one more are out of range. -/
theorem literals_read_back_convertingProgram :
    Token.ofLine "  funccall strtoint \"\t -9223372036854775808 \" # the least" =
      ["funccall", "strtoint", "\"\t -9223372036854775808 \""] ∧
    Operand.resolve (.ofProgram convertingProgram) (.start 1)
      "\"\t -9223372036854775808 \"" = .ok (.str "\t -9223372036854775808 ") ∧
    step (.ofProgram convertingProgram) {} (.start 1) =
      .done { state := ((State.start 1).publish (.int Int64.minValue)).advance } ∧
    (∃ cell, ((State.start 1).publish (.int Int64.minValue)).scopes.current.root.find? "resulti" =
      some cell) ∧
    ∃ cause, Operand.resolve (.ofProgram convertingProgram) (.start 1) "9223372036854775808" =
      .error cause ∧ cause.kind = .fault := by
  obtain ⟨hspelled, hconvert, hpublished, hdigits⟩ := literals_read_back
  have hchars : "\t -9223372036854775808 ".toList.all (fun c => c ≠ '"' ∧ c ≠ '\n') = true := by
    decide
  have hstr : Value.Spelled (.str "\t -9223372036854775808 ") "\"\t -9223372036854775808 \"" :=
    .str fun c hc => of_decide_eq_true (List.all_eq_true.mp hchars c hc)
  obtain ⟨htoken, hvalue⟩ := hspelled _ _ hstr
  have hslot : Token.Slot "  funccall strtoint ".toList " # the least".toList := by
    refine ⟨by decide, ?_, ?_⟩ <;> rintro c ⟨⟩ <;> rfl
  have hline : (convertingProgram.line 1).tokens =
      ["funccall", "strtoint", "\"\t -9223372036854775808 \""] := by decide +kernel
  have htext : "\t -9223372036854775808 ".toList =
      ['\t', ' '] ++ (Value.int Int64.minValue).display.toList ++ [' '] := by decide +kernel
  have hreached : Machine.Reached { image := .ofProgram convertingProgram } Buffer.console {}
      (.start 1) {} := ⟨.start 1, by decide +kernel, .refl⟩
  refine ⟨?_, hvalue _ _, ?_, ?_, ?_⟩
  · refine (htoken "  funccall strtoint " " # the least" hslot).trans ?_
    decide +kernel
  · exact hconvert (.ofProgram convertingProgram) {} (.start 1) _ _ _ _ _ hline (hvalue _ _) htext
      (List.all_eq_true.mp (by decide)) (List.all_eq_true.mp (by decide))
  · obtain ⟨cell, hcell, -⟩ := hpublished _ _ _ _ _ _ Int64.minValue hreached
    exact ⟨cell, hcell⟩
  · have hdenotes : Text.Denotes "9223372036854775808".toList 9223372036854775808 :=
      .positive (by decide) (List.all_eq_true.mp (by decide))
    refine (hdigits _ _ hdenotes _ _).2 ?_
    intro n hn
    have hword := (Arithmetic.isWord_toInt n).2
    omega

end LineScript
