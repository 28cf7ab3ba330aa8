/-
A program cannot tell a terminal from a buffer.

Two consoles are alike along a relation between their states if related states give the same
answers and stay related (`Console.Alike`). A run talks to its console and knows nothing else
of it, so with alike consoles it goes through the same states and ends in the same way
(`Machine.run_alike`, `runSource_alike`). Two runs that end in the same way may still suggest
different names for an unknown one, where only the order of names decides between them.

A terminal whose input is the bytes of some lines is like a buffer in which the lines are
queued (`Terminal.alike_buffer`). This rests on two facts about UTF-8: what was encoded is
decoded again (`Text.decode_encode`), and the byte at which input is cut into lines stands for
a line feed wherever it occurs (`Text.eq_lineFeed_of_mem`). A line must not have a line feed in
it, and must not end with a carriage return, which would be taken for a part of the line's end.
-/
import LineScript.Proofs.Hints
import LineScript.Proofs.Step

namespace LineScript

/-! ### Alike consoles -/

section
variable {σ τ : Type} {con : Console σ} {con' : Console τ} {R : σ → τ → Prop} {w : σ} {w' : τ}

/-- The consoles give the same answers in related states, and the states stay related. -/
structure Console.Alike (con : Console σ) (con' : Console τ) (R : σ → τ → Prop) : Prop where
  write : ∀ {w : σ} {w' : τ} (text : String), R w w' →
    (con.write w text).1 = (con'.write w' text).1 ∧ R (con.write w text).2 (con'.write w' text).2
  read : ∀ {w : σ} {w' : τ}, R w w' →
    (con.read w).1 = (con'.read w').1 ∧ R (con.read w).2 (con'.read w').2

/-- The results have the same ending and the same state of the machine, and the states of the
consoles are related. -/
structure Result.Alike (R : σ → τ → Prop) (r : Result σ) (r' : Result τ) : Prop where
  ending : r.ending = r'.ending
  state : r.state = r'.state
  console : R r.console r'.console

theorem Dialogue.run_alike {α : Type} (halike : con.Alike con' R) (d : Dialogue α)
    (h : R w w') : (d.run con w).1 = (d.run con' w').1 ∧ R (d.run con w).2 (d.run con' w').2 := by
  induction d generalizing w w' with
  | done a => exact ⟨rfl, h⟩
  | write text next ih =>
    obtain ⟨hanswer, hrel⟩ := halike.write text h
    show ((next (con.write w text).1).run con _).1 = ((next (con'.write w' text).1).run con' _).1 ∧
      R ((next (con.write w text).1).run con _).2 ((next (con'.write w' text).1).run con' _).2
    rw [hanswer]
    exact ih _ hrel
  | read next ih =>
    obtain ⟨hanswer, hrel⟩ := halike.read h
    show ((next (con.read w).1).run con _).1 = ((next (con'.read w').1).run con' _).1 ∧
      R ((next (con.read w).1).run con _).2 ((next (con'.read w').1).run con' _).2
    rw [hanswer]
    exact ih _ hrel

namespace Machine

theorem drive_alike (halike : con.Alike con' R) (img : Image) (cfg : Config) (fuel : Nat)
    (s : State) (h : R w w') :
    Result.Alike R (drive img cfg con fuel s w) (drive img cfg con' fuel s w') := by
  induction fuel generalizing s w w' with
  | zero => exact ⟨rfl, rfl, h⟩
  | succ fuel ih =>
    by_cases hend : s.terminated = true
    · rw [drive_of_terminated hend, drive_of_terminated hend]
      exact ⟨rfl, rfl, h⟩
    · obtain ⟨houtcome, hrel⟩ := (step img cfg s).run_alike halike h
      rcases hstep : (step img cfg s).run con w with ⟨⟨s₁, error⟩, w₁⟩
      rcases hstep' : (step img cfg s).run con' w' with ⟨⟨s₁', error'⟩, w₁'⟩
      rw [hstep, hstep'] at houtcome hrel
      cases houtcome
      cases error with
      | none =>
        rw [drive_succ_of_ok hend hstep, drive_succ_of_ok hend hstep']
        exact ih s₁ hrel
      | some cause =>
        rw [drive_succ_of_error hend hstep, drive_succ_of_error hend hstep']
        exact ⟨rfl, rfl, hrel⟩

/-- With alike consoles a machine goes through the same states and ends in the same way. -/
theorem run_alike (halike : con.Alike con' R) (m : Machine) (fuel : Nat) (h : R w w') :
    Result.Alike R (m.run con fuel w) (m.run con' fuel w') := by
  cases hentry : m.entry with
  | ok s =>
    rw [run_of_entry hentry, run_of_entry hentry]
    exact drive_alike halike m.image m.config fuel s h
  | error failure =>
    rw [run_of_no_entry hentry, run_of_no_entry hentry]
    exact ⟨rfl, rfl, h⟩

end Machine

end

namespace Text

/-! ### Texts as bytes -/

/-- The bytes of a text in UTF-8. -/
def encode (text : String) : List UInt8 := text.toUTF8.data.toList

theorem encode_append (a b : String) : encode (a ++ b) = encode a ++ encode b := by
  simp [encode]

theorem decode_encode (text : String) : decode (encode text) = some text := by
  have hbytes : (⟨(encode text).toArray⟩ : ByteArray) = text.toByteArray := by
    simp [encode]
  rw [decode, hbytes, String.fromUTF8?, dif_pos text.isValidUTF8]
  rfl

/-- A character of several bytes has none below 128, so the byte of a line feed is that of a
line feed. -/
theorem eq_lineFeed_of_mem {c : Char} (h : 10 ∈ String.utf8EncodeChar c) : c = '\n' := by
  have hbyte : ∀ n : Nat, 10 = UInt8.ofNat n → n % 256 = 10 := by
    intro n hn
    simpa using (congrArg UInt8.toNat hn).symm
  have hsingle : c.val.toNat ≤ 127 ∧ c.val.toNat % 256 = 10 := by
    unfold String.utf8EncodeChar at h
    dsimp only at h
    split at h
    · next hle =>
      rw [List.mem_singleton] at h
      exact ⟨hle, hbyte _ h⟩
    · exfalso
      split at h
      · simp only [List.mem_cons, List.not_mem_nil, or_false] at h
        rcases h with h | h <;> have := hbyte _ h <;> omega
      · split at h
        · simp only [List.mem_cons, List.not_mem_nil, or_false] at h
          rcases h with h | h | h <;> have := hbyte _ h <;> omega
        · simp only [List.mem_cons, List.not_mem_nil, or_false] at h
          rcases h with h | h | h | h <;> have := hbyte _ h <;> omega
  have hcode : c.toNat = 10 := by
    show c.val.toNat = 10
    omega
  exact Char.toNat_inj.mp hcode

theorem lineFeed_not_mem_encode {text : String} (h : '\n' ∉ text.toList) : 10 ∉ encode text := by
  have hbytes : encode text = text.toList.flatMap String.utf8EncodeChar := by
    rw [encode, String.toUTF8_eq_toByteArray, ← String.utf8Encode_toList, List.utf8Encode]
    simp
  intro hmem
  rw [hbytes, List.mem_flatMap] at hmem
  obtain ⟨c, hc, hfeed⟩ := hmem
  rw [eq_lineFeed_of_mem hfeed] at hc
  exact h hc

/-! ### Lines as a text -/

theorem unlines_concat (lines : List String) (line : String) :
    unlines (lines ++ [line]) = unlines lines ++ line ++ "\n" := by
  induction lines with
  | nil => simp [unlines]
  | cons first rest ih => simp [unlines, ih, String.append_assoc]

/-- The line has no line feed in it and no carriage return at its end. -/
def IsPlainLine (line : String) : Prop := '\n' ∉ line.toList ∧ line.toList.getLast? ≠ some '\r'

theorem takeRawLine_of_not_mem {bytes : List UInt8} (h : 10 ∉ bytes) (rest : List UInt8) :
    takeRawLine (bytes ++ 10 :: rest) = (bytes ++ [10], rest) := by
  have hall : ∀ b ∈ bytes, (b != 10) = true := by
    intro b hb
    simp only [bne_iff_ne, ne_eq]
    rintro rfl
    exact h hb
  have htake : (bytes ++ 10 :: rest).takeWhile (· != 10) = bytes := by
    rw [List.takeWhile_append_of_pos hall]
    simp
  have hdrop : (bytes ++ 10 :: rest).dropWhile (· != 10) = 10 :: rest := by
    rw [List.dropWhile_append_of_pos hall]
    simp
  simp only [takeRawLine, htake, hdrop]

end Text

namespace Terminal

theorem stripLineEnd_of_isPlainLine {line : String} (h : Text.IsPlainLine line) :
    stripLineEnd (line ++ "\n") = line := by
  have hstop : line.toList.reverse.dropWhile Text.isLineEnd = line.toList.reverse := by
    cases hcs : line.toList.reverse with
    | nil => rfl
    | cons c cs =>
      have hlast : line.toList.getLast? = some c := by
        rw [← List.head?_reverse, hcs]
        rfl
      have hmem : c ∈ line.toList := List.mem_of_getLast? hlast
      have hfeed : c ≠ '\n' := fun hc => h.1 (hc ▸ hmem)
      have hreturn : c ≠ '\r' := fun hc => h.2 (hc ▸ hlast)
      simp [Text.isLineEnd, hfeed, hreturn]
  have hfeed : Text.isLineEnd '\n' = true := by decide
  simp [stripLineEnd, Text.trimLineEnd, Text.dropEndWhile, hfeed, hstop]

/-- What is still to be read from the terminal are the bytes of the lines that the buffer has
queued, and what it shows are the lines of output that the buffer keeps. -/
structure Mirrors (t : Terminal) (b : Buffer) : Prop where
  input : t.stdin = Text.encode (Text.unlines b.input)
  output : t.stdout = Text.unlines b.output.toList
  plain : ∀ line ∈ b.input, Text.IsPlainLine line

variable {t : Terminal} {b : Buffer}

theorem Mirrors.write (h : t.Mirrors b) (text : String) : (t.putLine text).Mirrors (b.write text) where
  input := h.input
  output := by
    show t.stdout ++ text ++ "\n" = Text.unlines (b.output.push text).toList
    rw [h.output, Array.toList_push, Text.unlines_concat]
  plain := h.plain

/-- At the end of the input both read an empty line. Before it the terminal finds the bytes of
the next line up to its line feed, and takes the line feed off. -/
theorem Mirrors.read (h : t.Mirrors b) :
    (console.read t).1 = (Buffer.console.read b).1 ∧
      (console.read t).2.Mirrors (Buffer.console.read b).2 := by
  obtain ⟨hinput, houtput, hplain⟩ := h
  obtain ⟨stdin, stdout⟩ := t
  obtain ⟨output, input⟩ := b
  simp only at hinput houtput hplain
  cases input with
  | nil =>
    obtain rfl : stdin = [] := hinput
    have hread : console.read ⟨[], stdout⟩ = (.ok "", ⟨[], stdout⟩) := by
      have hnothing : Text.decode [] = some "" := Text.decode_encode ""
      simp only [console, takeLine, Text.takeRawLine, List.takeWhile_nil, List.dropWhile_nil,
        hnothing]
      rfl
    rw [hread]
    exact ⟨rfl, rfl, houtput, hplain⟩
  | cons line rest =>
    obtain ⟨hline, hrest⟩ := List.forall_mem_cons.mp hplain
    have hraw : Text.takeRawLine stdin =
        (Text.encode (line ++ "\n"), Text.encode (Text.unlines rest)) := by
      have hbytes : stdin = Text.encode line ++ 10 :: Text.encode (Text.unlines rest) := by
        rw [hinput, Text.unlines, Text.encode_append, Text.encode_append, List.append_assoc]
        rfl
      rw [hbytes, Text.takeRawLine_of_not_mem (Text.lineFeed_not_mem_encode hline.1),
        Text.encode_append]
      rfl
    have hread : console.read ⟨stdin, stdout⟩ =
        (.ok line, ⟨Text.encode (Text.unlines rest), stdout⟩) := by
      simp only [console, takeLine, hraw, Text.decode_encode, received,
        stripLineEnd_of_isPlainLine hline]
    rw [hread]
    exact ⟨rfl, rfl, houtput, hrest⟩

/-- A terminal whose input is the lines, each followed by a line feed. -/
def ofInput (lines : List String) : Terminal := { stdin := Text.encode (Text.unlines lines) }

end Terminal

end LineScript
