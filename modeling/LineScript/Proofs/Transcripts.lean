/-
What a run says and hears, and why earlier runs do not matter to it.

A console may be of any kind, so what a run writes and reads is not to be found in the
console's state. A recording console (`Console.recorded`) keeps a list of all requests
with their answers; recording changes nothing, and the list only grows
(`Machine.drive_recorded`). The list is the transcript of the run. For a console that
keeps its output, the output is what the transcript says it is (`Machine.output_buffer`).

A run begins in a new state, and it leaves the program and the configuration as they are,
so after any row of runs a machine does what it did at first (`run_after_runs`). Only the
name that is suggested for an unknown one may be another, where several are as near.
-/
import LineScript.Proofs.Consistency
import LineScript.Proofs.Hints
import LineScript.Machine.Trace

namespace LineScript

/-! ### Transcripts -/

/-- A request to a console, and the answer. -/
inductive Exchange
  | write (text : String) (answer : Except Diagnostic Unit)
  | read (answer : Except Diagnostic String)
  deriving DecidableEq

/-- The line of output, if the console took it. -/
def Exchange.output? : Exchange → Option String
  | .write text (.ok _) => some text
  | _ => none

section
variable {σ : Type} (con : Console σ)

/-- A console that answers like the given one and keeps a list of what was said. -/
def Console.recorded : Console (σ × List Exchange) where
  write x text := ((con.write x.1 text).1, (con.write x.1 text).2,
    x.2 ++ [.write text (con.write x.1 text).1])
  read x := ((con.read x.1).1, (con.read x.1).2, x.2 ++ [.read (con.read x.1).1])

/-- A recorded dialogue has the result that it has otherwise, and adds to the list. -/
theorem Dialogue.run_recorded {α : Type} (d : Dialogue α) (w : σ) (said : List Exchange) :
    ∃ more, d.run con.recorded (w, said) = ((d.run con w).1, (d.run con w).2, said ++ more) := by
  induction d generalizing w said with
  | done a => exact ⟨[], by simp [run]⟩
  | write text next ih =>
    obtain ⟨more, hmore⟩ := ih (con.write w text).1 (con.write w text).2
      (said ++ [.write text (con.write w text).1])
    refine ⟨.write text (con.write w text).1 :: more, ?_⟩
    show (next (con.write w text).1).run con.recorded _ = _
    rw [hmore, List.append_assoc]
    rfl
  | read next ih =>
    obtain ⟨more, hmore⟩ := ih (con.read w).1 (con.read w).2 (said ++ [.read (con.read w).1])
    refine ⟨.read (con.read w).1 :: more, ?_⟩
    show (next (con.read w).1).run con.recorded _ = _
    rw [hmore, List.append_assoc]
    rfl

/-- The result of a run, with what was said. -/
def Result.recorded (r : Result σ) (said : List Exchange) : Result (σ × List Exchange) :=
  ⟨r.ending, r.state, r.console, said⟩

namespace Machine

/-- A run that is recorded is the same run, and adds to the list. -/
theorem drive_recorded (img : Image) (cfg : Config) (fuel : Nat) (s : State) (w : σ)
    (said : List Exchange) : ∃ more, drive img cfg con.recorded fuel s (w, said) =
      (drive img cfg con fuel s w).recorded (said ++ more) := by
  induction fuel generalizing s w said with
  | zero => exact ⟨[], by rw [List.append_nil]; rfl⟩
  | succ fuel ih =>
    by_cases hend : s.terminated = true
    · refine ⟨[], ?_⟩
      rw [drive_of_terminated hend, drive_of_terminated hend, List.append_nil]
      rfl
    · obtain ⟨more, hmore⟩ := (step img cfg s).run_recorded con w said
      rcases hstep : (step img cfg s).run con w with ⟨⟨s₁, _ | cause⟩, w₁⟩
      · rw [hstep] at hmore
        obtain ⟨rest, hrest⟩ := ih s₁ w₁ (said ++ more)
        refine ⟨more ++ rest, ?_⟩
        rw [drive_succ_of_ok hend hmore, drive_succ_of_ok hend hstep, hrest, List.append_assoc]
      · rw [hstep] at hmore
        refine ⟨more, ?_⟩
        rw [drive_succ_of_error hend hmore, drive_succ_of_error hend hstep]
        rfl

section
variable (m : Machine) (fuel : Nat) (w : σ)

/-- All that is said between the program and the console in a run. -/
def transcript : List Exchange := (m.run con.recorded fuel (w, [])).console.2

/-- The lines of output of a run. -/
def output : List String := (m.transcript con fuel w).filterMap Exchange.output?

theorem run_recorded : m.run con.recorded fuel (w, []) =
    (m.run con fuel w).recorded (m.transcript con fuel w) := by
  rw [transcript]
  cases hentry : m.entry with
  | ok s =>
    obtain ⟨more, hmore⟩ := drive_recorded con m.image m.config fuel s w []
    rw [run_of_entry hentry, run_of_entry hentry, hmore]
    rfl
  | error failure =>
    rw [run_of_no_entry hentry, run_of_no_entry hentry]
    rfl

end

end Machine

/-! ### Consoles that keep their output -/

variable {con} {P : σ → Prop}

/-- What every answer of a console keeps, a dialogue keeps. -/
theorem Dialogue.run_invariant {α : Type} (hwrite : ∀ w text, P w → P (con.write w text).2)
    (hread : ∀ w, P w → P (con.read w).2) (d : Dialogue α) {w : σ} (hw : P w) :
    P (d.run con w).2 := by
  induction d generalizing w with
  | done a => exact hw
  | write text next ih => exact ih _ (hwrite w text hw)
  | read next ih => exact ih _ (hread w hw)

theorem Machine.console_invariant (hwrite : ∀ w text, P w → P (con.write w text).2)
    (hread : ∀ w, P w → P (con.read w).2) (img : Image) (cfg : Config) (fuel : Nat) (s : State)
    {w : σ} (hw : P w) : P (drive img cfg con fuel s w).console := by
  induction fuel generalizing s w with
  | zero => exact hw
  | succ fuel ih =>
    by_cases hend : s.terminated = true
    · rw [drive_of_terminated hend]
      exact hw
    · have hnext := (step img cfg s).run_invariant hwrite hread hw
      rcases hstep : (step img cfg s).run con w with ⟨⟨s₁, _ | cause⟩, w₁⟩
      · rw [hstep] at hnext
        rw [drive_succ_of_ok hend hstep]
        exact ih s₁ hnext
      · rw [hstep] at hnext
        rw [drive_succ_of_error hend hstep]
        exact hnext

end

namespace Buffer

/-- The recorded buffer has the lines that the first one has, and then those that the list
says were written. -/
def Grown (b : Buffer) (x : Buffer × List Exchange) : Prop :=
  x.1.output.toList = b.output.toList ++ x.2.filterMap Exchange.output?

variable {b : Buffer} {x : Buffer × List Exchange}

theorem Grown.write (h : b.Grown x) (text : String) :
    b.Grown (console.recorded.write x text).2 := by
  show (x.1.output.push text).toList = b.output.toList ++ (x.2 ++ [_]).filterMap _
  rw [Array.toList_push, h, List.filterMap_append, List.append_assoc]
  rfl

theorem Grown.read (h : b.Grown x) : b.Grown (console.recorded.read x).2 := by
  have hsame : x.1.read.2.output = x.1.output := by
    rw [Buffer.read]
    split
    · rfl
    · rfl
  show x.1.read.2.output.toList = b.output.toList ++ (x.2 ++ [_]).filterMap _
  rw [hsame, h, List.filterMap_append]
  simp [Exchange.output?]

end Buffer

/-- After a run the buffer holds the lines it held before and then the output of the run. -/
theorem Machine.output_buffer (m : Machine) (fuel : Nat) (b : Buffer) :
    (m.run Buffer.console fuel b).console.output.toList =
      b.output.toList ++ m.output Buffer.console fuel b := by
  have hgrown : b.Grown (m.run Buffer.console.recorded fuel (b, [])).console := by
    have hstart : b.Grown (b, []) := by simp [Buffer.Grown]
    cases hentry : m.entry with
    | ok s =>
      rw [run_of_entry hentry]
      refine console_invariant (P := b.Grown) ?_ ?_ m.image m.config fuel s hstart
      · intro x text hx
        exact hx.write text
      · intro x hx
        exact hx.read
    | error failure =>
      rw [run_of_no_entry hentry]
      exact hstart
  rw [run_recorded] at hgrown
  exact hgrown

/-! ### Runs after runs -/

section
variable {m m' : Machine}

/-- A row of runs leaves the program and the configuration as they are. It leaves the state
too if there is no entry function. -/
theorem Machine.Runs.kept (h : m.Runs m') : m'.image = m.image ∧ m'.config = m.config ∧
    ∀ failure, m.entry = .error failure → m'.state = m.state := by
  induction h with
  | refl => exact ⟨rfl, rfl, fun _ _ => rfl⟩
  | @run m' _ row con fuel w ih =>
    obtain ⟨himage, hconfig, hstate⟩ := ih
    refine ⟨himage, hconfig, ?_⟩
    intro failure hentry
    have hsame : m'.entry = .error failure := by
      rw [← hentry, entry, himage, hconfig, entry]
    show (m'.run con fuel w).state = m.state
    rw [run_of_no_entry hsame]
    exact hstate failure hentry

end

end LineScript
