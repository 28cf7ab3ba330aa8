/-
Programs without loops end.

Within a body only the end of a loop goes back; every other line goes on further down. A
call begins at the top of a body, and the body may be the one it is called from, but there
is room for so many calls only. So the lines that are left to the invocations, the outer
ones counted so high that one line outweighs all calls it may lead to, become fewer with
every line (`State.linesLeft`, `Onward.linesLeft_lt`). `run_ends_of_no_endLoop` gives a
number of lines after which any run has ended.
-/
import LineScript.Proofs.Turns
import Mathlib.Algebra.Group.Nat.Defs

namespace LineScript

variable {img : Image} {cfg : Config} {s s' : State}

/-! ### Lines go on -/

/-- What a line can do to the place of execution where no loop ends: it goes further down
in its body, or it calls, or it goes back to the caller, or the run is over. -/
inductive Onward (cfg : Config) (s s' : State) : Prop
  | further (returns : s'.returns = s.returns) (lt : s.ip < s'.ip)
  | call (returns : s'.returns = s.returns.push (s.ip + 1)) (room : s.depth < cfg.maxCallDepth)
  | back (returns : s.returns = s'.returns.push s'.ip)
  | stop (terminated : s'.terminated = true)

theorem Plan.lt_after {p : Program} {judge : SourceLine → Program.Verdict} {marker : Keyword}
    {n line : Nat} (h : Plan.after marker (p.searchAfter judge n) = .ok line) : n < line := by
  cases hsearch : p.searchAfter judge n with
  | none =>
    rw [hsearch] at h
    cases h
  | some last =>
    rw [hsearch] at h
    cases h
    exact Nat.lt_succ_of_lt (Program.searchAfter_range hsearch).1

/-- A block that is not that of a loop is left downwards. -/
theorem Plan.lt_blockExit {k : Keyword} {line : Nat} (hk : k ≠ .endLoop)
    (h : Plan.blockExit img s k = .ok line) : s.ip < line := by
  rw [Plan.blockExit.eq_def] at h
  split at h
  · exact Plan.lt_after h
  · exact absurd rfl hk
  · cases h
    exact Nat.lt_succ_self _

theorem Onward.goOn {t : State} {next : Except Cause Nat} (h : t.goOn next = ⟨s', none⟩)
    (returns : t.returns = s.returns) (hnext : ∀ line, next = .ok line → s.ip < line) :
    Onward cfg s s' := by
  cases next with
  | ok line =>
    cases h
    exact .further returns (hnext line rfl)
  | error cause => cases h

theorem onward_leave (cfg : Config) (s : State) (v : Option Value)
    (declared : Option DeclaredType) : Onward cfg s (s.leave v declared) := by
  cases hback : s.returns.back? with
  | none =>
    rw [State.leave_of_none hback]
    exact .stop rfl
  | some resume =>
    obtain ⟨rest, hrest⟩ := Array.back?_eq_some_iff.mp hback
    have hreturns : (s.leave v declared).returns = rest := by
      rw [s.returns_leave, hrest, Array.pop_push]
    have hip : (s.leave v declared).ip = resume := by
      rw [State.leave_of_some hback]
      rfl
    exact .back (by rw [hreturns, hip, hrest])

/-- Every line that succeeds goes on, unless it is the end of a loop. -/
theorem onward_of_step {σ : Type} {con : Console σ} {w w' : σ}
    (hloop : img.program.keyword? s.ip ≠ some .endLoop)
    (h : (step img cfg s).run con w = (⟨s', none⟩, w')) : Onward cfg s s' := by
  obtain ⟨plan, hplan, hrun⟩ := step_eq_ok h
  have hstraight : plan.Straight → Onward cfg s s' := by
    intro hplan
    obtain ⟨hsettled, hip⟩ := hplan.run_dialogue hrun
    exact .further hsettled.returns (by rw [hip, if_pos rfl]; exact Nat.lt_succ_self _)
  have happly : ∀ {e : Effect}, plan = .effect e → e.apply img.functions s = ⟨s', none⟩ := by
    rintro e rfl
    exact (Prod.mk.inj hrun).1
  cases planned_of_next hplan with
  | blank =>
    cases happly rfl
    exact .further rfl (Nat.lt_succ_self _)
  | declare => exact hstraight (.declare _ _)
  | store => exact hstraight (.store _ _)
  | storeField => exact hstraight (.storeField _ _ _)
  | convert => exact hstraight (.publish _)
  | print => exact hstraight (.print _)
  | input => exact hstraight (.input _)
  | call _ _ _ _ _ _ _ room =>
    cases happly rfl
    exact .call (s.returns_enter _ _ _) room
  | taken =>
    cases happly rfl
    exact .further rfl (Nat.lt_succ_self _)
  | other _ past =>
    cases happly rfl
    exact .further rfl (Nat.lt_succ_of_lt (Program.searchAfter_range past).1)
  | skipped _ past =>
    cases happly rfl
    exact .further rfl (Nat.lt_succ_of_lt (Program.searchAfter_range past).1)
  | finished _ past =>
    cases happly rfl
    exact .further rfl (Nat.lt_succ_of_lt (Program.searchAfter_range past).1)
  | closing here =>
    have hk : _ ≠ Keyword.endLoop := fun hk => hloop (hk ▸ here)
    have hgoOn := happly rfl
    rw [Effect.apply] at hgoOn
    exact .goOn hgoOn rfl fun _ => Plan.lt_blockExit hk
  | @capture id =>
    exact .goOn (happly rfl) (s.settled_captureFor id).returns fun _ => Plan.lt_after
  | leave =>
    cases happly rfl
    exact onward_leave cfg s _ _
  | giveBack =>
    cases happly rfl
    exact onward_leave cfg s _ _
  | endFunc =>
    cases happly rfl
    exact onward_leave cfg s _ _
  | endLambda =>
    cases happly rfl
    exact onward_leave cfg s _ _

/-! ### Lines that are left -/

/-- The lines that are left to a row of invocations, the outermost first, when `room` more
calls may be active. In a program of `size` lines an invocation has at most `size + 1`
places, so with this weight one line counts for more than a whole invocation inside. -/
def linesLeft (size : Nat) : (room : Nat) → List Nat → Nat
  | _, [] => 0
  | room, line :: inner => (size + 1 - line) * (size + 2) ^ room + linesLeft size (room - 1) inner

theorem linesLeft_append (size room : Nat) (xs ys : List Nat) :
    linesLeft size room (xs ++ ys) =
      linesLeft size room xs + linesLeft size (room - xs.length) ys := by
  induction xs generalizing room with
  | nil => simp [linesLeft]
  | cons x xs ih =>
    have hroom : room - 1 - xs.length = room - (x :: xs).length := by
      rw [List.length_cons]
      omega
    rw [List.cons_append, linesLeft, linesLeft, ih, hroom, Nat.add_assoc]

/-- What the outer invocations have left does not matter for the comparison. -/
theorem linesLeft_append_lt {size room : Nat} (xs : List Nat) {ys zs : List Nat}
    (h : linesLeft size (room - xs.length) ys < linesLeft size (room - xs.length) zs) :
    linesLeft size room (xs ++ ys) < linesLeft size room (xs ++ zs) := by
  rw [linesLeft_append, linesLeft_append]
  exact Nat.add_lt_add_left h _

theorem linesLeft_further {size room line line' : Nat} (hlt : line < line') (hline : line ≤ size) :
    linesLeft size room [line'] < linesLeft size room [line] := by
  have hpos : 0 < (size + 2) ^ room := Nat.pow_pos (Nat.succ_pos _)
  have hless : size + 1 - line' < size + 1 - line := by omega
  simpa [linesLeft] using Nat.mul_lt_mul_of_pos_right hless hpos

/-- A call costs its caller one line, and all that the callee may have left weighs less. -/
theorem linesLeft_call {size room line : Nat} (hline : line < size) (hroom : 0 < room)
    (start : Nat) : linesLeft size room [line + 1, start] < linesLeft size room [line] := by
  obtain ⟨r, rfl⟩ := Nat.exists_eq_succ_of_ne_zero (Nat.ne_of_gt hroom)
  have hpos : 0 < (size + 2) ^ r := Nat.pow_pos (Nat.succ_pos _)
  have hcallee : (size + 1 - start) * (size + 2) ^ r < (size + 2) ^ (r + 1) := by
    have hless : size + 1 - start < size + 2 := by omega
    rw [Nat.pow_succ, Nat.mul_comm (_ ^ r)]
    exact Nat.mul_lt_mul_of_pos_right hless hpos
  have hcaller : size + 1 - line = (size + 1 - (line + 1)) + 1 := by omega
  simp only [linesLeft, Nat.add_zero, Nat.succ_eq_add_one, Nat.add_sub_cancel]
  rw [hcaller, Nat.succ_mul]
  exact Nat.add_lt_add_left hcallee _

theorem linesLeft_back {size room line : Nat} (hline : line < size) (resume : Nat) :
    linesLeft size room [resume] < linesLeft size room [resume, line] := by
  have hpos : 0 < (size + 2) ^ (room - 1) := Nat.pow_pos (Nat.succ_pos _)
  have hleft : 0 < (size + 1 - line) * (size + 2) ^ (room - 1) :=
    Nat.mul_pos (by omega) hpos
  simp only [linesLeft, Nat.add_zero]
  exact Nat.lt_add_of_pos_right hleft

/-- The lines that are left to the active invocations. -/
def State.linesLeft (img : Image) (cfg : Config) (s : State) : Nat :=
  LineScript.linesLeft img.program.size cfg.maxCallDepth (s.returns.toList ++ [s.ip])

theorem Onward.linesLeft_lt (h : Onward cfg s s') (hip : s.ip < img.program.size) :
    s'.linesLeft img cfg < s.linesLeft img cfg ∨ s'.terminated = true := by
  cases h with
  | further returns lt =>
    left
    rw [State.linesLeft, State.linesLeft, returns]
    exact linesLeft_append_lt _ (linesLeft_further lt (Nat.le_of_lt hip))
  | call returns room =>
    left
    have hroom : 0 < cfg.maxCallDepth - s.returns.toList.length := by
      rw [Array.length_toList]
      exact Nat.sub_pos_of_lt room
    rw [State.linesLeft, State.linesLeft, returns, Array.toList_push, List.append_assoc]
    exact linesLeft_append_lt _ (linesLeft_call hip hroom s'.ip)
  | back returns =>
    left
    rw [State.linesLeft, State.linesLeft, returns, Array.toList_push, List.append_assoc]
    exact linesLeft_append_lt _ (linesLeft_back hip s'.ip)
  | stop terminated => exact .inr terminated

/-! ### Runs -/

/-- A run that may execute more lines than are left comes to an end. -/
theorem Machine.drive_ends {σ : Type} (con : Console σ) {fuel : Nat} (w : σ)
    (hloops : ∀ line, img.program.keyword? line ≠ some .endLoop)
    (h : s.linesLeft img cfg < fuel ∨ s.terminated = true) :
    (drive img cfg con fuel s w).ending ≠ .unfinished := by
  induction fuel generalizing s w with
  | zero =>
    have hend : s.terminated = true := h.resolve_left (Nat.not_lt_zero _)
    rw [drive_of_terminated hend]
    nofun
  | succ fuel ih =>
    by_cases hend : s.terminated = true
    · rw [drive_of_terminated hend]
      nofun
    · rcases hstep : (step img cfg s).run con w with ⟨⟨s₁, _ | cause⟩, w₁⟩
      · rw [drive_succ_of_ok hend hstep]
        obtain ⟨plan, hplan, -⟩ := step_eq_ok hstep
        have hless := (onward_of_step (hloops s.ip) hstep).linesLeft_lt (next_eq_ok hplan).1
        refine ih w₁ (hless.imp_left fun hless => ?_)
        exact Nat.lt_of_lt_of_le hless (Nat.le_of_lt_succ (h.resolve_right hend))
      · rw [drive_succ_of_error hend hstep]
        nofun

theorem State.linesLeft_start (img : Image) (cfg : Config) (line : Nat) :
    (State.start line).linesLeft img cfg < (img.program.size + 2) ^ (cfg.maxCallDepth + 1) := by
  have hpos : 0 < (img.program.size + 2) ^ cfg.maxCallDepth := Nat.pow_pos (Nat.succ_pos _)
  have hless : img.program.size + 1 - line < img.program.size + 2 := by omega
  calc (State.start line).linesLeft img cfg
    _ = (img.program.size + 1 - line) * (img.program.size + 2) ^ cfg.maxCallDepth := by
      simp [State.linesLeft, LineScript.linesLeft, State.start]
    _ < (img.program.size + 2) * (img.program.size + 2) ^ cfg.maxCallDepth :=
      Nat.mul_lt_mul_of_pos_right hless hpos
    _ = (img.program.size + 2) ^ (cfg.maxCallDepth + 1) := by rw [Nat.pow_succ, Nat.mul_comm]

/-- In a program in which no loop ends, every run, from whatever function and with whatever
console, is over after so many lines: it has finished, or a line has failed. -/
theorem run_ends_of_no_endLoop {σ : Type} (m : Machine) (con : Console σ) (w : σ)
    (hloops : ∀ line, m.image.program.keyword? line ≠ some .endLoop) {fuel : Nat}
    (hfuel : (m.image.program.size + 2) ^ (m.config.maxCallDepth + 1) ≤ fuel) :
    (m.run con fuel w).ending = .finished ∨
      ∃ failure, (m.run con fuel w).ending = .failed failure := by
  have hends : (m.run con fuel w).ending ≠ .unfinished := by
    cases hentry : m.entry with
    | ok s =>
      rw [Machine.run_of_entry hentry]
      obtain ⟨-, sig, -, -, rfl⟩ := Machine.exists_of_entry hentry
      have hleft := State.linesLeft_start m.image m.config sig.start
      exact Machine.drive_ends con w hloops (.inl (Nat.lt_of_lt_of_le hleft hfuel))
    | error failure =>
      rw [Machine.run_of_no_entry hentry]
      nofun
  cases hending : (m.run con fuel w).ending with
  | finished => exact .inl rfl
  | failed failure => exact .inr ⟨failure, rfl⟩
  | unfinished => exact absurd hending hends

/-- A function that calls itself twice, under a condition that always holds. -/
def recursiveProgram : Program := .ofLines [
  "func main void",
  "  if true",
  "    funccall main",
  "    funccall main",
  "  endif",
  "endfunc"]

/-- The calls go as deep as they may, and there the run ends. -/
theorem run_ends_of_no_endLoop_recursiveProgram :
    (∀ line, recursiveProgram.keyword? line ≠ some .endLoop) ∧
    (Machine.run ⟨.ofProgram recursiveProgram, { maxCallDepth := 2 }, {}⟩ Buffer.console 512
      {}).ending = .failed ⟨.callDepth 2, some 2⟩ := by
  have hlines : ∀ line < 6, recursiveProgram.keyword? line ≠ some .endLoop := by decide +kernel
  have hloops : ∀ line, recursiveProgram.keyword? line ≠ some .endLoop :=
    fun line hk => hlines line (Program.lt_size_of_keyword? hk) hk
  have hfuel : (recursiveProgram.size + 2) ^ (2 + 1) ≤ 512 := by decide +kernel
  refine ⟨hloops, ?_⟩
  rcases run_ends_of_no_endLoop ⟨.ofProgram recursiveProgram, { maxCallDepth := 2 }, {}⟩
    Buffer.console {} hloops hfuel with hend | ⟨failure, hend⟩
  · revert hend
    decide +kernel
  · decide +kernel

end LineScript
