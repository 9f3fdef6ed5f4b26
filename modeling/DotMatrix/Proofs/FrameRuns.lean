import Mathlib.Order.Bounds.Basic
import DotMatrix.Proofs.Failures

/-!
# Runs of frames

Each frame ends at most five cycles behind the vertical blank it waits for, however many frames came
before it: the next one is counted from the blanks and not from where the last frame ended. A run of
frames fails exactly if a step that begins before the last of its blanks fails.
-/

namespace DotMatrix.Machine

/-- The last frame of a run. -/
theorem frames_succ {M : Type} [OnBus M] (m : Machine M) (n : Nat) :
    m.frames (n + 1) =
      match m.frames n with
      | (.error e, m) => (.error e, m)
      | (.ok _, m) => m.nextFrame := by
  induction n generalizing m with
  | zero =>
    change m.frames 1 = m.nextFrame
    rw [frames]
    rcases m.nextFrame with ⟨e | ⟨⟩, m₁⟩
    · rfl
    · rfl
  | succ n ih =>
    rw [frames, frames]
    rcases m.nextFrame with ⟨e | ⟨⟩, m₁⟩
    · rfl
    · exact ih m₁

variable {m m₁ m₂ start : Machine Bus} {costs costs₁ : List Nat} {boundary n : Nat}
variable {e e₁ : DecodeError}

theorem Run.append (h : Run m costs m₁) (hMore : Run m₁ costs₁ m₂) :
    Run m (costs ++ costs₁) m₂ := by
  induction h with
  | nil => exact hMore
  | cons hStep _ ih => exact .cons hStep (ih hMore)

/-- A run to a machine that fails leads through every machine that any run leads to. -/
theorem Run.to_failing (h : Run m costs m₁) (hFails : m₁.step = (.error e, m₁))
    (hOther : Run m costs₁ m₂) : ∃ rest, Run m₂ rest m₁ := by
  induction hOther generalizing costs with
  | nil => exact ⟨costs, h⟩
  | cons hStep _ ih =>
    cases h with
    | nil => cases hFails.symm.trans hStep
    | cons hFirst hRest =>
      cases hFirst.symm.trans hStep
      exact ih hRest

theorem Run.cycles_le (h : Run m costs m₁) : m.cycles ≤ m₁.cycles :=
  h.cycles_eq ▸ Nat.le_add_right _ _

/-- The count of cycles at which the `n`th vertical blank is entered, or at power-on. -/
def blankEntry : Nat → Nat
  | 0 => 0
  | n + 1 => 16416 + 17556 * n

/-- A step fails that begins before the `n`th vertical blank is entered. -/
def FailsBefore (m : Machine Bus) (n : Nat) (e : DecodeError) : Prop :=
  ∃ costs before, Run m costs before ∧ before.cycles < blankEntry n ∧
    before.step = (.error e, before)

theorem FailsBefore.undefined (h : m.FailsBefore n e) : e.opcode ∈ undefinedOpcodes := by
  obtain ⟨costs, before, -, -, hStep⟩ := h
  obtain ⟨-, rfl, hUndefined⟩ := Core.step_error (step_eq_error_iff.mp hStep).2
  exact hUndefined

/-- A machine runs into one failure only. -/
theorem FailsBefore.unique {k : Nat} (h : m.FailsBefore n e) (hOther : m.FailsBefore k e₁) :
    e = e₁ := by
  obtain ⟨costs, before, hRun, -, hStep⟩ := h
  obtain ⟨costs₁, before₁, hRun₁, -, hStep₁⟩ := hOther
  obtain ⟨rest, hRest⟩ := hRun.to_failing hStep hRun₁
  cases hRest with
  | nil =>
    cases hStep.symm.trans hStep₁
    rfl
  | cons hFirst _ => cases hStep₁.symm.trans hFirst

theorem FailsBefore.succ (h : m.FailsBefore n e) : m.FailsBefore (n + 1) e := by
  obtain ⟨costs, before, hRun, hBefore, hStep⟩ := h
  refine ⟨costs, before, hRun, Nat.lt_of_lt_of_le hBefore ?_, hStep⟩
  cases n with
  | zero => exact Nat.zero_le _
  | succ n => exact Nat.add_le_add_left (Nat.mul_le_mul_left _ (Nat.le_succ n)) _

/-- The machine `m` has come from `start` by `n` frames. -/
structure Framed (start : Machine Bus) (n : Nat) (m : Machine Bus) : Prop where
  run : ∃ costs, Run start costs m
  consistent : m.Consistent
  reached : blankEntry n ≤ m.cycles
  late : m.cycles ≤ blankEntry n + 5

theorem Framed.isLeast_blank (h : Framed start n m) :
    IsLeast m.blanksAhead (blankEntry (n + 1)) := by
  obtain ⟨-, -, hReached, hLate⟩ := h
  cases n with
  | zero =>
    simp only [blankEntry] at hLate ⊢
    refine ⟨⟨by omega, 0, rfl⟩, ?_⟩
    rintro b ⟨-, k, rfl⟩
    omega
  | succ n =>
    simp only [blankEntry] at hReached hLate ⊢
    refine ⟨⟨by omega, n + 1, rfl⟩, ?_⟩
    rintro b ⟨hAhead, k, rfl⟩
    omega

theorem Framed.not_failsBefore (h : Framed start n m) : ¬ start.FailsBefore n e := by
  rintro ⟨costs, before, hRun, hBefore, hStep⟩
  obtain ⟨costs₁, hRun₁⟩ := h.run
  obtain ⟨rest, hRest⟩ := hRun.to_failing hStep hRun₁
  have hReached := h.reached
  have hLater := hRest.cycles_le
  omega

/-- Behind the last of any frames the display is in its first blank line. -/
theorem Framed.at_vblank (h : Framed start n m) (hSome : 1 ≤ n) :
    m.display.phase = .vblank ∧ m.display.line = 144 ∧
      16416 + 17556 * (n - 1) ≤ m.cycles ∧ m.cycles ≤ 16416 + 17556 * (n - 1) + 5 := by
  obtain ⟨-, hConsistent, hReached, hLate⟩ := h
  obtain ⟨k, rfl⟩ := Nat.exists_eq_add_of_le' hSome
  obtain ⟨hPhase, hLine⟩ := hConsistent.shows_vblank ⟨k, rfl⟩ hReached hLate
  exact ⟨hPhase, hLine, hReached, hLate⟩

theorem Consistent.exists_nextFrame (h : m.Consistent) (hNext : IsLeast m.blanksAhead boundary) :
    ∃ costs before result after, Run m costs before ∧ before.cycles < boundary ∧
      before.FrameEnds boundary result after ∧ m.nextFrame = (result, after) := by
  obtain ⟨costs, before, result, after, hRun, hLength, hBefore, hEnd, hLoop⟩ :=
    h.exists_frameEnds hNext
  obtain rfl : boundary = m.cycles + m.display.cyclesToVBlank := hNext.unique h.isLeast_blank
  obtain ⟨k, hRounds⟩ : ∃ k, m.display.cyclesToVBlank = costs.length + 1 + k :=
    Nat.exists_eq_add_of_le (by omega)
  refine ⟨costs, before, result, after, hRun, hBefore, hEnd, ?_⟩
  rw [nextFrame, hRounds]
  exact hLoop k

/-- The next frame fails at a step before its blank, or is one more frame. -/
theorem Framed.nextFrame_cases (h : Framed start n m) :
    (∃ e m₁, start.FailsBefore (n + 1) e ∧ m.nextFrame = (.error e, m₁)) ∨
      ∃ m₁, m.nextFrame = (.ok (), m₁) ∧ Framed start (n + 1) m₁ := by
  obtain ⟨costs, hRun⟩ := h.run
  obtain ⟨costs₁, before, result, after, hFrame, hBefore, hEnd, hNext⟩ :=
    h.consistent.exists_nextFrame h.isLeast_blank
  have hSteps := hRun.append hFrame
  cases hEnd with
  | failed hCore =>
    exact .inl ⟨_, _, ⟨_, before, hSteps, hBefore, step_eq_error_iff.mpr ⟨rfl, hCore⟩⟩, hNext⟩
  | reached hStep hConsistent hReached hLate =>
    have hLast := hSteps.append (.cons hStep (.nil after))
    exact .inr ⟨after, hNext, ⟨_, hLast⟩, hConsistent, hReached, hLate⟩

theorem Framed.frames_cases (h : Framed m 0 m) (n : Nat) :
    (∃ e m₁, m.FailsBefore n e ∧ m.frames n = (.error e, m₁)) ∨
      ∃ m₁, m.frames n = (.ok (), m₁) ∧ Framed m n m₁ := by
  induction n with
  | zero => exact .inr ⟨m, rfl, h⟩
  | succ n ih =>
    rw [frames_succ]
    rcases ih with ⟨e, m₁, hFails, hFrames⟩ | ⟨m₁, hFrames, hFramed⟩
    · rw [hFrames]
      exact .inl ⟨e, m₁, hFails.succ, rfl⟩
    · rw [hFrames]
      exact hFramed.nextFrame_cases

theorem Framed.frames_eq_error_iff (h : Framed m 0 m) :
    (∃ m₁, m.frames n = (.error e, m₁)) ↔ m.FailsBefore n e := by
  rcases h.frames_cases n with ⟨e', m', hFails, hFrames⟩ | ⟨m', hFrames, hFramed⟩
  · constructor
    · rintro ⟨m₁, hError⟩
      cases hFrames.symm.trans hError
      exact hFails
    · intro hOther
      exact ⟨m', hFails.unique hOther ▸ hFrames⟩
  · constructor
    · rintro ⟨m₁, hError⟩
      cases hFrames.symm.trans hError
    · intro hFails
      exact absurd hFails hFramed.not_failsBefore

theorem Framed.frames_eq_ok (h : Framed m 0 m) (hSafe : ∀ e, ¬ m.FailsBefore n e) :
    ∃ m₁, m.frames n = (.ok (), m₁) ∧ Framed m n m₁ := by
  rcases h.frames_cases n with ⟨e, -, hFails, -⟩ | hFramed
  · exact absurd hFails (hSafe e)
  · exact hFramed

theorem framed_powerOn {image : List UInt8} {options : Options}
    (h : ofImage image options = .ok m) : Framed m 0 m := by
  have hConsistent := (Reachable.powerOn h).consistent
  obtain ⟨c, -, rfl⟩ := ofImage_eq_ok h
  exact ⟨⟨[], .nil _⟩, hConsistent, Nat.zero_le _, Nat.zero_le _⟩

/-- The frames are so many calls; after a failure the rest of them would change nothing. -/
theorem afterCalls_frames (m : Machine Bus) (n : Nat) :
    m.afterCalls (List.replicate n .nextFrame) = (m.frames n).2 := by
  induction n generalizing m with
  | zero => rfl
  | succ n ih =>
    rw [List.replicate_succ, afterCalls, frames]
    rcases hFrame : m.nextFrame with ⟨e | ⟨⟩, m₁⟩
    · obtain ⟨-, -, hStuck⟩ := exists_run_of_ticksToVBlank_error hFrame
      rw [call, hFrame]
      exact afterCalls_of_step_error hStuck _
    · rw [call, hFrame]
      exact ih m₁

end DotMatrix.Machine
