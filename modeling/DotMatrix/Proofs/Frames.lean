import Mathlib.Order.Bounds.Defs
import DotMatrix.Proofs.Programs

/-!
# Frames

The count of cycles tells where the display is in its frame. A frame ends with the step that reaches
the next vertical blank. There is always one ahead, at most 17556 cycles away, and every step comes
closer to it.
-/

namespace DotMatrix

namespace Display

/-- The dots that are left lead to the first dot of the vertical blank. -/
theorem InRange.position_add_dotsToVBlank {d : Display} (h : d.InRange) :
    (d.position + d.dotsToVBlank) % 70224 = 65664 ∧ 0 < d.dotsToVBlank ∧
      d.dotsToVBlank ≤ 70224 := by
  obtain ⟨hDots, hLine, hBlank⟩ := h
  have hVisibleLines : visibleLines.toNat = 144 := rfl
  have hVisible (h : d.line.toNat ≤ 143) :
      (visibleLines - 1 - d.line).toNat = 143 - d.line.toNat :=
    UInt8.toNat_sub_of_le (visibleLines - 1) d.line (UInt8.le_iff_toNat_le.mpr h)
  have hLast : (lastLine - d.line).toNat = 153 - d.line.toNat :=
    UInt8.toNat_sub_of_le lastLine d.line (UInt8.le_iff_toNat_le.mpr hLine)
  obtain ⟨phase, dots, line, raised⟩ := d
  simp only [position, dotsToVBlank, dotsToLineEnd, linesToVBlank, dotsPerLine, hVisibleLines,
    hLast] at *
  cases phase with
  | oamScan =>
    simp only [phaseStart, Phase.budget, reduceCtorEq, false_iff] at *
    rw [hVisible (by omega)]
    omega
  | drawing =>
    simp only [phaseStart, Phase.budget, reduceCtorEq, false_iff] at *
    rw [hVisible (by omega)]
    omega
  | hblank =>
    simp only [phaseStart, Phase.budget, reduceCtorEq, false_iff] at *
    rw [hVisible (by omega)]
    omega
  | vblank =>
    simp only [phaseStart, Phase.budget, true_iff] at *
    omega

theorem InRange.of_position {d : Display} (h : d.InRange) (hFirst : 65664 ≤ d.position)
    (hLast : d.position < 66120) : d.phase = .vblank ∧ d.line = 144 := by
  obtain ⟨hDots, hLine, hBlank⟩ := h
  have hStart : phaseStart d.phase + d.dots < 456 := by
    cases hPhase : d.phase
    all_goals
      rw [hPhase] at hDots
      simp only [phaseStart, Phase.budget] at hDots ⊢
      omega
  simp only [position, dotsPerLine] at hFirst hLast
  have h144 : d.line.toNat = 144 := by omega
  exact ⟨hBlank.mpr (by omega), UInt8.toNat_inj.mp h144⟩

end Display

namespace Machine

variable {m m₁ : Machine Bus} {image : List UInt8} {options : Options} {costs : List Nat}
variable {boundary c : Nat}

/-- No dot is lost or counted twice: the costs add up to the count of cycles, and four times that
count is the position of the display in its frames. -/
theorem run_from_powerOn (hImage : ofImage image options = .ok m) (h : Run m costs m₁) :
    m₁.cycles = costs.sum ∧ m₁.display.position = 4 * m₁.cycles % 70224 ∧
      (m₁.display.phase = .vblank ↔ 144 ≤ m₁.display.line.toNat) := by
  have hConsistent := (h.reachable (.powerOn hImage)).consistent
  exact ⟨h.cycles_from_powerOn hImage, hConsistent.position, hConsistent.display.vblank_iff⟩

/-- A loop that is out of step with the display, a cycle behind the first vertical blank. -/
theorem run_from_powerOn_looping :
    ∃ m₀ m, ofImage (programmed loopCode) .default = .ok m₀ ∧
      Run m₀ (1 :: List.replicate 4104 4) m ∧ m.cycles = 16417 ∧ m.display.position = 65668 ∧
      m.display.phase = .vblank := by
  obtain ⟨m₀, m, hImage, hRun, hReachable, -⟩ := exists_looping 4104
  obtain ⟨hCycles, hPosition, hBlank⟩ := run_from_powerOn hImage hRun
  rw [sum_loop_costs] at hCycles
  rw [hCycles] at hPosition
  have hLine : m.display.line = 144 :=
    (hReachable.consistent.display.of_position (by omega) (by omega)).2
  exact ⟨m₀, m, hImage, hRun, hCycles, hPosition, hBlank.mpr (by rw [hLine]; decide)⟩

/-- The counts of cycles at which the vertical blank is entered and that lie ahead. -/
def blanksAhead (m : Machine Bus) : Set Nat :=
  {b | m.cycles < b ∧ ∃ k, b = 16416 + 17556 * k}

theorem Consistent.isLeast_blank (h : m.Consistent) :
    IsLeast m.blanksAhead (m.cycles + m.display.cyclesToVBlank) := by
  obtain ⟨hPosition, hPos, hLe⟩ := h.display.position_add_dotsToVBlank
  rw [h.position] at hPosition
  simp only [Display.cyclesToVBlank, Display.dotsPerCycle]
  constructor
  · refine ⟨by omega, (4 * m.cycles + m.display.dotsToVBlank) / 70224, ?_⟩
    omega
  · rintro b ⟨hAhead, k, rfl⟩
    omega

theorem Consistent.cyclesToVBlank_le (h : m.Consistent) : m.display.cyclesToVBlank ≤ 17556 := by
  obtain ⟨-, -, hLe⟩ := h.display.position_add_dotsToVBlank
  simp only [Display.cyclesToVBlank, Display.dotsPerCycle]
  omega

/-- The vertical blank is entered by the cycles that reach the next boundary. -/
theorem Consistent.entersVBlank_iff (h : m.Consistent) (hNext : IsLeast m.blanksAhead boundary)
    (c : Nat) : m.display.EntersVBlank (4 * c) ↔ boundary ≤ m.cycles + c := by
  obtain ⟨⟨hAhead, k, rfl⟩, hLeast⟩ := hNext
  rw [h.display.entersVBlank_iff, h.position]
  constructor
  · rintro ⟨j, hPos, hLe, hEnd⟩
    have hBlank : (4 * m.cycles + j) / 4 ∈ m.blanksAhead :=
      ⟨by omega, (4 * m.cycles + j) / 70224, by omega⟩
    have := hLeast hBlank
    omega
  · intro hReach
    exact ⟨4 * (16416 + 17556 * k - m.cycles), by omega, by omega, by omega⟩

theorem isLeast_blank_settle (hNext : IsLeast m.blanksAhead boundary)
    (hBefore : m.cycles + c < boundary) (core : Core Bus) :
    IsLeast (m.settle core c).blanksAhead boundary := by
  obtain ⟨⟨-, hBlank⟩, hLeast⟩ := hNext
  refine ⟨⟨hBefore, hBlank⟩, ?_⟩
  rintro b ⟨hLater, hOther⟩
  have hCycles : (m.settle core c).cycles = m.cycles + c := rfl
  exact hLeast ⟨by omega, hOther⟩

/-- A step fails, or it reaches the boundary and the frame ends, or the boundary stays ahead. -/
theorem Consistent.tick_cases (h : m.Consistent) (hNext : IsLeast m.blanksAhead boundary) :
    (∃ e, m.core.step = (.error e, m.core) ∧ m.tick = (.error e, m)) ∨
    (∃ c m₁, m.tick = (.ok ⟨c, true⟩, m₁) ∧ m₁.Consistent ∧ boundary ≤ m₁.cycles ∧
      m₁.cycles ≤ boundary + 5) ∨
    (∃ c m₁, m.tick = (.ok ⟨c, false⟩, m₁) ∧ m₁.Consistent ∧ m.cycles < m₁.cycles ∧
      IsLeast m₁.blanksAhead boundary) := by
  rcases m.tick_cases with ⟨core, c, hCore, hTick⟩ | hError
  · obtain ⟨hPos, hLe⟩ := Core.step_cost hCore
    have hEnters := (h.display.inPhase.advance_enteredVBlank (m.timer.advance core.memory c).2
      c).trans (h.entersVBlank_iff hNext c)
    have hConsistent := h.settle core c
    have hAhead := hNext.1.1
    have hCycles : (m.settle core c).cycles = m.cycles + c := rfl
    refine .inr ?_
    cases hEntered : (m.display.advance (m.timer.advance core.memory c).2 c).enteredVBlank with
    | true =>
      rw [hEntered] at hTick hEnters
      have := hEnters.mp rfl
      exact .inl ⟨c, _, hTick, hConsistent, by omega, by omega⟩
    | false =>
      rw [hEntered] at hTick hEnters
      have hNot : ¬ boundary ≤ m.cycles + c := mt hEnters.mpr Bool.false_ne_true
      have hStill := isLeast_blank_settle hNext (Nat.lt_of_not_le hNot) core
      exact .inr ⟨c, _, hTick, hConsistent, by omega, hStill⟩
  · exact .inl hError

theorem step_of_tick {t : Tick} (h : m.tick = (.ok t, m₁)) : m.step = (.ok t.cycles, m₁) := by
  rw [step_eq, h]
  rfl

theorem Consistent.shows_vblank (h : m.Consistent) (hBlank : ∃ k, boundary = 16416 + 17556 * k)
    (hReached : boundary ≤ m.cycles) (hLate : m.cycles ≤ boundary + 5) :
    m.display.phase = .vblank ∧ m.display.line = 144 := by
  obtain ⟨k, rfl⟩ := hBlank
  have hPosition := h.position
  exact h.display.of_position (by omega) (by omega)

theorem ticksToVBlank_of_error {e : DecodeError} (h : m.tick = (.error e, m₁)) (n : Nat) :
    m.ticksToVBlank (n + 1) = (.error e, m₁) := by
  rw [ticksToVBlank, h]

theorem ticksToVBlank_of_entered (h : m.tick = (.ok ⟨c, true⟩, m₁)) (n : Nat) :
    m.ticksToVBlank (n + 1) = (.ok (), m₁) := by
  rw [ticksToVBlank, h]
  rfl

theorem ticksToVBlank_of_not_entered (h : m.tick = (.ok ⟨c, false⟩, m₁)) (n : Nat) :
    m.ticksToVBlank (n + 1) = m₁.ticksToVBlank n := by
  rw [ticksToVBlank, h]
  rfl

/-- How a frame can end at a step, with what it returns and leaves behind. -/
inductive FrameEnds (m : Machine Bus) (boundary : Nat) :
    Except DecodeError Unit → Machine Bus → Prop where
  | failed {e : DecodeError} : m.core.step = (.error e, m.core) → FrameEnds m boundary (.error e) m
  | reached {c : Nat} {m₁ : Machine Bus} : m.step = (.ok c, m₁) → m₁.Consistent →
      boundary ≤ m₁.cycles → m₁.cycles ≤ boundary + 5 → FrameEnds m boundary (.ok ()) m₁

/-- More rounds than there are steps before the last one do not change the loop. The cycles to the
boundary bound the steps, since each of them takes at least one. -/
theorem Consistent.exists_frameEnds (h : m.Consistent) (hNext : IsLeast m.blanksAhead boundary) :
    ∃ costs before result after, Run m costs before ∧ m.cycles + costs.length < boundary ∧
      before.cycles < boundary ∧ before.FrameEnds boundary result after ∧
      ∀ n, m.ticksToVBlank (costs.length + 1 + n) = (result, after) := by
  obtain ⟨rounds, hRounds⟩ : ∃ rounds, boundary ≤ m.cycles + rounds := ⟨boundary, by omega⟩
  induction rounds generalizing m with
  | zero =>
    obtain ⟨⟨hAhead, -⟩, -⟩ := hNext
    omega
  | succ rounds ih =>
    have hAhead := hNext.1.1
    rcases h.tick_cases hNext with ⟨e, hCore, hTick⟩ | ⟨c, after, hTick, hAfter, hReached, hLate⟩ |
      ⟨c, m₁, hTick, hConsistent, hLater, hNext₁⟩
    · refine ⟨[], m, _, _, .nil m, hAhead, hAhead, .failed hCore, ?_⟩
      intro n
      rw [List.length_nil, Nat.add_right_comm]
      exact ticksToVBlank_of_error hTick _
    · refine ⟨[], m, _, _, .nil m, hAhead, hAhead,
        .reached (step_of_tick hTick) hAfter hReached hLate, ?_⟩
      intro n
      rw [List.length_nil, Nat.add_right_comm]
      exact ticksToVBlank_of_entered hTick _
    · obtain ⟨costs, before, result, after, hRun, hLength, hBefore, hEnd, hLoop⟩ :=
        ih hConsistent hNext₁ (by omega)
      refine ⟨c :: costs, before, result, after, .cons (step_of_tick hTick) hRun, ?_, hBefore,
        hEnd, ?_⟩
      · rw [List.length_cons]
        omega
      · intro n
        rw [List.length_cons, Nat.add_right_comm, ticksToVBlank_of_not_entered hTick]
        exact hLoop n

/-- A frame takes at most 17556 steps. It fails at the first step that meets an undefined op code;
otherwise it ends with the first step that reaches the next vertical blank. -/
theorem nextFrame_outcome (h : Reachable image options m) :
    ∃ boundary costs before, IsLeast {b | m.cycles < b ∧ ∃ k, b = 16416 + 17556 * k} boundary ∧
      Run m costs before ∧ costs.length < 17556 ∧ before.cycles < boundary ∧
      (∀ n, costs.length < n → m.ticksToVBlank n = m.nextFrame) ∧
      ((∃ e, before.step = (.error e, before) ∧
          e.opcode = before.core.read before.core.cpu.regs.pc ∧ e.opcode ∈ undefinedOpcodes ∧
          m.nextFrame = (.error e, before)) ∨
        ∃ c after, before.step = (.ok c, after) ∧ boundary ≤ after.cycles ∧
          after.cycles ≤ boundary + 5 ∧ after.display.phase = .vblank ∧
          after.display.line = 144 ∧ m.nextFrame = (.ok (), after)) := by
  have hNext := h.consistent.isLeast_blank
  have hNear := h.consistent.cyclesToVBlank_le
  obtain ⟨costs, before, result, after, hRun, hLength, hBefore, hEnd, hLoop⟩ :=
    h.consistent.exists_frameEnds hNext
  have hRounds (n : Nat) (hn : costs.length < n) : m.ticksToVBlank n = (result, after) := by
    obtain ⟨k, rfl⟩ := Nat.exists_eq_add_of_le hn
    exact hLoop k
  have hFrame : m.nextFrame = (result, after) := hRounds _ (by omega)
  refine ⟨_, costs, before, hNext, hRun, by omega, hBefore, ?_, ?_⟩
  · intro n hn
    rw [hRounds n hn, hFrame]
  · cases hEnd with
    | failed hCore =>
      obtain ⟨-, rfl, hUndefined⟩ := Core.step_error hCore
      refine .inl ⟨_, ?_, rfl, hUndefined, hFrame⟩
      rw [step_eq, tick_eq_self hCore]
      rfl
    | reached hStep hAfter hReached hLate =>
      obtain ⟨hPhase, hLine⟩ := hAfter.shows_vblank hNext.1.2 hReached hLate
      exact .inr ⟨_, _, hStep, hReached, hLate, hPhase, hLine, hFrame⟩

/-- The frame of a loop that is out of step with the vertical blank. -/
theorem nextFrame_outcome_looping :
    ∃ m after, Reachable (programmed loopCode) .default m ∧ m.cycles = 17 ∧
      m.nextFrame = (.ok (), after) ∧ after.cycles = 16417 ∧ after.display.phase = .vblank ∧
      after.display.line = 144 := by
  obtain ⟨m₀, m, hImage, hStart, hReachable, hCpu⟩ := exists_looping 4
  have hCycles : m.cycles = 17 := hStart.cycles_from_powerOn hImage
  obtain ⟨boundary, costs, before, hNext, hRun, -, hBefore, -, hEnd⟩ := nextFrame_outcome hReachable
  have hBoundary : boundary = 16416 := by
    have hLe : boundary ≤ 16416 := hNext.2 ⟨by rw [hCycles]; decide, 0, rfl⟩
    obtain ⟨-, k, hk⟩ := hNext.1
    omega
  obtain ⟨hLoop, hStill⟩ := hRun.in_loop hReachable hCpu
  obtain ⟨after, hStep, -⟩ := (hRun.reachable hReachable).step_loop hStill
  rcases hEnd with ⟨e, hError, -⟩ | ⟨c, m₁, hLast, hReached, -, hPhase, hLine, hFrame⟩
  · cases hStep.symm.trans hError
  · cases hStep.symm.trans hLast
    have hAfter : after.cycles = before.cycles + [4].sum := (Run.cons hStep (.nil after)).cycles_eq
    rw [List.sum_singleton] at hAfter
    exact ⟨m, after, hReachable, hCycles, hFrame, by omega, hPhase, hLine⟩

end Machine
end DotMatrix
