import DotMatrix.Proofs.CheckedCore
import DotMatrix.Proofs.CheckedDevices
import DotMatrix.Proofs.Frames

/-!
# Checked steps

A step in which the processor, the devices and the count of cycles are all checked, on a bus whose
accesses are checked too. It is the plain step wherever a run from power-on can get.
-/

namespace DotMatrix.Machine

section

variable {M : Type} [OnBus M] {m : Machine M}

def advanceDevices? (m : Machine M) (cycles : Nat) : Option (Bool × Machine M) := do
  let (timer, memory) ← m.timer.advance? m.core.memory cycles
  let p ← m.display.advance? memory cycles
  let total ← Width.add? 64 m.cycles cycles
  some (p.enteredVBlank,
    { m with
      core.memory := p.memory
      timer := timer
      display := p.display
      cycles := total })

def tick? (m : Machine M) : Option (Except DecodeError Tick × Machine M) := do
  let m := m.announce
  match ← m.core.step? with
  | (.error e, core) =>
    some (.error e, { m with core := core.note (.stepFailed e m.trail.toList) })
  | (.ok cycles, core) =>
    let (vblank, m) ← (m.stepped core).advanceDevices? cycles
    some (.ok ⟨cycles, vblank⟩, m)

theorem announce_core (m : Machine M) : m.announce = { m with core := m.announce.core } := by
  unfold announce
  split
  next => split <;> rfl
  next => rfl

theorem advanceDevices?_eq {c : Nat} (hDisplay : m.display.InRange) (hTimer : m.timer.InRange)
    (hCost : c < 256) (hCycles : m.cycles + c < 2 ^ 64) :
    m.advanceDevices? c = some (m.advanceDevices c) := by
  simp only [advanceDevices?, hTimer.advance?_eq, hDisplay.advance?_eq _ hCost,
    Width.add?_eq hCycles, Option.bind_eq_bind, Option.bind_some]
  rfl

/-- No check fails in range. -/
theorem tick?_eq (hDisplay : m.display.InRange) (hTimer : m.timer.InRange)
    (hCycles : m.tick.2.cycles < 2 ^ 64) : m.tick? = some m.tick := by
  have hAnnounce := announce_core m
  rw [tick?, Core.step?_eq, Option.bind_eq_bind, Option.bind_some]
  rcases hCore : m.announce.core.step with ⟨e | c, core⟩
  · rw [tick_of_error hCore]
  · obtain ⟨-, hCost⟩ := Core.step_cost hCore
    rw [tick_of_ok hCore] at hCycles ⊢
    have hDevices := advanceDevices?_eq (m := m.announce.stepped core) (c := c)
      (by rw [hAnnounce]; exact hDisplay) (by rw [hAnnounce]; exact hTimer) (by omega) hCycles
    simp only [hDevices]
    rfl

end

variable {image : List UInt8} {options : Options} {m : Machine Bus}

/-- In every state that is reached from power-on the invariants hold, and the next step stays within
all widths and bounds. -/
theorem reachable_step_safe (h : Reachable image options m) :
    m.core.cpu.regs.f.toByte &&& 0x0F = 0 ∧
      m.display.dots < m.display.phase.budget ∧ m.display.line.toNat ≤ 153 ∧
      (m.display.phase = .vblank ↔ 144 ≤ m.display.line.toNat) ∧
      m.timer.sinceDivider < 64 ∧ m.timer.sinceCounter < 256 ∧
      (m.tick.2.cycles < 2 ^ 64 → (m.map some).tick? = some (m.tick.1, m.tick.2.map some)) := by
  obtain ⟨hDisplay, hTimer, -⟩ := h.consistent
  refine ⟨m.core.cpu.regs.f.toByte_low_nibble, hDisplay.dots_lt, hDisplay.line_le,
    hDisplay.vblank_iff, hTimer.sinceDivider_lt, hTimer.sinceCounter_lt, ?_⟩
  intro hCycles
  have hTick := tick_map Bus.some_hom m
  rw [← hTick]
  refine tick?_eq hDisplay hTimer ?_
  rw [hTick]
  exact hCycles

/-- The step of a loop that enters the vertical blank. -/
theorem reachable_step_safe_looping :
    ∃ m m₁, Reachable (programmed loopCode) .default m ∧ m.cycles = 16413 ∧
      m.tick.2.cycles < 2 ^ 64 ∧ m.tick = (.ok ⟨4, true⟩, m₁) ∧
      (m.map some).tick? = some (.ok ⟨4, true⟩, m₁.map some) := by
  obtain ⟨m₀, m, hImage, hRun, hReachable, hCpu⟩ := exists_looping 4103
  have hCycles : m.cycles = 16413 :=
    (hRun.cycles_from_powerOn hImage).trans (sum_loop_costs 4103)
  obtain ⟨m₁, hStep, -⟩ := hReachable.step_loop hCpu
  have hNext : m₁.cycles = m.cycles + [4].sum := (Run.cons hStep (.nil m₁)).cycles_eq
  rw [hCycles, List.sum_singleton] at hNext
  have hBlank : IsLeast m.blanksAhead 16416 := by
    refine ⟨⟨by omega, 0, rfl⟩, ?_⟩
    rintro b ⟨hAhead, k, rfl⟩
    omega
  have hTick : m.tick = (.ok ⟨4, true⟩, m₁) := by
    rcases hReachable.consistent.tick_cases hBlank with ⟨e, -, hTick⟩ | ⟨c, after, hTick, -⟩ |
      ⟨c, after, hTick, -, -, hAhead⟩
    · rw [step_eq, hTick] at hStep
      cases hStep
    · cases hStep.symm.trans (step_of_tick hTick)
      exact hTick
    · cases hStep.symm.trans (step_of_tick hTick)
      have hBefore := hAhead.1.1
      omega
  have hBound : m.tick.2.cycles < 2 ^ 64 := by
    rw [hTick, hNext]
    decide
  obtain ⟨-, -, -, -, -, -, hSafe⟩ := reachable_step_safe hReachable
  have hChecked := hSafe hBound
  rw [hTick] at hChecked
  exact ⟨m, m₁, hReachable, hCycles, hBound, hTick, hChecked⟩

end DotMatrix.Machine
