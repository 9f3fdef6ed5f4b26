import DotMatrix.Proofs.Calls

/-!
# Failures

A step fails exactly where it would execute and finds an undefined op code. It tells where it stood
and has no effect, so a machine that fails once fails for ever.
-/

namespace DotMatrix

namespace Core

variable {M : Type} [Memory M] {s : Core M}

theorem fetch_of_undefined (h : s.read s.cpu.regs.pc ∈ undefinedOpcodes) :
    Memory.fetch s.memory s.cpu.regs.pc = .error ⟨s.read s.cpu.regs.pc, s.cpu.regs.pc, none⟩ := by
  have hNone := (Instruction.ofBytes?_eq_none_iff (Memory.read s.memory s.cpu.regs.pc)
    (Memory.read s.memory (s.cpu.regs.pc + 1)) (Memory.read s.memory (s.cpu.regs.pc + 2))).mpr h
  rw [Memory.fetch, Instruction.decodeAt, hNone]
  rfl

theorem step_of_undefined (hUndefined : s.read s.cpu.regs.pc ∈ undefinedOpcodes)
    (hAwake : ¬ s.Asleep) (hNone : s.dispatchable? = none) :
    s.step = (.error ⟨s.read s.cpu.regs.pc, s.cpu.regs.pc, some s.cpu.regs⟩, s) := by
  have hFetch := fetch_of_undefined hUndefined
  rcases s.step_cases with ⟨hAsleep, -⟩ | ⟨-, i, hSome, -⟩ | ⟨-, -, i, hNext, -⟩ |
    ⟨-, -, e, hNext, hStep⟩
  · exact absurd hAsleep hAwake
  · cases hNone.symm.trans hSome
  · cases hFetch.symm.trans hNext
  · cases hFetch.symm.trans hNext
    exact hStep

/-- A step fails exactly if it neither idles nor dispatches and the op code is undefined. -/
theorem step_fails_iff :
    (∃ e s', s.step = (.error e, s')) ↔
      s.read s.cpu.regs.pc ∈ undefinedOpcodes ∧ ¬ s.Asleep ∧ s.dispatchable? = none := by
  constructor
  · rintro ⟨e, s', hError⟩
    obtain ⟨-, -, hUndefined⟩ := step_error hError
    rcases s.step_cases with ⟨-, hStep⟩ | ⟨-, i, -, hStep⟩ | ⟨-, -, i, -, hStep⟩ |
      ⟨hAwake, hNone, -⟩
    · cases hError.symm.trans hStep
    · cases hError.symm.trans hStep
    · cases hError.symm.trans hStep
    · exact ⟨hUndefined, hAwake, hNone⟩
  · rintro ⟨hUndefined, hAwake, hNone⟩
    exact ⟨_, _, step_of_undefined hUndefined hAwake hNone⟩

end Core

namespace Machine

variable {m m₁ : Machine Bus} {e : DecodeError}

theorem step_eq_error_iff :
    m.step = (.error e, m₁) ↔ m₁ = m ∧ m.core.step = (.error e, m.core) := by
  rw [step_eq]
  rcases m.tick_cases with ⟨core, c, hCore, hTick⟩ | ⟨e', hCore, hTick⟩
  · rw [hTick, hCore]
    constructor
    · intro h
      cases h
    · rintro ⟨-, h⟩
      cases h
  · rw [hTick, hCore]
    constructor
    · intro h
      cases h
      exact ⟨rfl, rfl⟩
    · rintro ⟨rfl, h⟩
      cases h
      rfl

theorem tick_of_step_error (h : m.step = (.error e, m₁)) : m.tick = (.error e, m) :=
  tick_eq_self (step_eq_error_iff.mp h).2

/-- Every later call fails in the same way. -/
theorem call_of_step_error (h : m.step = (.error e, m₁)) (c : Call) :
    m.call c = (.error e, m) := by
  obtain ⟨rfl, -⟩ := step_eq_error_iff.mp h
  cases c with
  | step => rw [call, h]; rfl
  | nextFrame =>
    have hFrame : m₁.nextFrame = (.error e, m₁) :=
      ticksToVBlank_of_error (tick_of_step_error h) _
    rw [call, hFrame]
    rfl

theorem afterCalls_of_step_error (h : m.step = (.error e, m₁)) (calls : List Call) :
    m.afterCalls calls = m := by
  induction calls with
  | nil => rfl
  | cons c calls ih =>
    rw [afterCalls, call_of_step_error h]
    exact ih

/-- A frame that fails ends where its steps first fail. -/
theorem exists_run_of_ticksToVBlank_error {n : Nat} (h : m.ticksToVBlank n = (.error e, m₁)) :
    ∃ costs, Run m costs m₁ ∧ m₁.step = (.error e, m₁) := by
  induction n generalizing m with
  | zero => cases h
  | succ n ih =>
    rcases m.tick_cases with ⟨core, c, -, hTick⟩ | ⟨e', hCore, hTick⟩
    · rw [ticksToVBlank, hTick] at h
      dsimp only at h
      split at h
      next => cases h
      next =>
        obtain ⟨costs, hRun, hLast⟩ := ih h
        exact ⟨c :: costs, .cons (step_of_tick hTick) hRun, hLast⟩
    · rw [ticksToVBlank_of_error hTick] at h
      cases h
      exact ⟨[], .nil _, step_eq_error_iff.mpr ⟨rfl, hCore⟩⟩

/-- A step of a processor fails exactly where it neither idles nor dispatches and the op code is
undefined. It tells the op code, its address and the registers, and changes nothing. The machine
around it changes nothing either, so whatever is called from then on fails with the same error. A
frame that fails keeps the steps before the one that fails. -/
theorem failure_without_effect :
    (∀ {M : Type} [Memory M] (s : Core M),
      ((∃ e s', s.step = (.error e, s')) ↔
        s.read s.cpu.regs.pc ∈ undefinedOpcodes ∧
          ¬ (s.cpu.activity ≠ .running ∧ Memory.pending s.memory = 0) ∧
          ¬ (s.cpu.interrupts.ime = true ∧ Memory.pending s.memory ≠ 0)) ∧
      ∀ e s', s.step = (.error e, s') →
        e = ⟨s.read s.cpu.regs.pc, s.cpu.regs.pc, some s.cpu.regs⟩ ∧ s' = s) ∧
    ∀ m : Machine Bus,
      (∀ e, (∃ m₁, m.step = (.error e, m₁)) ↔ m.core.step = (.error e, m.core)) ∧
      (∀ e m₁, m.step = (.error e, m₁) →
        m₁ = m ∧ ∀ calls c, (m₁.afterCalls calls).call c = (.error e, m)) ∧
      ∀ e m₁, m.nextFrame = (.error e, m₁) →
        (∃ costs, Run m costs m₁) ∧ m₁.step = (.error e, m₁) ∧
          ∀ calls c, (m₁.afterCalls calls).call c = (.error e, m₁) := by
  refine ⟨fun {M} _ s => ⟨?_, ?_⟩, fun m => ⟨?_, ?_, ?_⟩⟩
  · rw [Core.step_fails_iff, Core.dispatchable?_eq_none_iff]
    rfl
  · intro e s' hStep
    obtain ⟨hSame, hError, -⟩ := Core.step_error hStep
    exact ⟨hError, hSame⟩
  · intro e
    constructor
    · rintro ⟨m₁, hStep⟩
      exact (step_eq_error_iff.mp hStep).2
    · intro hCore
      exact ⟨m, step_eq_error_iff.mpr ⟨rfl, hCore⟩⟩
  · intro e m₁ hStep
    obtain ⟨rfl, -⟩ := step_eq_error_iff.mp hStep
    refine ⟨rfl, fun calls c => ?_⟩
    rw [afterCalls_of_step_error hStep, call_of_step_error hStep]
  · intro e m₁ hFrame
    obtain ⟨costs, hRun, hStep⟩ := exists_run_of_ticksToVBlank_error hFrame
    refine ⟨⟨costs, hRun⟩, hStep, fun calls c => ?_⟩
    rw [afterCalls_of_step_error hStep, call_of_step_error hStep]

end Machine
end DotMatrix
