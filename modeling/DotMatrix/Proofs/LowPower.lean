import DotMatrix.Proofs.Calls
import DotMatrix.Proofs.InterruptEnable

/-!
# Low power

A processor that is halted or stopped waits behind the instruction that suspended it. It idles for
as long as nothing is pending, while the devices go on, and resumes with the first step that finds a
request, whether or not it serves interrupts. Where the vertical blank is enabled the wait is no
longer than a frame.
-/

namespace DotMatrix

/-- The instructions that suspend the processor. -/
def Instruction.Suspends (i : Instruction) : Prop :=
  i = .halt ∨ ∃ padding, i = .stop padding

namespace Core

theorem activity_finish {M : Type} (s : Core M) (enable : Bool) :
    (s.finish enable).cpu.activity = s.cpu.activity := by
  cases enable <;> rfl

theorem regs_finish {M : Type} (s : Core M) (enable : Bool) :
    (s.finish enable).cpu.regs = s.cpu.regs := by
  cases enable <;> rfl

variable {M : Type} [Memory M] {s : Core M} {i : Instruction}

theorem regs_wake (s : Core M) : s.wake.cpu.regs = s.cpu.regs := by
  unfold wake
  split <;> rfl

theorem suspends_of_execute (h : (s.execute i).cpu.activity ≠ s.cpu.activity) : i.Suspends := by
  rw [activity_execute] at h
  split at h
  next => exact .inl rfl
  next padding => exact .inr ⟨padding, rfl⟩
  next => exact absurd rfl h

theorem regs_execute_of_suspends (h : i.Suspends) : (s.execute i).cpu.regs = s.cpu.regs := by
  rcases h with rfl | ⟨padding, rfl⟩ <;> rfl

/-- The processor is suspended by two instructions only, and then stands behind them. -/
theorem suspends_of_perform (h : (s.perform (.execute i)).2.cpu.activity ≠ .running) :
    i.Suspends ∧
      (s.perform (.execute i)).2.cpu.regs.pc = s.cpu.regs.pc + UInt16.ofNat i.size := by
  have hRunning : (s.wake.prepare i).cpu.activity = .running := s.activity_wake
  rw [perform, run_eq, activity_finish, ← hRunning] at h
  have hSuspends := suspends_of_execute h
  refine ⟨hSuspends, ?_⟩
  rw [perform, run_eq, regs_finish, regs_execute_of_suspends hSuspends, ← s.regs_wake]
  rfl

theorem work_idle (h : s.Asleep) : s.work = .ok .idle := by
  rw [work, if_pos (idles_iff.mpr h)]

end Core

namespace Machine

variable {m : Machine Bus} {image : List UInt8} {options : Options} {w : Work} {d : Nat}

/-- A suspended processor has not changed since the instruction that suspended it. The induction is
on the steps from power-on: only that instruction leaves a processor suspended that was not. -/
theorem Reachable.exists_suspended (h : Reachable image options m)
    (hSuspended : m.core.cpu.activity ≠ .running) :
    ∃ m₀ i n, Reachable image options m₀ ∧ m₀.core.work = .ok (.execute i) ∧ i.Suspends ∧
      m = m₀.afterTicks (n + 1) ∧
      (∀ k ≤ n, (m₀.afterTicks (k + 1)).core.cpu = m.core.cpu) ∧
      m.core.cpu.regs.pc = m₀.core.cpu.regs.pc + UInt16.ofNat i.size := by
  induction h with
  | powerOn hImage =>
    obtain ⟨c, -, rfl⟩ := ofImage_eq_ok hImage
    exact absurd rfl hSuspended
  | @step m hReach ih =>
    cases hWork : m.core.work with
    | error e =>
      rw [step_of_work_error hWork] at hSuspended ⊢
      exact ih hSuspended
    | ok w =>
      have hCpu : m.step.2.core.cpu = (m.core.perform w).2.cpu := by
        rw [step_of_work hWork]
        rfl
      rw [hCpu] at hSuspended ⊢
      rcases Core.work_cases hWork with ⟨-, rfl⟩ | ⟨-, i, -, rfl⟩ | ⟨-, -, i, -, rfl⟩
      · obtain ⟨m₀, i, n, hBefore, hExecute, hSuspends, rfl, hSame, hPc⟩ := ih hSuspended
        refine ⟨m₀, i, n + 1, hBefore, hExecute, hSuspends, (m₀.afterTicks_succ (n + 1)).symm, ?_,
          hPc⟩
        intro k hk
        rcases Nat.lt_or_eq_of_le hk with hEarlier | rfl
        · exact hSame k (Nat.le_of_lt_succ hEarlier)
        · rw [afterTicks_succ]
          exact hCpu
      · exact absurd (Core.activity_wake _) hSuspended
      · obtain ⟨hSuspends, hPc⟩ := Core.suspends_of_perform hSuspended
        refine ⟨m, i, 0, hReach, hWork, hSuspends, rfl, ?_, hPc⟩
        intro k hk
        obtain rfl := Nat.le_zero.mp hk
        exact hCpu

/-- What an idle step leaves behind. -/
structure Waits (m m₁ : Machine Bus) : Prop where
  cpu : m₁.core.cpu = m.core.cpu
  others : ∀ a ∉ deviceBytes, m₁.core.read a = m.core.read a
  timer : m₁.timer = (m.timer.advance m.core.memory 1).1
  display : m₁.display = (m.display.advance (m.timer.advance m.core.memory 1).2 1).display
  cycles : m₁.cycles = m.cycles + 1
  trail : m₁.trail = m.trail

theorem waits_settle (hDisplay : m.display.InPhase) (h : m.core.cpu.activity ≠ .running) :
    m.Waits (m.settle m.core 1) := by
  refine ⟨rfl, ?_, rfl, rfl, rfl, ?_⟩
  · intro a ha
    exact read_settle_of_ne hDisplay _ _ ha
  · change (m.stepped m.core).trail = m.trail
    rw [stepped, if_neg (by rwa [beq_iff_eq])]

theorem step_asleep (h : m.core.Asleep) : m.step = (.ok 1, m.settle m.core 1) :=
  step_of_work (Core.work_idle h)

theorem tick_asleep (h : m.core.Asleep) : m.tick.2 = m.settle m.core 1 :=
  congrArg Prod.snd (step_asleep h)

theorem enable_asleep (hDisplay : m.display.InPhase) (h : m.core.Asleep) :
    Memory.read m.tick.2.core.memory Address.interruptEnable =
      Memory.read m.core.memory Address.interruptEnable := by
  rw [tick_asleep h]
  exact (waits_settle hDisplay h.1).others Address.interruptEnable (by decide)

/-- The idle step that reaches the vertical blank requests its interrupt. -/
theorem pending_of_blank (hConsistent : m.Consistent) (h : m.core.Asleep)
    (hEnabled : Byte.bit (Memory.read m.core.memory Address.interruptEnable) 0 = true)
    (hNext : IsLeast m.blanksAhead (m.cycles + 1)) : Memory.pending m.tick.2.core.memory ≠ 0 := by
  have hDisplay := hConsistent.display.inPhase
  have hEnters : m.Requests m.core.memory 1 .vblank :=
    (hConsistent.entersVBlank_iff hNext 1).mpr (Nat.le_refl _)
  have hFlags := (bit_flags_step hDisplay (step_asleep h) (Core.work_idle h)
    (fun p hp => nomatch hp) 0).mpr (.inr ⟨.vblank, rfl, hEnters⟩)
  rw [← tick_asleep h] at hFlags
  refine pending_ne_zero (j := .vblank) hFlags ?_
  rw [enable_asleep hDisplay h]
  exact hEnabled

/-- By induction on the cycles that are left to the next vertical blank. An idle step takes one of
them. -/
theorem exists_pending (hConsistent : m.Consistent)
    (hSuspended : m.core.cpu.activity ≠ .running)
    (hEnabled : Byte.bit (Memory.read m.core.memory Address.interruptEnable) 0 = true)
    (hNext : IsLeast m.blanksAhead (m.cycles + d)) :
    ∃ n ≤ d, (∀ k < n, (m.afterTicks k).core.Asleep) ∧
      Memory.pending (m.afterTicks n).core.memory ≠ 0 := by
  induction d generalizing m with
  | zero => exact absurd hNext.1.1 (Nat.lt_irrefl _)
  | succ d ih =>
    by_cases hNone : Memory.pending m.core.memory = 0
    · have hAsleep : m.core.Asleep := ⟨hSuspended, hNone⟩
      rcases Nat.eq_zero_or_pos d with rfl | hMore
      · refine ⟨1, Nat.le_refl 1, ?_, pending_of_blank hConsistent hAsleep hEnabled hNext⟩
        intro k hk
        obtain rfl := Nat.lt_one_iff.mp hk
        exact hAsleep
      · have hCpu : m.tick.2.core.cpu = m.core.cpu := by
          rw [tick_asleep hAsleep]
          rfl
        have hAhead : IsLeast m.tick.2.blanksAhead (m.tick.2.cycles + d) := by
          have hCycles : (m.settle m.core 1).cycles + d = m.cycles + (d + 1) := by
            change m.cycles + 1 + d = _
            omega
          rw [tick_asleep hAsleep, hCycles]
          exact isLeast_blank_settle hNext (by omega) m.core
        obtain ⟨n, hn, hWaits, hSome⟩ := ih hConsistent.tick (by rwa [hCpu])
          (by rwa [enable_asleep hConsistent.display.inPhase hAsleep]) hAhead
        exact ⟨n + 1, Nat.succ_le_succ hn, Nat.forall_lt_succ_left.mpr ⟨hAsleep, hWaits⟩, hSome⟩
    · exact ⟨0, Nat.zero_le _, fun k hk => absurd hk (Nat.not_lt_zero k), hNone⟩

/-- Enables every interrupt and halts. -/
def napCode : List UInt8 :=
  [0x3E, 0xFF, 0xE0, 0xFF, 0x76]

theorem exists_napping :
    ∃ m, Reachable (programmed napCode) .default m ∧
      m.core.cpu.activity = .halted ∧ m.core.read Address.interruptEnable = 0xFF := by
  have hStart : Reachable (programmed napCode) .default (programOf napCode .default) :=
    .powerOn (ofImage_programmed (by decide) (by decide +kernel))
  let loaded := { Cpu.powerOn with regs := { Registers.powerOn with a := 0xFF, pc := 0x102 } }
  let stored := { Cpu.powerOn with regs := { Registers.powerOn with a := 0xFF, pc := 0x104 } }
  let halted : Cpu :=
    { Cpu.powerOn with
      regs := { Registers.powerOn with a := 0xFF, pc := 0x105 }
      activity := .halted }
  obtain ⟨m₁, -, -, h₁, hCpu₁, -⟩ :=
    hStart.step_code (.loadByte (.reg .a) 0xFF) Cpu.powerOn loaded id rfl rfl rfl (by decide)
      (Instruction.decodeAt_eq_ok_iff.mpr (by decide +kernel)) fun b => rfl
  obtain ⟨m₂, -, -, h₂, hCpu₂, hStored, -⟩ :=
    h₁.step_code (.storeAHigh 0xFF) loaded stored (fun b => b.write 0xFFFF 0xFF) hCpu₁ rfl rfl
      (by decide) (Instruction.decodeAt_eq_ok_iff.mpr (by decide +kernel)) fun b => rfl
  obtain ⟨m₃, -, -, h₃, hCpu₃, hKept, -⟩ :=
    h₂.step_code .halt stored halted id hCpu₂ rfl rfl (by decide)
      (Instruction.decodeAt_eq_ok_iff.mpr (by decide +kernel)) fun b => rfl
  refine ⟨m₃, h₃, ?_, ?_⟩
  · rw [hCpu₃]
  · have hEnable : m₂.core.read Address.interruptEnable = 0xFF := by
      rw [hStored _ (by decide)]
      exact Bus.get_write_self _ 0xFF (by decide) (by decide) (by decide) (by decide)
    exact (hKept _ (by decide)).trans hEnable

/-- A suspended processor stands behind the instruction that suspended it. While nothing is pending
a step costs one cycle and moves the devices only. The first step with a request resumes: it
dispatches where interrupts are served, and else executes, or fails at an undefined op code. A
vertical blank that is enabled comes within a frame. -/
theorem Reachable.waits_for_interrupt (h : Reachable image options m)
    (hSuspended : m.core.cpu.activity ≠ .running) :
    (∃ m₀ i n, Reachable image options m₀ ∧ m₀.core.work = .ok (.execute i) ∧ i.Suspends ∧
      m = m₀.afterTicks (n + 1) ∧
      (∀ k ≤ n, (m₀.afterTicks (k + 1)).core.cpu = m.core.cpu) ∧
      m.core.cpu.regs.pc = m₀.core.cpu.regs.pc + UInt16.ofNat i.size) ∧
    (Memory.pending m.core.memory = 0 → ∃ m₁, m.step = (.ok 1, m₁) ∧ m.Waits m₁) ∧
    (Memory.pending m.core.memory ≠ 0 →
      (m.core.cpu.interrupts.ime = true →
        ∃ j, Interrupt.highestPriority? (Memory.pending m.core.memory) = some j ∧
          m.step = (.ok 5, m.settle (m.core.handling j) 5)) ∧
      (m.core.cpu.interrupts.ime = false →
        (∀ i, Memory.fetch m.core.memory m.core.cpu.regs.pc = .ok i →
          let c := i.cycles m.core.cpu.regs.f
          let core := (m.core.setActivity .running).run i
          m.step = (.ok c, m.settle core c) ∧
            ((∀ p ∈ m.core.stores (.execute i), p.1 ≠ Address.interruptFlags) → ∀ k,
              (Byte.bit ((m.settle core c).core.read Address.interruptFlags) k = true ↔
                Byte.bit (m.core.read Address.interruptFlags) k = true ∨
                  ∃ j : Interrupt, k = j.index ∧ m.Requests core.memory c j))) ∧
        ∀ e, Memory.fetch m.core.memory m.core.cpu.regs.pc = .error e →
          m.step = (.error { e with registers := some m.core.cpu.regs }, m))) ∧
    (Byte.bit (m.core.read Address.interruptEnable) 0 = true →
      ∃ n ≤ 17556, (∀ k < n, (m.afterTicks k).core.Asleep) ∧
        Memory.pending (m.afterTicks n).core.memory ≠ 0) := by
  have hConsistent := h.consistent
  have hDisplay := hConsistent.display.inPhase
  refine ⟨h.exists_suspended hSuspended, ?_, ?_, ?_⟩
  · intro hNone
    exact ⟨_, step_asleep ⟨hSuspended, hNone⟩, waits_settle hDisplay hSuspended⟩
  · intro hSome
    constructor
    · intro hIme
      cases hFirst : Interrupt.highestPriority? (Memory.pending m.core.memory) with
      | none =>
        rw [Interrupt.highestPriority?_eq_none_iff, Memory.pending_and_mask] at hFirst
        exact absurd hFirst hSome
      | some j =>
        refine ⟨j, rfl, ?_⟩
        rw [step_of_work (Core.work_dispatch hIme hFirst), Core.perform_dispatch]
    · intro hIme
      constructor
      · intro i hFetch c core
        have hWork := Core.work_execute (.inr hSome) hIme hFetch
        have hPerform : m.core.perform (.execute i) = (c, core) := by
          rw [Core.perform, Core.wake_eq]
        have hStep : m.step = (.ok c, m.settle core c) := by
          rw [step_of_work hWork, hPerform]
        refine ⟨hStep, fun hStores k => ?_⟩
        have hFlags := bit_flags_step hDisplay hStep hWork hStores k
        rw [hPerform] at hFlags
        refine hFlags.trans (or_congr_left (and_iff_left ?_))
        rintro ⟨j, hDispatch, -⟩
        cases hDispatch
      · intro e hFetch
        have hWork : m.core.work = .error e := by
          rw [Core.work_of_awake (.inr hSome) hIme, hFetch]
          rfl
        exact step_of_work_error hWork
  · intro hEnabled
    obtain ⟨n, hn, hWaits, hSome⟩ :=
      exists_pending hConsistent hSuspended hEnabled hConsistent.isLeast_blank
    exact ⟨n, Nat.le_trans hn hConsistent.cyclesToVBlank_le, hWaits, hSome⟩

theorem waits_for_interrupt_napping :
    ∃ m, Reachable (programmed napCode) .default m ∧ m.core.cpu.activity = .halted ∧
      ∃ n ≤ 17556, (∀ k < n, (m.afterTicks k).core.Asleep) ∧
        Memory.pending (m.afterTicks n).core.memory ≠ 0 := by
  obtain ⟨m, hReachable, hHalted, hEnable⟩ := exists_napping
  have hSuspended : m.core.cpu.activity ≠ .running := by
    rw [hHalted]
    decide
  obtain ⟨-, -, -, hWoken⟩ := hReachable.waits_for_interrupt hSuspended
  exact ⟨m, hReachable, hHalted, hWoken (by rw [hEnable]; decide)⟩

end Machine
end DotMatrix
