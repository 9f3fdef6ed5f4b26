import DotMatrix.Proofs.InterruptService

/-!
# Programs

Neither the processor nor a device changes a byte of the cartridge, so what a machine fetches below
0x8000 is what its image holds there. A program is a cartridge that is blank but for some code at
the entry point. One program enters a loop with its second step, and no run of it leaves the loop.
-/

namespace DotMatrix

namespace Bus

variable {x : UInt16}

theorem get_write_rom (b : Bus) (a : UInt16) (v : UInt8) (hRom : x < Address.romEnd) :
    (b.write a v).store.get x = b.store.get x := by
  by_cases hSame : a = x
  · rw [write, if_pos (hSame ▸ hRom)]
  · have hBelow : x.toNat < 0x8000 := UInt16.lt_iff_toNat_lt.mp hRom
    exact b.get_write_of_ne v hSame (.inl (by omega))

theorem get_write_self (b : Bus) (v : UInt8) (hRom : ¬ x < Address.romEnd)
    (hDivider : x ≠ Address.divider) (hStatus : x ≠ Address.lcdStatus)
    (hDma : x ≠ Address.oamDma) : (b.write x v).store.get x = v := by
  rw [b.write_plain v hRom hDivider hStatus hDma]
  exact Store.get_set_self _ _ _

theorem get_writeAll_rom (b : Bus) (stores : List (UInt16 × UInt8)) (hRom : x < Address.romEnd) :
    (Memory.writeAll b stores).store.get x = b.store.get x := by
  refine Memory.writeAll_keeps (P := fun c : Bus => c.store.get x = b.store.get x) ?_ rfl
  intro c p _ hSame
  exact (c.get_write_rom p.1 p.2 hRom).trans hSame

end Bus

theorem Core.get_perform_rom (s : Core Bus) (w : Work) {x : UInt16} (hRom : x < Address.romEnd) :
    (s.perform w).2.memory.store.get x = s.memory.store.get x := by
  rw [memory_perform, Bus.get_writeAll_rom _ _ hRom]
  cases w with
  | idle => rfl
  | execute i => rfl
  | dispatch i => rw [accepted_dispatch, Bus.get_write_rom _ _ _ hRom]

namespace Machine

variable {m : Machine Bus} {w : Work} {image code : List UInt8} {options : Options} {x : UInt16}
variable {i : Instruction}

theorem read_step (hDisplay : m.display.InPhase) (hWork : m.core.work = .ok w)
    (h : x ∉ deviceBytes) : m.step.2.core.read x = (m.core.perform w).2.read x := by
  rw [step_of_work hWork]
  exact read_settle_of_ne hDisplay _ _ h

theorem read_rom_step (hDisplay : m.display.InPhase) (hRom : x < Address.romEnd) :
    m.step.2.core.read x = m.core.read x := by
  have hNone : x ∉ deviceBytes := by
    intro hDevice
    simp only [deviceBytes, List.mem_cons, List.not_mem_nil, or_false] at hDevice
    rcases hDevice with rfl | rfl | rfl | rfl | rfl
    all_goals exact absurd hRom (by decide)
  cases hWork : m.core.work with
  | error e => rw [step_of_work_error hWork]
  | ok w => exact (read_step hDisplay hWork hNone).trans (m.core.get_perform_rom w hRom)

theorem Reachable.read_rom (h : Reachable image options m) (hRom : x < Address.romEnd) :
    m.core.read x = image.getD x.toNat 0 := by
  induction h with
  | powerOn hImage =>
    obtain ⟨c, hCartridge, rfl⟩ := ofImage_eq_ok hImage
    obtain ⟨-, rfl⟩ := Cartridge.accepted_of_ofImage hCartridge
    have hBelow : x.toNat < 0x8000 := UInt16.lt_iff_toNat_lt.mp hRom
    have hMapped := Bus.get_ofImage image x
    rw [if_pos hBelow] at hMapped
    exact hMapped
  | step h ih => exact (read_rom_step h.consistent.display.inPhase hRom).trans ih

theorem Reachable.fetch_code {pc : UInt16} (h : Reachable image options m)
    (hBelow : pc.toNat + 2 < 0x8000)
    (hCode : Instruction.decodeAt (fun a => image.getD a.toNat 0) pc = .ok i) :
    Memory.fetch m.core.memory pc = .ok i := by
  have hRead (k : UInt16) (hk : k.toNat ≤ 2) :
      Memory.read m.core.memory (pc + k) = image.getD (pc + k).toNat 0 := by
    have hSum := UInt16.toNat_add pc k
    exact h.read_rom (UInt16.lt_iff_toNat_lt.mpr (by
      change (pc + k).toNat < 0x8000
      omega))
  have hFirst := hRead 0 (by decide)
  rw [UInt16.add_zero] at hFirst
  rw [Instruction.decodeAt_eq_ok_iff] at hCode
  rw [Memory.fetch, Instruction.decodeAt_eq_ok_iff, hFirst, hRead 1 (by decide),
    hRead 2 (by decide)]
  exact hCode

theorem cpu_powerOn (h : ofImage image options = .ok m) : m.core.cpu = Cpu.powerOn := by
  obtain ⟨c, -, rfl⟩ := ofImage_eq_ok h
  rfl

/-- Above the cartridge every byte starts out as zero. -/
theorem read_powerOn (h : ofImage image options = .ok m) (hAbove : ¬ x.toNat < 0x8000) :
    m.core.read x = 0 := by
  obtain ⟨c, -, rfl⟩ := ofImage_eq_ok h
  exact (Bus.get_ofImage c.image x).trans (if_neg hAbove)

/-- A step of known code. The devices may add requests to what the processor left. -/
theorem Reachable.step_code {c : Nat} (h : Reachable image options m) (i : Instruction)
    (cpu cpu₁ : Cpu) (store : Bus → Bus) (hCpu : m.core.cpu = cpu)
    (hRunning : cpu.activity = .running) (hIme : cpu.interrupts.ime = false)
    (hBelow : cpu.regs.pc.toNat + 2 < 0x8000)
    (hCode : Instruction.decodeAt (fun a => image.getD a.toNat 0) cpu.regs.pc = .ok i)
    (hRun : ∀ b : Bus, (⟨cpu, b⟩ : Core Bus).perform (.execute i) = (c, ⟨cpu₁, store b⟩)) :
    ∃ m₁, m.core.work = .ok (.execute i) ∧ m.step = (.ok c, m₁) ∧ Reachable image options m₁ ∧
      m₁.core.cpu = cpu₁ ∧
      (∀ a ∉ deviceBytes, m₁.core.read a = Memory.read (store m.core.memory) a) ∧
      ∀ k, Byte.bit (Memory.read (store m.core.memory) Address.interruptFlags) k = true →
        Byte.bit (m₁.core.read Address.interruptFlags) k = true := by
  have hDisplay := h.consistent.display.inPhase
  have hWork : m.core.work = .ok (.execute i) :=
    Core.work_execute (.inl (hCpu ▸ hRunning)) (hCpu ▸ hIme)
      (by rw [hCpu, h.fetch_code hBelow hCode])
  have hPerform : m.core.perform (.execute i) = (c, ⟨cpu₁, store m.core.memory⟩) := by
    rw [← hRun, ← hCpu]
  have hStep : m.step = (.ok c, m.settle ⟨cpu₁, store m.core.memory⟩ c) := by
    rw [step_of_work hWork, hPerform]
  have hReachable := h.step
  rw [hStep] at hReachable
  refine ⟨_, hWork, hStep, hReachable, rfl, ?_, ?_⟩
  · intro a ha
    exact read_settle_of_ne hDisplay _ _ ha
  · intro k hSet
    have hTimer := (m.timer.bit_flags_advance (store m.core.memory) c k).mpr (.inl hSet)
    have hDevices := (hDisplay.bit_flags_advance (m.timer.advance (store m.core.memory) c).2 c
      k).mpr (.inl hTimer)
    exact hDevices

/-- A cartridge that holds nothing but the checksum of its header. -/
def blankImage : List UInt8 :=
  List.replicate 0x14D 0 ++ 0xE7 :: List.replicate 0x7EB2 0

/-- A cartridge that is blank but for the code at the entry point. -/
def programmed (code : List UInt8) : List UInt8 :=
  List.replicate 0x100 0 ++ (code ++ blankImage.drop (0x100 + code.length))

def programOf (code : List UInt8) (options : Options) : Machine Bus :=
  powerOn (Header.ofImage (programmed code)) options
    (busOf ⟨Header.ofImage (programmed code), programmed code⟩ options)

/-- Code that ends before the header leaves the size as it is. -/
theorem length_programmed (hSize : code.length ≤ 0x34) : (programmed code).length = 0x8000 := by
  rw [programmed, blankImage, List.length_append, List.length_append, List.length_drop,
    List.length_append, List.length_cons, List.length_replicate, List.length_replicate,
    List.length_replicate]
  omega

theorem ofImage_programmed (hSize : code.length ≤ 0x34)
    (hChecksum : (Header.ofImage (programmed code)).checksum =
      Header.checksumOf (programmed code)) :
    ofImage (programmed code) options = .ok (programOf code options) := by
  have hLength : ¬ (programmed code).length < Cartridge.mappedSize := by
    rw [length_programmed hSize]
    decide
  have hAccepted : Cartridge.ofImage (programmed code) =
      .ok ⟨Header.ofImage (programmed code), programmed code⟩ := by
    simp only [Cartridge.ofImage, if_neg hLength, if_pos hChecksum]
  rw [ofImage, hAccepted, Except.map, programOf]

/-- Waits one cycle and jumps to itself from then on. -/
def loopCode : List UInt8 :=
  [0x00, 0xC3, 0x01, 0x01]

/-- The processor in the loop. -/
def looping : Cpu :=
  { Cpu.powerOn with regs := { Registers.powerOn with pc := 0x101 } }

theorem Reachable.step_loop (h : Reachable (programmed loopCode) options m)
    (hCpu : m.core.cpu = looping) :
    ∃ m₁, m.step = (.ok 4, m₁) ∧ Reachable (programmed loopCode) options m₁ ∧
      m₁.core.cpu = looping := by
  obtain ⟨m₁, -, hStep, h₁, hCpu₁, -⟩ :=
    h.step_code (.jump none 0x101) looping looping id hCpu rfl rfl (by decide)
      (Instruction.decodeAt_eq_ok_iff.mpr (by decide +kernel)) fun _ => rfl
  exact ⟨m₁, hStep, h₁, hCpu₁⟩

theorem Reachable.exists_loop_run (h : Reachable (programmed loopCode) options m)
    (hCpu : m.core.cpu = looping) (n : Nat) :
    ∃ m₁, Run m (List.replicate n 4) m₁ ∧ m₁.core.cpu = looping := by
  induction n generalizing m with
  | zero => exact ⟨m, .nil m, hCpu⟩
  | succ n ih =>
    obtain ⟨m₁, hStep, h₁, hCpu₁⟩ := h.step_loop hCpu
    obtain ⟨m₂, hRun, hCpu₂⟩ := ih h₁ hCpu₁
    exact ⟨m₂, .cons hStep hRun, hCpu₂⟩

/-- A run never leaves the loop, and each of its steps takes four cycles. -/
theorem Run.in_loop {costs : List Nat} {m₁ : Machine Bus} (hRun : Run m costs m₁)
    (h : Reachable (programmed loopCode) options m) (hCpu : m.core.cpu = looping) :
    m₁.cycles = m.cycles + 4 * costs.length ∧ m₁.core.cpu = looping := by
  induction hRun with
  | nil => exact ⟨rfl, hCpu⟩
  | @cons m m₁ m₂ c costs hStep hRest ih =>
    obtain ⟨next, hNext, h₁, hCpu₁⟩ := h.step_loop hCpu
    cases hNext.symm.trans hStep
    obtain ⟨hCycles, hCpu₂⟩ := ih h₁ hCpu₁
    have hFirst : m₁.cycles = m.cycles + [4].sum := (Run.cons hStep (.nil m₁)).cycles_eq
    rw [hCycles, hFirst, List.length_cons]
    exact ⟨by rw [List.sum_singleton]; omega, hCpu₂⟩

theorem sum_loop_costs (n : Nat) : (1 :: List.replicate n 4).sum = 1 + 4 * n := by
  rw [List.sum_cons, List.sum_replicate_nat, Nat.mul_comm]

theorem step_into_loop (hImage : ofImage (programmed loopCode) options = .ok m) :
    ∃ m₁, m.step = (.ok 1, m₁) ∧ Reachable (programmed loopCode) options m₁ ∧
      m₁.core.cpu = looping := by
  obtain ⟨m₁, -, hStep, h₁, hCpu₁, -⟩ :=
    (Reachable.powerOn hImage).step_code .nop Cpu.powerOn looping id (cpu_powerOn hImage) rfl rfl
      (by decide) (Instruction.decodeAt_eq_ok_iff.mpr (by decide +kernel)) fun _ => rfl
  exact ⟨m₁, hStep, h₁, hCpu₁⟩

/-- From power-on every run but the empty one leads into the loop. -/
theorem Run.into_loop {c : Nat} {costs : List Nat} {m₁ : Machine Bus}
    (hImage : ofImage (programmed loopCode) options = .ok m) (h : Run m (c :: costs) m₁) :
    m₁.core.cpu = looping := by
  obtain ⟨next, hNext, hReachable, hCpu⟩ := step_into_loop hImage
  cases h with
  | cons hStep hRest =>
    cases hNext.symm.trans hStep
    exact (hRest.in_loop hReachable hCpu).2

theorem exists_looping (n : Nat) :
    ∃ m₀ m, ofImage (programmed loopCode) .default = .ok m₀ ∧
      Run m₀ (1 :: List.replicate n 4) m ∧ Reachable (programmed loopCode) .default m ∧
      m.core.cpu = looping := by
  obtain ⟨m₀, hImage⟩ : ∃ m₀, ofImage (programmed loopCode) .default = .ok m₀ :=
    ⟨_, ofImage_programmed (by decide) (by decide +kernel)⟩
  obtain ⟨m₁, hStep, h₁, hCpu₁⟩ := step_into_loop hImage
  obtain ⟨m, hLoop, hCpu⟩ := h₁.exists_loop_run hCpu₁ n
  have hRun := Run.cons hStep hLoop
  exact ⟨m₀, m, hImage, hRun, hRun.reachable (.powerOn hImage), hCpu⟩

end Machine
end DotMatrix
