import DotMatrix.Proofs.Calls
import DotMatrix.Proofs.WrittenAddresses

/-!
# The clock of the divider

The divider and the cycles since its last step are one count of machine cycles. A write to the
divider, by whatever path, travels to the timer through the latch of the bus within the same step,
so the count starts over where that step begins.
-/

namespace DotMatrix

namespace Bus

theorem dividerReset_write (b : Bus) (a : UInt16) (v : UInt8) :
    (b.write a v).dividerReset = (b.dividerReset || decide (a = Address.divider)) := by
  unfold write
  split
  next hRom =>
    have hNe : a ≠ Address.divider := by
      rintro rfl
      exact absurd hRom (by decide)
    rw [decide_eq_false hNe, Bool.or_false]
  next =>
    split
    next hDivider => rw [decide_eq_true hDivider, Bool.or_true]
    next hNe =>
      rw [decide_eq_false hNe, Bool.or_false]
      split
      next => rfl
      next => split <;> rfl

theorem divider_write (b : Bus) (a : UInt16) (v : UInt8) :
    (b.write a v).store.get Address.divider =
      if a = Address.divider then 0 else b.store.get Address.divider := by
  split
  next hDivider =>
    subst hDivider
    exact Store.get_set_self _ _ _
  next hNe => exact b.get_write_of_ne v hNe (by decide)

end Bus

/-- Latch and divider tell from `b` on whether the divider is among the addresses written. -/
structure Journal.TellsDivider (b : Bus) (j : Journal Bus) : Prop where
  reset : j.memory.dividerReset = (b.dividerReset || decide (Address.divider ∈ j.written))
  value : j.memory.store.get Address.divider =
    if Address.divider ∈ j.written then 0 else b.store.get Address.divider

theorem Journal.TellsDivider.write {b : Bus} {j : Journal Bus} (h : j.TellsDivider b) (a : UInt16)
    (v : UInt8) : (Memory.write j a v).TellsDivider b := by
  obtain ⟨hReset, hValue⟩ := h
  have hWritten : Address.divider ∈ (Memory.write j a v).written ↔
      Address.divider ∈ j.written ∨ a = Address.divider := by
    change Address.divider ∈ j.written ++ [a] ↔ _
    rw [List.mem_append, List.mem_singleton, eq_comm (b := a)]
  constructor
  · change (j.memory.write a v).dividerReset = _
    rw [Bus.dividerReset_write, hReset, Bool.or_assoc, ← Bool.decide_or]
    simp only [hWritten]
  · change (j.memory.write a v).store.get Address.divider = _
    rw [Bus.divider_write, hValue]
    by_cases ha : a = Address.divider
    · rw [if_pos ha, if_pos (hWritten.mpr (.inr ha))]
    · simp only [hWritten, ha, or_false, if_false]

/-- A step sets the latch and clears the divider exactly if it writes to the divider, which a
journal of the step tells. -/
theorem Core.tellsDivider_step (s : Core Bus) :
    (Journal.mk s.step.2.memory s.written).TellsDivider s.memory := by
  have hStart : (s.map Journal.start).memory.TellsDivider s.memory := ⟨(Bool.or_false _).symm, rfl⟩
  have hStep := step_keeps (fun j a v (h : j.TellsDivider s.memory) => h.write a v) hStart
  have hMemory := congrArg (·.2.memory) (step_map Journal.hom_memory (s.map Journal.start))
  exact ⟨(congrArg Bus.dividerReset hMemory).trans hStep.reset,
    (congrArg (·.store.get Address.divider) hMemory).trans hStep.value⟩

theorem Core.writes_push (s : Core Bus) (pair : StackPair) :
    (s.writes (.execute (.push pair))).map Prod.fst = [s.cpu.regs.sp - 1, s.cpu.regs.sp - 2] := by
  change ((s.wake.prepare (.push pair)).storesPushed _).map Prod.fst = _
  rw [wake_eq]
  rfl

namespace Timer

/-- Divider and cycles since its last step are one count. -/
def dividerCount (t : Timer) (b : Bus) : Nat :=
  64 * (b.store.get Address.divider).toNat + t.sinceDivider

theorem dividerCount_ticks {t : Timer} (h : t.sinceDivider < 64) (b : Bus) (n : Nat) :
    (t.ticks b n).1.dividerCount (t.ticks b n).2 = (t.dividerCount b + n) % 16384 := by
  obtain ⟨hSince, hDivider⟩ := divider_ticks h b n
  rw [dividerCount, dividerCount, hSince, hDivider, UInt8.toNat_add, UInt8.toNat_ofNat']
  omega

theorem dividerCount_advance {t : Timer} (h : t.sinceDivider < 64) (b : Bus) (cycles : Nat) :
    (t.advance b cycles).1.dividerCount (t.advance b cycles).2 =
      ((if b.dividerReset then powerOn else t).dividerCount b + cycles) % 16384 := by
  rw [advance_eq, dividerCount_ticks]
  · rfl
  · split
    next => decide
    next => exact h

end Timer

namespace Machine

variable {m : Machine Bus} {image : List UInt8} {options : Options} {start : Nat}

/-- The processor writes to the divider in the next step. -/
def WritesDivider (m : Machine Bus) : Prop :=
  Address.divider ∈ m.core.written

theorem writesDivider_iff {w : Work} (hWork : m.core.work = .ok w) :
    m.WritesDivider ↔ Address.divider ∈ (m.core.writes w).map Prod.fst := by
  rw [WritesDivider, Core.written_eq hWork]

def dividerCount (m : Machine Bus) : Nat :=
  m.timer.dividerCount m.core.memory

/-- The count of the divider began with the cycle `start`. -/
structure CountsFrom (m : Machine Bus) (start : Nat) : Prop where
  start_le : start ≤ m.cycles
  count_eq : m.dividerCount = (m.cycles - start) % 16384
  latch_clear : m.core.memory.dividerReset = false

theorem dividerCount_settle (hConsistent : m.Consistent) (core : Core Bus) (c : Nat) :
    (m.settle core c).dividerCount =
      ((if core.memory.dividerReset then Timer.powerOn else m.timer).dividerCount core.memory + c) %
        16384 := by
  have hKept := hConsistent.display.inPhase.get_advance_of_ne (m.timer.advance core.memory c).2 c
    (a := Address.divider) (by decide) (by decide) (by decide)
  rw [← Timer.dividerCount_advance hConsistent.timer.sinceDivider_lt, Timer.dividerCount, ← hKept]
  rfl

theorem latch_settle (hConsistent : m.Consistent) (core : Core Bus) (c : Nat) :
    (m.settle core c).core.memory.dividerReset = false := by
  rw [memory_settle, hConsistent.display.inPhase.advance_eq, Bus.dividerReset_withStatus,
    Bus.dividerReset_addRequests, Timer.advance_eq, (Timer.latches_ticks _ _ _).1]
  rfl

theorem countsFrom_settle (hConsistent : m.Consistent) {core : Core Bus} (hStart : start ≤ m.cycles)
    (hLeft : (if core.memory.dividerReset then Timer.powerOn else m.timer).dividerCount
      core.memory = (m.cycles - start) % 16384) (c : Nat) :
    (m.settle core c).CountsFrom start where
  start_le := Nat.le_add_right_of_le hStart
  count_eq := by
    have hCycles : (m.settle core c).cycles = m.cycles + c := rfl
    rw [dividerCount_settle hConsistent, hLeft, hCycles, Nat.mod_add_mod,
      Nat.sub_add_comm hStart]
  latch_clear := latch_settle hConsistent core c

/-- A step that writes to the divider starts the count over from where it begins, any other step
continues it. A failing step writes nothing and takes no time. -/
theorem CountsFrom.step (h : m.CountsFrom start) (hConsistent : m.Consistent) :
    (m.WritesDivider → m.step.2.CountsFrom m.cycles) ∧
      (¬ m.WritesDivider → m.step.2.CountsFrom start) := by
  obtain ⟨hStart, hCount, hLatch⟩ := h
  cases hWork : m.core.work with
  | error e =>
    rw [step_of_work_error hWork]
    refine ⟨fun hWrites => ?_, fun _ => ⟨hStart, hCount, hLatch⟩⟩
    rw [WritesDivider, Core.written_of_error hWork] at hWrites
    cases hWrites
  | ok w =>
    rcases hPerform : m.core.perform w with ⟨c, core⟩
    have hCore : m.core.step = (.ok c, core) := Core.step_eq_ok_iff.mpr ⟨w, hWork, hPerform⟩
    have hStep : m.step.2 = m.settle core c := by rw [step_of_work hWork, hPerform]
    obtain ⟨hReset, hValue⟩ := m.core.tellsDivider_step
    simp only [hCore, hLatch, Bool.false_or] at hReset hValue
    rw [hStep]
    constructor
    · intro (hWrites : Address.divider ∈ m.core.written)
      refine countsFrom_settle hConsistent (Nat.le_refl _) ?_ c
      rw [hReset, decide_eq_true hWrites, if_pos rfl, Timer.dividerCount, hValue, if_pos hWrites,
        Nat.sub_self]
      rfl
    · intro (hQuiet : Address.divider ∉ m.core.written)
      refine countsFrom_settle hConsistent hStart ?_ c
      rw [hReset, decide_eq_false hQuiet, if_neg Bool.false_ne_true, ← hCount, dividerCount,
        Timer.dividerCount, hValue, if_neg hQuiet]
      rfl

/-- The count that stands after some steps began with the last of them that writes to the divider,
or with the first if none does. Each step starts it over or keeps its beginning. -/
theorem CountsFrom.afterTicks (h : m.CountsFrom m.cycles) (hReachable : Reachable image options m)
    (n : Nat) :
    (∃ k < n, (m.afterTicks k).WritesDivider ∧
        (∀ j < n, k < j → ¬ (m.afterTicks j).WritesDivider) ∧
        (m.afterTicks n).CountsFrom (m.afterTicks k).cycles) ∨
      ((∀ j < n, ¬ (m.afterTicks j).WritesDivider) ∧ (m.afterTicks n).CountsFrom m.cycles) := by
  induction n with
  | zero => exact .inr ⟨fun j hj => absurd hj (Nat.not_lt_zero j), h⟩
  | succ n ih =>
    rw [m.afterTicks_succ]
    have hNow := (hReachable.afterTicks n).consistent
    by_cases hWrites : (m.afterTicks n).WritesDivider
    · refine .inl ⟨n, Nat.lt_succ_self n, hWrites, fun j hj hLater => by omega, ?_⟩
      rcases ih with ⟨k, -, -, -, hCounts⟩ | ⟨-, hCounts⟩
      · exact (hCounts.step hNow).1 hWrites
      · exact (hCounts.step hNow).1 hWrites
    · rcases ih with ⟨k, hk, hLast, hQuiet, hCounts⟩ | ⟨hQuiet, hCounts⟩
      · refine .inl ⟨k, Nat.lt_succ_of_lt hk, hLast, ?_, (hCounts.step hNow).2 hWrites⟩
        exact Nat.forall_lt_succ_right.mpr ⟨hQuiet, fun _ => hWrites⟩
      · refine .inr ⟨?_, (hCounts.step hNow).2 hWrites⟩
        exact Nat.forall_lt_succ_right.mpr ⟨hQuiet, hWrites⟩

theorem countsFrom_powerOn (hImage : ofImage image options = .ok m) :
    m.cycles = 0 ∧ m.CountsFrom m.cycles := by
  have hDivider : m.core.memory.store.get Address.divider = 0 := read_powerOn hImage (by decide)
  obtain ⟨c, -, rfl⟩ := ofImage_eq_ok hImage
  refine ⟨rfl, Nat.le_refl _, ?_, rfl⟩
  rw [dividerCount, Timer.dividerCount, hDivider]
  rfl

/-- Along every run from power-on, divider and cycles since its last step count the cycles, modulo
16384, from the beginning of the last step that wrote to the divider, or from power-on. The latch is
clear between steps. -/
theorem divider_clock (hImage : ofImage image options = .ok m) (n : Nat) :
    let now := m.afterTicks n
    let count := 64 * (now.core.read Address.divider).toNat + now.timer.sinceDivider
    ((∃ k < n, (m.afterTicks k).WritesDivider ∧
        (∀ j < n, k < j → ¬ (m.afterTicks j).WritesDivider) ∧
        ∃ t, now.cycles = (m.afterTicks k).cycles + t ∧ count = t % 16384) ∨
      ((∀ j < n, ¬ (m.afterTicks j).WritesDivider) ∧ count = now.cycles % 16384)) ∧
    now.timer.sinceDivider < 64 ∧ now.core.memory.dividerReset = false := by
  intro now count
  have hReachable : Reachable image options m := .powerOn hImage
  have hTimer := (hReachable.afterTicks n).consistent.timer.sinceDivider_lt
  obtain ⟨hZero, hStart⟩ := countsFrom_powerOn hImage
  rcases hStart.afterTicks hReachable n with ⟨k, hk, hLast, hQuiet, hCounts⟩ | ⟨hQuiet, hCounts⟩
  · refine ⟨.inl ⟨k, hk, hLast, hQuiet, now.cycles - (m.afterTicks k).cycles, ?_, ?_⟩, hTimer,
      hCounts.latch_clear⟩
    · exact (Nat.add_sub_of_le hCounts.start_le).symm
    · exact hCounts.count_eq
  · refine ⟨.inr ⟨hQuiet, ?_⟩, hTimer, hCounts.latch_clear⟩
    have hCount := hCounts.count_eq
    rw [hZero] at hCount
    exact hCount

/-- Pushes over the divider and waits one cycle. -/
def pushCode : List UInt8 :=
  [0x31, 0x06, 0xFF, 0xC5, 0x00]

theorem divider_clock_pushCode :
    ∃ m, ofImage (programmed pushCode) .default = .ok m ∧ (m.afterTicks 1).WritesDivider ∧
      ¬ (m.afterTicks 2).WritesDivider ∧
      64 * ((m.afterTicks 3).core.read Address.divider).toNat +
        (m.afterTicks 3).timer.sinceDivider = 5 := by
  obtain ⟨m, hImage⟩ : ∃ m, ofImage (programmed pushCode) .default = .ok m :=
    ⟨_, ofImage_programmed (by decide) (by decide +kernel)⟩
  let loaded := { Cpu.powerOn with regs := { Registers.powerOn with sp := 0xFF06, pc := 0x103 } }
  let pushed := { loaded with regs := { loaded.regs with sp := loaded.regs.sp - 2, pc := 0x104 } }
  let waited := { pushed with regs := { pushed.regs with pc := 0x105 } }
  obtain ⟨m₁, -, hStep₁, h₁, hCpu₁, -⟩ :=
    Reachable.step_code (.powerOn hImage) (.loadWord .sp 0xFF06) Cpu.powerOn loaded id
      (cpu_powerOn hImage) rfl rfl (by decide)
      (Instruction.decodeAt_eq_ok_iff.mpr (by decide +kernel)) fun _ => rfl
  obtain ⟨m₂, hWork₁, hStep₂, h₂, hCpu₂, -⟩ :=
    h₁.step_code (.push .bc) loaded pushed
      (fun b => Memory.writeAll b ((⟨loaded, b⟩ : Core Bus).stores (.execute (.push .bc)))) hCpu₁
      rfl rfl (by decide) (Instruction.decodeAt_eq_ok_iff.mpr (by decide +kernel)) fun _ => rfl
  obtain ⟨m₃, hWork₂, hStep₃, -⟩ :=
    h₂.step_code .nop pushed waited id hCpu₂ rfl rfl (by decide)
      (Instruction.decodeAt_eq_ok_iff.mpr (by decide +kernel)) fun _ => rfl
  have hTicks₁ : m.afterTicks 1 = m₁ := congrArg Prod.snd hStep₁
  have hTicks₂ : m.afterTicks 2 = m₂ := by
    rw [m.afterTicks_succ, hTicks₁]
    exact congrArg Prod.snd hStep₂
  have hTicks₃ : m.afterTicks 3 = m₃ := by
    rw [m.afterTicks_succ, hTicks₂]
    exact congrArg Prod.snd hStep₃
  have hWrites : (m.afterTicks 1).WritesDivider := by
    have hLow : Address.divider = loaded.regs.sp - 2 := by decide
    rw [hTicks₁, writesDivider_iff hWork₁, Core.writes_push, hCpu₁, hLow]
    exact List.mem_cons_of_mem _ List.mem_cons_self
  have hQuiet : ¬ (m.afterTicks 2).WritesDivider := by
    rw [hTicks₂, writesDivider_iff hWork₂]
    exact List.not_mem_nil
  have hCycles : m₃.cycles = m₁.cycles + 5 :=
    (Run.cons hStep₂ (.cons hStep₃ (.nil m₃))).cycles_eq
  refine ⟨m, hImage, hWrites, hQuiet, ?_⟩
  obtain ⟨⟨k, hk, hLast, hAfter, t, hElapsed, hCount⟩ | ⟨hNever, -⟩, -⟩ := divider_clock hImage 3
  · have hFirst : k = 1 := by
      have hNot : k ≠ 2 := by
        rintro rfl
        exact hQuiet hLast
      have hLater : ¬ k < 1 := fun hBefore => hAfter 1 (by decide) hBefore hWrites
      omega
    rw [hFirst, hTicks₁, hTicks₃, hCycles] at hElapsed
    rw [hCount]
    omega
  · exact absurd hWrites (hNever 1 (by decide))

end Machine
end DotMatrix
