import DotMatrix.Cpu.Step

/-!
# What a step of the processor can be

`step_cases` says everything that a step can do. A step takes between one and six machine cycles,
and it fails only at one of eleven op codes, without any effect.
-/

namespace DotMatrix

/-- The first bytes that no instruction has. -/
def undefinedOpcodes : List UInt8 :=
  [0xD3, 0xDB, 0xDD, 0xE3, 0xE4, 0xEB, 0xEC, 0xED, 0xF4, 0xFC, 0xFD]

def Cell.isEmpty : Cell → Bool
  | empty => true
  | _ => false

theorem Cell.fill_eq_none_iff (c : Cell) (second third : UInt8) :
    c.fill second third = none ↔ c.isEmpty = true := by
  cases c <;> simp [fill, isEmpty]

theorem OpcodeMap.cells_map_isEmpty :
    cells.map Cell.isEmpty =
      (List.finRange 256).map fun n => decide (UInt8.ofNat n.val ∈ undefinedOpcodes) := by
  decide +kernel

namespace Instruction

theorem ofBytes?_eq_none_iff (first second third : UInt8) :
    ofBytes? first second third = none ↔ first ∈ undefinedOpcodes := by
  have hCell := OpcodeMap.cell_of_map_eq (f := fun b => decide (b ∈ undefinedOpcodes))
    OpcodeMap.cells_map_isEmpty first
  rw [ofBytes?, Cell.fill_eq_none_iff, hCell, decide_eq_true_iff]

theorem decodeAt_eq_error {read : UInt16 → UInt8} {pc : UInt16} {e : DecodeError}
    (h : decodeAt read pc = .error e) : e = ⟨read pc, pc, none⟩ ∧ read pc ∈ undefinedOpcodes := by
  unfold decodeAt at h
  split at h
  next => cases h
  next hNone =>
    cases h
    exact ⟨rfl, (ofBytes?_eq_none_iff _ _ _).mp hNone⟩

end Instruction

theorem Memory.pending_and_mask {M : Type} [Memory M] (m : M) :
    Memory.pending m &&& 0x1F = Memory.pending m := by
  rw [Memory.pending, UInt8.and_assoc]
  rfl

namespace Core

variable {M : Type} [Memory M]

theorem dispatchable?_eq_none_iff {s : Core M} :
    s.dispatchable? = none ↔
      ¬ (s.cpu.interrupts.ime = true ∧ Memory.pending s.memory ≠ 0) := by
  unfold dispatchable?
  split
  next hIme =>
    rw [Interrupt.highestPriority?_eq_none_iff, Memory.pending_and_mask, hIme]
    simp
  next hIme => exact iff_of_true rfl fun h => hIme h.1

/-- A halted or stopped processor that no interrupt wakes. -/
def Asleep (s : Core M) : Prop :=
  s.cpu.activity ≠ .running ∧ Memory.pending s.memory = 0

theorem idles_iff {s : Core M} :
    (s.cpu.activity != .running && Memory.pending s.memory == 0) = true ↔ s.Asleep := by
  simp [Asleep]

/-- What the next step does with the processor. -/
theorem step_cases (s : Core M) :
    (s.Asleep ∧ s.step = (.ok 1, s)) ∨
    (¬ s.Asleep ∧ ∃ i, s.dispatchable? = some i ∧
      s.step = (.ok dispatchCycles, (s.enterHandler i).wake)) ∨
    (¬ s.Asleep ∧ s.dispatchable? = none ∧
      ∃ i, Memory.fetch s.memory s.cpu.regs.pc = .ok i ∧
        s.step = (.ok (i.cycles s.cpu.regs.f), s.wake.run i)) ∨
    (¬ s.Asleep ∧ s.dispatchable? = none ∧
      ∃ e, Memory.fetch s.memory s.cpu.regs.pc = .error e ∧
        s.step = (.error { e with registers := some s.cpu.regs }, s)) := by
  unfold step
  split
  next h => exact .inl ⟨idles_iff.mp h, rfl⟩
  next h =>
    have hAwake : ¬ s.Asleep := mt idles_iff.mpr h
    split
    next i hSome => exact .inr (.inl ⟨hAwake, i, hSome, rfl⟩)
    next hNone =>
      split
      next e hFetch => exact .inr (.inr (.inr ⟨hAwake, hNone, e, hFetch, rfl⟩))
      next i hFetch => exact .inr (.inr (.inl ⟨hAwake, hNone, i, hFetch, rfl⟩))

theorem step_cost {s s' : Core M} {c : Nat} (h : s.step = (.ok c, s')) : 1 ≤ c ∧ c ≤ 6 := by
  rcases s.step_cases with ⟨-, hEq⟩ | ⟨-, i, -, hEq⟩ | ⟨-, -, i, -, hEq⟩ | ⟨-, -, e, -, hEq⟩
  all_goals rw [h] at hEq; cases hEq
  · decide
  · decide
  · exact ⟨i.cycles_pos _, i.cycles_le_six _⟩

/-- A failing step meets an undefined op code, reports where, and changes nothing. -/
theorem step_error {s s' : Core M} {e : DecodeError} (h : s.step = (.error e, s')) :
    s' = s ∧ e = ⟨s.read s.cpu.regs.pc, s.cpu.regs.pc, some s.cpu.regs⟩ ∧
      s.read s.cpu.regs.pc ∈ undefinedOpcodes := by
  rcases s.step_cases with ⟨-, hEq⟩ | ⟨-, i, -, hEq⟩ | ⟨-, -, i, -, hEq⟩ | ⟨-, -, e, hFetch, hEq⟩
  all_goals rw [h] at hEq; cases hEq
  obtain ⟨rfl, hUndefined⟩ := Instruction.decodeAt_eq_error hFetch
  exact ⟨rfl, rfl, hUndefined⟩

/-- Takes back the request of the interrupt. -/
def acknowledge (s : Core M) (i : Interrupt) : Core M :=
  { s with memory := Memory.update s.memory Address.interruptFlags (· &&& ~~~i.mask) }

theorem enterHandler_eq (s : Core M) (i : Interrupt) :
    s.enterHandler i =
      ((((s.note (.dispatching i s.cpu.regs.pc)).acknowledge i).push s.cpu.regs.pc).setPC
        i.vector).setInterrupts ⟨false, false⟩ := rfl

/-- What happens to the processor between fetching an instruction and executing it. -/
def prepare (s : Core M) (i : Instruction) : Core M :=
  { s with
    cpu.interrupts.scheduled := false
    cpu.regs.pc := s.cpu.regs.pc + UInt16.ofNat i.size }

/-- A scheduled enable takes effect. -/
def finish (s : Core M) (enable : Bool) : Core M :=
  if enable then { s with cpu.interrupts.ime := true } else s

theorem run_eq (s : Core M) (i : Instruction) :
    s.run i = ((s.prepare i).execute i).finish (s.cpu.interrupts.scheduled && i != .di) := rfl

end Core
end DotMatrix
