import DotMatrix.Proofs.InterruptService

/-!
# Dispatching an interrupt

An interrupt is dispatched exactly when the master enable is set and a request is enabled. The
lowest pending bit wins: its request is taken back, the program counter is pushed, and the handler
is entered with interrupts disabled. Nothing else changes, and a step either does just this or no
dispatch at all.
-/

namespace DotMatrix

/-- The lowest bit that is set. -/
def Byte.IsLowest (b : UInt8) (k : Fin 8) : Prop :=
  bit b k = true ∧ ∀ j < k, bit b j = false

namespace Interrupt

theorem exists_of_index_lt {k : Nat} (h : k < 5) : ∃ i : Interrupt, i.index = k := by
  match k, h with
  | 0, _ => exact ⟨.vblank, rfl⟩
  | 1, _ => exact ⟨.lcd, rfl⟩
  | 2, _ => exact ⟨.timer, rfl⟩
  | 3, _ => exact ⟨.serial, rfl⟩
  | 4, _ => exact ⟨.joypad, rfl⟩

/-- Below the source that is chosen there is none that is pending: it would stand in front. -/
theorem bit_of_lt_highestPriority? {bits : UInt8} {i : Interrupt} {j : Nat}
    (h : highestPriority? bits = some i) (hj : j < i.index) : Byte.bit bits j = false := by
  have hIndex := i.index_lt
  obtain ⟨first, rfl⟩ := exists_of_index_lt (k := j) (by omega)
  have hHead := (highestPriority?_eq_head? bits).symm.trans h
  obtain ⟨rest, hSources⟩ := List.head?_eq_some_iff.mp hHead
  have hPairwise := sources_pairwise bits
  rw [hSources, List.pairwise_cons] at hPairwise
  have hBehind := hPairwise.1
  rw [← Bool.not_eq_true, ← mem_sources_iff, hSources, List.mem_cons]
  rintro (rfl | hLater)
  · exact Nat.lt_irrefl _ hj
  · exact Nat.lt_asymm hj (hBehind first hLater)

/-- The bit of the source in the bitmaps. -/
def position (i : Interrupt) : Fin 8 :=
  ⟨i.index, Nat.lt_trans i.index_lt (by decide)⟩

theorem isLowest_position {bits : UInt8} {i : Interrupt} (h : highestPriority? bits = some i) :
    Byte.IsLowest bits i.position :=
  ⟨bit_of_highestPriority? h, fun _ hj => bit_of_lt_highestPriority? h hj⟩

end Interrupt

namespace Core

variable {s t : Core Bus} {i : Interrupt}

/-- The core behind the dispatch of the request in bit `k`. -/
structure Dispatched (s : Core Bus) (k : Fin 8) (t : Core Bus) : Prop where
  cpu : t.cpu =
    { s.cpu with
      regs := { s.cpu.regs with pc := UInt16.ofNat (0x40 + 8 * k), sp := s.cpu.regs.sp - 2 }
      interrupts := ⟨false, false⟩ }
  memory : t.memory =
    ({ s.memory with
        store := s.memory.store.set 0xFF0F (s.read 0xFF0F &&& ~~~Byte.single k) }.write
      (s.cpu.regs.sp - 1) (Word.high s.cpu.regs.pc)).write
      (s.cpu.regs.sp - 2) (Word.low s.cpu.regs.pc)
  flags : s.cpu.regs.sp - 1 ≠ 0xFF0F → s.cpu.regs.sp - 2 ≠ 0xFF0F →
    ∀ j, Byte.bit (t.read 0xFF0F) j = (Byte.bit (s.read 0xFF0F) j && decide (j ≠ k))

theorem memory_enterHandler (s : Core Bus) (i : Interrupt) :
    (s.enterHandler i).memory =
      ({ s.memory with
          store := s.memory.store.set 0xFF0F (s.read 0xFF0F &&& ~~~i.mask) }.write
        (s.cpu.regs.sp - 1) (Word.high s.cpu.regs.pc)).write
        (s.cpu.regs.sp - 2) (Word.low s.cpu.regs.pc) := by
  have hCleared := s.memory.write_plain (a := Address.interruptFlags)
    (s.read Address.interruptFlags &&& ~~~i.mask) (by decide) (by decide) (by decide) (by decide)
  exact congrArg (fun b : Bus => (b.write (s.cpu.regs.sp - 1) (Word.high s.cpu.regs.pc)).write
    (s.cpu.regs.sp - 2) (Word.low s.cpu.regs.pc)) hCleared

theorem dispatched_enterHandler (s : Core Bus) (i : Interrupt) :
    s.Dispatched i.position (s.enterHandler i) where
  cpu := rfl
  memory := s.memory_enterHandler i
  flags := by
    intro hHigh hLow j
    change Byte.bit ((s.enterHandler i).memory.store.get 0xFF0F) j = _
    rw [memory_enterHandler, Bus.get_write_of_ne _ _ hLow (.inr (by decide)),
      Bus.get_write_of_ne _ _ hHigh (.inr (by decide)), Store.get_set_self, Byte.bit_and_not,
      Interrupt.bit_mask, decide_not]
    rfl

theorem dispatch_eq_true_iff :
    s.dispatch.1 = true ↔ s.cpu.interrupts.ime = true ∧ Memory.pending s.memory ≠ 0 := by
  rw [← not_iff_not, Bool.not_eq_true, ← dispatchable?_eq_none_iff, dispatch]
  cases s.dispatchable? <;> simp

theorem dispatchable_of_dispatch (h : s.dispatch.1 = true) : ∃ i,
    Interrupt.highestPriority? (Memory.pending s.memory) = some i ∧
      s.dispatch.2 = s.enterHandler i := by
  obtain ⟨hIme, hPending⟩ := dispatch_eq_true_iff.mp h
  cases hSome : s.dispatchable? with
  | none => exact absurd ⟨hIme, hPending⟩ (dispatchable?_eq_none_iff.mp hSome)
  | some i =>
    refine ⟨i, ?_, ?_⟩
    · rw [dispatchable?, if_pos hIme] at hSome
      exact hSome
    · rw [dispatch, hSome]

theorem dispatchable_of_not_dispatch (h : s.dispatch.1 = false) :
    s.dispatchable? = none ∧ s.dispatch.2 = s := by
  have hNone : s.dispatchable? = none :=
    dispatchable?_eq_none_iff.mpr (mt dispatch_eq_true_iff.mpr (Bool.eq_false_iff.mp h))
  refine ⟨hNone, ?_⟩
  rw [dispatch, hNone]

theorem step_of_dispatch (h : s.dispatch.1 = true) :
    s.step = (.ok 5, { s.dispatch.2 with cpu.activity := .running }) := by
  obtain ⟨hIme, -⟩ := dispatch_eq_true_iff.mp h
  obtain ⟨i, hFirst, hDispatch⟩ := dispatchable_of_dispatch h
  have hStep := step_eq_ok_iff.mpr ⟨_, work_dispatch hIme hFirst, rfl⟩
  rw [hStep, hDispatch, wake_eq]
  rfl

/-- A step without a dispatch is idle, runs the instruction at the program counter, or fails. -/
theorem step_of_not_dispatch (h : s.dispatch.1 = false) :
    s.step = (.ok 1, s) ∨
      (∃ i, Memory.fetch s.memory s.cpu.regs.pc = .ok i ∧
        s.step = (.ok (i.cycles s.cpu.regs.f), { s with cpu.activity := .running }.run i)) ∨
      ∃ e, s.step = (.error e, s) := by
  obtain ⟨hNone, -⟩ := dispatchable_of_not_dispatch h
  rcases s.step_cases with ⟨-, hStep⟩ | ⟨-, i, hSome, -⟩ | ⟨-, -, i, hFetch, hStep⟩ |
    ⟨-, -, e, -, hStep⟩
  · exact .inl hStep
  · cases hNone.symm.trans hSome
  · rw [wake_eq] at hStep
    exact .inr (.inl ⟨i, hFetch, hStep⟩)
  · exact .inr (.inr ⟨_, hStep⟩)

/-- A dispatch happens exactly if the master enable is set and a request is enabled. It serves the
lowest pending bit and does nothing else, and so does a step, which takes five cycles for it and
wakes the processor. Without a dispatch nothing changes, and a step does not dispatch either. -/
theorem dispatch_exact (s : Core Bus) :
    (s.dispatch.1 = true ↔ s.cpu.interrupts.ime = true ∧
      s.read 0xFF0F &&& s.read 0xFFFF &&& 0x1F ≠ 0) ∧
    (s.dispatch.1 = false → s.dispatch.2 = s) ∧
    (s.dispatch.1 = true →
      (∃ k, Byte.IsLowest (s.read 0xFF0F &&& s.read 0xFFFF &&& 0x1F) k ∧
        s.Dispatched k s.dispatch.2) ∧
      s.step = (.ok 5, { s.dispatch.2 with cpu.activity := .running })) ∧
    (s.dispatch.1 = false →
      s.step = (.ok 1, s) ∨
      (∃ i, Memory.fetch s.memory s.cpu.regs.pc = .ok i ∧
        s.step = (.ok (i.cycles s.cpu.regs.f), { s with cpu.activity := .running }.run i)) ∨
      ∃ e, s.step = (.error e, s)) := by
  refine ⟨dispatch_eq_true_iff, fun h => (dispatchable_of_not_dispatch h).2, ?_,
    step_of_not_dispatch⟩
  intro h
  refine ⟨?_, step_of_dispatch h⟩
  obtain ⟨i, hFirst, hDispatch⟩ := dispatchable_of_dispatch h
  rw [hDispatch]
  exact ⟨i.position, Interrupt.isLowest_position hFirst, s.dispatched_enterHandler i⟩

end Core
end DotMatrix
