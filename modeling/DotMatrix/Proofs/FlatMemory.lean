import DotMatrix.Proofs.WrittenAddresses

/-!
# Programs on flat memory

A bare store stands in for the bus as long as a program writes to plain addresses only: then steps
on both return the same and leave the same processor and the same bytes. What is read does not
matter, since reads are plain on both.
-/

namespace DotMatrix

/-- The bus stores what is written here and does nothing besides. -/
def Address.IsPlain (a : UInt16) : Prop :=
  0x8000 ≤ a ∧ a ≠ 0xFF04 ∧ a ≠ 0xFF41 ∧ a ≠ 0xFF46

instance : DecidablePred Address.IsPlain :=
  fun a => inferInstanceAs (Decidable (0x8000 ≤ a ∧ a ≠ 0xFF04 ∧ a ≠ 0xFF41 ∧ a ≠ 0xFF46))

theorem Bus.write_of_isPlain (b : Bus) {a : UInt16} (v : UInt8) (h : Address.IsPlain a) :
    b.write a v = { b with store := b.store.set a v } := by
  obtain ⟨hRom, hDivider, hStatus, hDma⟩ := h
  exact b.write_plain v (UInt16.not_lt.mpr hRom) hDivider hStatus hDma

theorem Bus.writeAll_of_isPlain (b : Bus) {stores : List (UInt16 × UInt8)}
    (h : ∀ p ∈ stores, Address.IsPlain p.1) :
    Memory.writeAll b stores = { b with store := Memory.writeAll b.store stores } := by
  induction stores generalizing b with
  | nil => rfl
  | cons p stores ih =>
    obtain ⟨hFirst, hRest⟩ := List.forall_mem_cons.mp h
    change Memory.writeAll (b.write p.1 p.2) stores = _
    rw [b.write_of_isPlain p.2 hFirst, ih _ hRest]
    rfl

namespace Core

section

variable {M : Type} [Memory M]

/-- The core after some steps, failing ones included. -/
def afterSteps (s : Core M) : Nat → Core M
  | 0 => s
  | n + 1 => s.step.2.afterSteps n

/-- What the steps return, in order. -/
def results (s : Core M) : Nat → List (Except DecodeError Nat)
  | 0 => []
  | n + 1 => s.step.1 :: s.step.2.results n

end

variable {s : Core Store} {t : Core Bus}

theorem step_flat (hCpu : s.cpu = t.cpu) (hStore : s.memory = t.memory.store)
    (hPlain : ∀ a ∈ s.written, Address.IsPlain a) :
    t.step.1 = s.step.1 ∧ s.step.2.cpu = t.step.2.cpu ∧
      t.step.2.memory = { t.memory with store := s.step.2.memory } ∧ t.written = s.written := by
  have hAgree : Agree s t := ⟨hCpu, congrArg Store.get hStore⟩
  have hWork := hAgree.work
  rw [s.step_eq, t.step_eq, ← hWork]
  cases hNext : s.work with
  | error e =>
    rw [written_of_error hNext, written_of_error (hWork ▸ hNext), hStore]
    exact ⟨by rw [hCpu], hCpu, rfl, rfl⟩
  | ok w =>
    have hWrites := hAgree.writes w
    obtain ⟨hCost, hLeft⟩ := hAgree.perform w
    rw [written_eq hNext] at hPlain
    rw [written_eq hNext, written_eq (hWork ▸ hNext), ← hWrites]
    refine ⟨congrArg Except.ok hCost.symm, hLeft, ?_, rfl⟩
    change (t.perform w).2.memory = { t.memory with store := (s.perform w).2.memory }
    rw [memory_perform_eq, memory_perform_eq, ← hWrites, hStore, Bus.writeAll_of_isPlain]
    intro p hp
    exact hPlain p.1 (List.mem_map_of_mem hp)

theorem steps_flat (hCpu : s.cpu = t.cpu) (hStore : s.memory = t.memory.store) {n : Nat}
    (hPlain : ∀ k < n, ∀ a ∈ (s.afterSteps k).written, Address.IsPlain a) :
    t.results n = s.results n ∧ (s.afterSteps n).cpu = (t.afterSteps n).cpu ∧
      (t.afterSteps n).memory = { t.memory with store := (s.afterSteps n).memory } ∧
      ∀ k < n, (t.afterSteps k).written = (s.afterSteps k).written := by
  induction n generalizing s t with
  | zero =>
    refine ⟨rfl, hCpu, ?_, fun k hk => absurd hk (Nat.not_lt_zero k)⟩
    change t.memory = { t.memory with store := s.memory }
    rw [hStore]
  | succ n ih =>
    obtain ⟨hFirst, hRest⟩ := Nat.forall_lt_succ_left.mp hPlain
    obtain ⟨hResult, hLeft, hMemory, hWritten⟩ := step_flat hCpu hStore hFirst
    obtain ⟨hResults, hCpuAfter, hAfter, hWrittenAfter⟩ :=
      ih hLeft (congrArg Bus.store hMemory).symm hRest
    refine ⟨?_, hCpuAfter, ?_, Nat.forall_lt_succ_left.mpr ⟨hWritten, hWrittenAfter⟩⟩
    · rw [results, results, hResult, hResults]
    · change (t.step.2.afterSteps n).memory = _
      rw [hAfter, hMemory]
      rfl

/-- A halted core that an interrupt wakes, and whose handler counts a byte up and then runs into an
undefined op code. -/
def countingHandler : Core Store where
  cpu :=
    { regs := { Registers.powerOn with h := 0xC0, sp := 0xD000 }
      interrupts := ⟨true, false⟩
      activity := .halted }
  memory :=
    (((Store.zero.set 0xFF0F 0x01).set 0xFFFF 0x01).set 0x40 0x34).set 0x41 0xD3

/-- Steps that write to plain addresses only do the same on flat memory and on a bus with the same
bytes: they return the same, fail alike, leave the same processor and the same bytes, and the reset
of the divider stays as it is. -/
theorem plain_run_on_bus (hCpu : s.cpu = t.cpu)
    (hBytes : ∀ a, Memory.read s.memory a = Memory.read t.memory a) (n : Nat)
    (hPlain : ∀ k < n, ∀ a ∈ (s.afterSteps k).written, Address.IsPlain a) :
    t.results n = s.results n ∧
      (t.afterSteps n).cpu = (s.afterSteps n).cpu ∧
      (∀ a, Memory.read (t.afterSteps n).memory a = Memory.read (s.afterSteps n).memory a) ∧
      (t.afterSteps n).memory.dividerReset = t.memory.dividerReset ∧
      ∀ k < n, (t.afterSteps k).written = (s.afterSteps k).written := by
  have hStore : s.memory = t.memory.store := Store.ext_get hBytes
  obtain ⟨hResults, hLeft, hMemory, hWritten⟩ := steps_flat hCpu hStore hPlain
  refine ⟨hResults, hLeft.symm, ?_, ?_, hWritten⟩
  · intro a
    rw [hMemory]
    rfl
  · rw [hMemory]

theorem plain_run_on_bus_countingHandler :
    let t : Core Bus := ⟨countingHandler.cpu, ⟨countingHandler.memory, true, false⟩⟩
    (∀ k < 3, ∀ a ∈ (countingHandler.afterSteps k).written, Address.IsPlain a) ∧
      (t.results 3).map Except.toOption = [some 5, some 3, none] ∧
      Memory.read (t.afterSteps 3).memory 0xC000 = 1 ∧
      (t.afterSteps 3).memory.dividerReset = true := by
  intro t
  have hDispatch : (countingHandler.afterSteps 0).written = [0xFF0F, 0xCFFF, 0xCFFE] := by
    decide +kernel
  have hCount : (countingHandler.afterSteps 1).written = [0xC000] := by
    decide +kernel
  have hFailure : (countingHandler.afterSteps 2).written = [] := by
    decide +kernel
  have hPlain : ∀ k < 3, ∀ a ∈ (countingHandler.afterSteps k).written, Address.IsPlain a := by
    refine Nat.forall_lt_succ_right.mpr ⟨Nat.forall_lt_succ_right.mpr ⟨fun k hk => ?_, ?_⟩, ?_⟩
    · obtain rfl := Nat.lt_one_iff.mp hk
      rw [hDispatch]
      refine List.forall_mem_cons.mpr ⟨by decide, List.forall_mem_cons.mpr ⟨by decide, ?_⟩⟩
      exact List.forall_mem_singleton.mpr (by decide)
    · rw [hCount]
      exact List.forall_mem_singleton.mpr (by decide)
    · rw [hFailure]
      exact fun a ha => absurd ha List.not_mem_nil
  have hCounted : Memory.read (countingHandler.afterSteps 3).memory 0xC000 = 1 := by
    decide +kernel
  have hCosts : (countingHandler.results 3).map Except.toOption = [some 5, some 3, none] := by
    decide +kernel
  obtain ⟨hResults, -, hBytes, hReset, -⟩ :=
    plain_run_on_bus (s := countingHandler) (t := t) rfl (fun _ => rfl) 3 hPlain
  refine ⟨hPlain, ?_, (hBytes _).trans hCounted, hReset⟩
  rw [hResults]
  exact hCosts

end Core
end DotMatrix
