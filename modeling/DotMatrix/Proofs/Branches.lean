import DotMatrix.Memory.Bus
import DotMatrix.Proofs.CoreStep

/-!
# Branches

The cost of a branch and its effect look at the condition apart from each other: the cost before the
program counter has moved, the effect behind it. Both see the same flags, so a step that takes the
branch does and costs what the branch without a condition does, and any other step falls through.
-/

namespace DotMatrix

/-- What may be done on a condition. -/
inductive Branch where
  | relative (offset : Int8)
  | absolute (address : UInt16)
  | call (address : UInt16)
  | ret
deriving DecidableEq

namespace Branch

def instruction (b : Branch) (condition : Option Condition) : Instruction :=
  match b with
  | relative offset => .jumpBy condition offset
  | absolute address => .jump condition address
  | call address => .call condition address
  | ret => .ret condition

/-- The cycles of a branch that is not taken. -/
def untakenCycles : Branch → Nat
  | relative _ | ret => 2
  | absolute _ | call _ => 3

/-- The cycles that a branch costs more where it is taken on a condition. -/
def conditionCycles : Branch → Nat
  | ret => 1
  | _ => 0

theorem cycles_taken (b : Branch) {c : Condition} {f : Flags} (h : c.holds f = true) :
    (b.instruction (some c)).cycles f = (b.instruction none).cycles f + b.conditionCycles := by
  cases b <;> exact if_pos h

theorem cycles_untaken (b : Branch) {c : Condition} {f : Flags} (h : c.holds f = false) :
    (b.instruction (some c)).cycles f = b.untakenCycles := by
  have hNot : ¬ c.holds f = true := ne_true_of_eq_false h
  cases b <;> exact if_neg hNot

end Branch

theorem Word.toNat_add_offset (w : UInt16) (offset : Int8) :
    ((w + offset.toInt16.toUInt16).toNat : Int) = (w.toNat + offset.toInt) % 65536 := by
  have hExtended : (offset.toInt16.toUInt16.toNat : Int) = offset.toInt % 65536 := by
    have hBits : offset.toInt16.toInt = Int.bmod offset.toInt16.toUInt16.toNat 65536 :=
      BitVec.toInt_eq_toNat_bmod offset.toInt16.toBitVec
    have hLt := offset.toInt16.toUInt16.toNat_lt
    have hMod : Int.bmod offset.toInt16.toUInt16.toNat 65536 % 65536 =
        offset.toInt16.toUInt16.toNat % 65536 := Int.bmod_emod
    rw [← Int8.toInt_toInt16, hBits, hMod]
    omega
  rw [UInt16.toNat_add]
  omega

namespace Core

variable {M : Type}

/-- The core with its program counter behind the instruction. -/
def behind (s : Core M) (i : Instruction) : Core M :=
  s.setPC (s.cpu.regs.pc + UInt16.ofNat i.size)

theorem toNat_pc_behind (s : Core M) (i : Instruction) :
    (s.behind i).cpu.regs.pc.toNat = (s.cpu.regs.pc.toNat + i.size) % 65536 := by
  have hSize : (UInt16.ofNat i.size).toNat = i.size :=
    UInt16.toNat_ofNat_of_lt' (Nat.lt_of_le_of_lt i.size_le_three (by decide))
  change (s.cpu.regs.pc + UInt16.ofNat i.size).toNat = _
  rw [UInt16.toNat_add, hSize]

variable [Memory M] {s : Core M} {i : Instruction} {c : Condition}

theorem execute_taken (s : Core M) (b : Branch) (h : c.holds s.cpu.regs.f = true) :
    s.execute (b.instruction (some c)) = s.execute (b.instruction none) := by
  cases b <;> exact if_pos h

theorem execute_untaken (s : Core M) (b : Branch) (h : c.holds s.cpu.regs.f = false) :
    s.execute (b.instruction (some c)) = s := by
  have hNot : ¬ c.holds s.cpu.regs.f = true := ne_true_of_eq_false h
  cases b <;> exact if_neg hNot

theorem step_running (hRunning : s.cpu.activity = .running) (hQuiet : s.dispatchable? = none)
    (hScheduled : s.cpu.interrupts.scheduled = false)
    (hFetch : Memory.fetch s.memory s.cpu.regs.pc = .ok i) :
    s.step = (.ok (i.cycles s.cpu.regs.f), (s.behind i).execute i) := by
  have hWake : s.wake = s := by rw [wake, hRunning]
  have hPrepare : s.prepare i = s.behind i := by
    rw [prepare, ← hScheduled]
    rfl
  have hRun : s.run i = (s.behind i).execute i := by
    rw [run_eq, hPrepare, hScheduled]
    rfl
  rcases s.step_cases with ⟨hAsleep, -⟩ | ⟨-, j, hSome, -⟩ | ⟨-, -, j, hOther, hStep⟩ |
    ⟨-, -, e, hError, -⟩
  · exact absurd hRunning hAsleep.1
  · cases hQuiet.symm.trans hSome
  · cases hFetch.symm.trans hOther
    rw [hStep, hWake, hRun]
  · cases hFetch.symm.trans hError

/-- Whether the branch is taken is decided once, on the flags before the step, for the cost as for
the effect. Taken, it is the branch without the condition, from the same next instruction; a return
then costs a cycle more. Otherwise only the program counter moves, to the next instruction. -/
theorem branch_follows_condition {branch : Branch} (hRunning : s.cpu.activity = .running)
    (hQuiet : s.dispatchable? = none) (hScheduled : s.cpu.interrupts.scheduled = false)
    (hFetch : Memory.fetch s.memory s.cpu.regs.pc = .ok (branch.instruction (some c))) :
    let next := s.behind (branch.instruction (some c))
    (c.holds s.cpu.regs.f = true → s.step =
      (.ok ((branch.instruction none).cycles s.cpu.regs.f + branch.conditionCycles),
        next.execute (branch.instruction none))) ∧
      (c.holds s.cpu.regs.f = false → s.step = (.ok branch.untakenCycles, next)) ∧
      next = s.setPC next.cpu.regs.pc ∧
      next.cpu.regs.pc.toNat =
        (s.cpu.regs.pc.toNat + (branch.instruction (some c)).size) % 65536 ∧
      ∀ offset : Int8, ((next.execute (.jumpBy none offset)).cpu.regs.pc.toNat : Int) =
        (next.cpu.regs.pc.toNat + offset.toInt) % 65536 := by
  intro next
  have hStep := step_running hRunning hQuiet hScheduled hFetch
  refine ⟨?_, ?_, rfl, s.toNat_pc_behind _, fun offset => Word.toNat_add_offset _ offset⟩
  · intro hHolds
    rw [hStep, branch.cycles_taken hHolds, execute_taken next branch hHolds]
  · intro hFails
    rw [hStep, branch.cycles_untaken hFails, execute_untaken next branch hFails]

/-- A jump backwards unless zero, in the last two bytes of the address space. -/
def lastJump (f : Flags) : Core Bus where
  cpu := { Cpu.powerOn with regs := { Registers.powerOn with pc := 0xFFFE, f := f } }
  memory := { Bus.empty with store := (Store.zero.set 0xFFFE 0x20).set 0xFFFF 0xFB }

theorem fetch_lastJump (f : Flags) :
    Memory.fetch (lastJump f).memory (lastJump f).cpu.regs.pc =
      .ok ((Branch.relative (-5)).instruction (some .notZero)) := by
  have hRead (a : UInt16) : Memory.read (lastJump f).memory a =
      if 0xFFFF = a then 0xFB else if 0xFFFE = a then 0x20 else 0 := by
    change ((Store.zero.set 0xFFFE 0x20).set 0xFFFF 0xFB).get a = _
    simp only [Store.get_set, Store.get_zero]
  have hPC : (lastJump f).cpu.regs.pc = 0xFFFE := rfl
  rw [Memory.fetch, Instruction.decodeAt_eq_ok_iff, hRead, hRead, hRead, hPC]
  decide +kernel

theorem branch_follows_condition_lastJump :
    let taken := lastJump Flags.none
    let untaken := lastJump { Flags.none with zero := true }
    taken.step = (.ok 3, taken.setPC 0xFFFB) ∧ untaken.step = (.ok 2, untaken.setPC 0) := by
  intro taken untaken
  obtain ⟨hTaken, -⟩ := branch_follows_condition (s := taken) rfl rfl rfl (fetch_lastJump _)
  obtain ⟨-, hUntaken, -⟩ := branch_follows_condition (s := untaken) rfl rfl rfl (fetch_lastJump _)
  have hNext : (0xFFFE : UInt16) + UInt16.ofNat 2 = 0 := by decide
  have hTarget : (0xFFFE : UInt16) + UInt16.ofNat 2 + (-5 : Int8).toInt16.toUInt16 = 0xFFFB := by
    decide
  refine ⟨(hTaken rfl).trans ?_, (hUntaken rfl).trans ?_⟩
  · exact congrArg (fun pc => (Except.ok 3, taken.setPC pc)) hTarget
  · exact congrArg (fun pc => (Except.ok 2, untaken.setPC pc)) hNext

end Core
end DotMatrix
