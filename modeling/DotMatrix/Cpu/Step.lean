import DotMatrix.Cpu.Execute
import DotMatrix.Instruction.Cost

/-!
# One step of the processor

A step is an idle cycle, the dispatch of an interrupt or one instruction. A step that meets an
undefined op code fails and leaves the core as it was.
-/

namespace DotMatrix.Core

variable {M : Type} [Memory M]

def dispatchCycles : Nat := 5

/-- The interrupt that the processor would serve now. -/
def dispatchable? (s : Core M) : Option Interrupt :=
  if s.cpu.interrupts.ime then Interrupt.highestPriority? (Memory.pending s.memory) else none

/-- The request is taken back, the program counter pushed, and the handler entered with interrupts
disabled. -/
def enterHandler (s : Core M) (i : Interrupt) : Core M :=
  let s := s.note (.dispatching i s.cpu.regs.pc)
  let s := { s with memory := Memory.update s.memory Address.interruptFlags (· &&& ~~~i.mask) }
  ((s.push s.cpu.regs.pc).setPC i.vector).setInterrupts ⟨false, false⟩

def dispatch (s : Core M) : Bool × Core M :=
  match s.dispatchable? with
  | some i => (true, s.enterHandler i)
  | none => (false, s)

def wake (s : Core M) : Core M :=
  match s.cpu.activity with
  | .running => s
  | activity => (s.note (.wakingUp activity)).setActivity .running

/-- Executes a fetched instruction. An enable that was scheduled before takes effect behind it,
unless it disables interrupts. -/
def run (s : Core M) (i : Instruction) : Core M :=
  let enable := s.cpu.interrupts.scheduled
  let s := { s with
    cpu.interrupts.scheduled := false
    cpu.regs.pc := s.cpu.regs.pc + UInt16.ofNat i.size }
  let s := s.execute i
  if enable && i != .di then { s with cpu.interrupts.ime := true } else s

def step (s : Core M) : Except DecodeError Nat × Core M :=
  if s.cpu.activity != .running && Memory.pending s.memory == 0 then (.ok 1, s)
  else
    match s.dispatchable? with
    | some i => (.ok dispatchCycles, (s.enterHandler i).wake)
    | none =>
      match Memory.fetch s.memory s.cpu.regs.pc with
      | .error e => (.error { e with registers := some s.cpu.regs }, s)
      | .ok i => (.ok (i.cycles s.cpu.regs.f), s.wake.run i)

end DotMatrix.Core
