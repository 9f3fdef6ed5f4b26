import DotMatrix.Cpu.Basic
import DotMatrix.Memory.Basic

/-!
# The core

A processor together with the memory that it runs on, and the accesses that instructions are made
of: operands, pointers and the stack.
-/

namespace DotMatrix

structure Core (M : Type) where
  cpu : Cpu
  memory : M

namespace Core

variable {M : Type} [Memory M]

def read (s : Core M) (a : UInt16) : UInt8 :=
  Memory.read s.memory a

def write (s : Core M) (a : UInt16) (v : UInt8) : Core M :=
  { s with memory := Memory.write s.memory a v }

def note (s : Core M) (e : Event) : Core M :=
  { s with memory := Memory.note s.memory e }

def setRegs (s : Core M) (r : Registers) : Core M :=
  { s with cpu.regs := r }

def setFlags (s : Core M) (f : Flags) : Core M :=
  { s with cpu.regs.f := f }

def setA (s : Core M) (v : UInt8) : Core M :=
  { s with cpu.regs.a := v }

def setPC (s : Core M) (pc : UInt16) : Core M :=
  { s with cpu.regs.pc := pc }

def setActivity (s : Core M) (activity : Activity) : Core M :=
  { s with cpu.activity := activity }

def setInterrupts (s : Core M) (c : InterruptControl) : Core M :=
  { s with cpu.interrupts := c }

def readOperand (s : Core M) : Operand → UInt8
  | .reg r => s.cpu.regs.get r
  | .atHL => s.read s.cpu.regs.hl

def writeOperand (s : Core M) (o : Operand) (v : UInt8) : Core M :=
  match o with
  | .reg r => s.setRegs (s.cpu.regs.set r v)
  | .atHL => s.write s.cpu.regs.hl v

def readSource (s : Core M) : Source → UInt8
  | .operand o => s.readOperand o
  | .immediate n => n

def pointee (s : Core M) : Pointer → UInt16
  | .bc => s.cpu.regs.bc
  | .de => s.cpu.regs.de
  | .hlUp | .hlDown => s.cpu.regs.hl

/-- Moves HL on where the pointer says so. -/
def movePointer (s : Core M) : Pointer → Core M
  | .bc | .de => s
  | .hlUp => s.setRegs (s.cpu.regs.setHL (s.cpu.regs.hl + 1))
  | .hlDown => s.setRegs (s.cpu.regs.setHL (s.cpu.regs.hl - 1))

/-- The high byte goes below the stack pointer, the low byte below that. -/
def push (s : Core M) (w : UInt16) : Core M :=
  let sp := s.cpu.regs.sp
  let s := (s.write (sp - 1) (Word.high w)).write (sp - 2) (Word.low w)
  { s with cpu.regs.sp := sp - 2 }

def top (s : Core M) : UInt16 :=
  Word.ofBytes (s.read (s.cpu.regs.sp + 1)) (s.read s.cpu.regs.sp)

def drop (s : Core M) : Core M :=
  { s with cpu.regs.sp := s.cpu.regs.sp + 2 }

end Core
end DotMatrix
