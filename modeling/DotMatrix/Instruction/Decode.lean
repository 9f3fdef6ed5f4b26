import DotMatrix.Cpu.Registers
import DotMatrix.Instruction.OpcodeMap

/-!
# Decoding

An instruction is decoded from the byte at an address and the two bytes behind it, where addresses
wrap. The only failure is a first byte whose cell in the op code map is empty.
-/

namespace DotMatrix

/-- An op code without an instruction. The registers are known when a processor met it. -/
structure DecodeError where
  opcode : UInt8
  pc : UInt16
  registers : Option Registers
deriving DecidableEq

def DecodeError.message (e : DecodeError) : String :=
  "undefined op code " ++ Hex.byte e.opcode ++ " at " ++ Hex.word e.pc

namespace Instruction

def ofBytes? (first second third : UInt8) : Option Instruction :=
  (OpcodeMap.cell first).fill second third

/-- Decodes at an address of a memory that is given by what reads return. -/
def decodeAt (read : UInt16 → UInt8) (pc : UInt16) : Except DecodeError Instruction :=
  match ofBytes? (read pc) (read (pc + 1)) (read (pc + 2)) with
  | some i => .ok i
  | none => .error ⟨read pc, pc, none⟩

theorem decodeAt_eq_ok_iff {read : UInt16 → UInt8} {pc : UInt16} {i : Instruction} :
    decodeAt read pc = .ok i ↔ ofBytes? (read pc) (read (pc + 1)) (read (pc + 2)) = some i := by
  unfold decodeAt
  split <;> simp_all

end Instruction
end DotMatrix
