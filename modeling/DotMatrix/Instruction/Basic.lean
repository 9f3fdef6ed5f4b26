import DotMatrix.Cpu.Flags

/-!
# Instructions

The instructions as the decoder returns them, with their immediates. Conditional and unconditional
jumps share a constructor: a missing condition always holds.
-/

namespace DotMatrix

inductive Register where
  | a | b | c | d | e | h | l
deriving DecidableEq

inductive WideRegister where
  | bc | de | hl | sp
deriving DecidableEq

inductive StackPair where
  | bc | de | hl | af
deriving DecidableEq

inductive Operand where
  | reg (r : Register)
  | atHL
deriving DecidableEq

/-- The pointers that the accumulator moves through. The last two leave HL changed by one. -/
inductive Pointer where
  | bc | de | hlUp | hlDown
deriving DecidableEq

inductive Source where
  | operand (o : Operand)
  | immediate (n : UInt8)
deriving DecidableEq

inductive AluOp where
  | add | adc | sub | sbc | and | xor | or | cp
deriving DecidableEq

inductive Shift where
  | rlc | rrc | rl | rr | sla | sra | swap | srl
deriving DecidableEq

/-- The rotations of the accumulator that have an op code of one byte. -/
inductive Rotation where
  | rlca | rrca | rla | rra
deriving DecidableEq

def Rotation.shift : Rotation → Shift
  | .rlca => .rlc
  | .rrca => .rrc
  | .rla => .rl
  | .rra => .rr

inductive BitOp where
  | test | reset | set
deriving DecidableEq

inductive Instruction where
  | nop
  | halt
  | stop (padding : UInt8)
  | load (dest source : Operand)
  | loadByte (dest : Operand) (n : UInt8)
  | loadWord (dest : WideRegister) (n : UInt16)
  | loadA (source : Pointer)
  | storeA (dest : Pointer)
  | loadAAt (address : UInt16)
  | storeAAt (address : UInt16)
  | loadAHigh (offset : UInt8)
  | storeAHigh (offset : UInt8)
  | loadAHighC
  | storeAHighC
  | storeSP (address : UInt16)
  | loadSPFromHL
  | loadHLFromSP (offset : Int8)
  | push (pair : StackPair)
  | pop (pair : StackPair)
  | alu (op : AluOp) (source : Source)
  | inc (o : Operand)
  | dec (o : Operand)
  | addHL (r : WideRegister)
  | addSP (offset : Int8)
  | incWide (r : WideRegister)
  | decWide (r : WideRegister)
  | rotateA (rotation : Rotation)
  | shift (op : Shift) (o : Operand)
  | bit (op : BitOp) (index : Fin 8) (o : Operand)
  | daa
  | cpl
  | scf
  | ccf
  | jumpBy (condition : Option Condition) (offset : Int8)
  | jump (condition : Option Condition) (address : UInt16)
  | jumpHL
  | call (condition : Option Condition) (address : UInt16)
  | ret (condition : Option Condition)
  | retEnable
  | restart (vector : Fin 8)
  | di
  | ei
deriving DecidableEq

def Instruction.restartAddress (vector : Fin 8) : UInt16 :=
  UInt16.ofNat (8 * vector.val)

def Condition.allows (condition : Option Condition) (f : Flags) : Bool :=
  condition.all (·.holds f)

end DotMatrix
