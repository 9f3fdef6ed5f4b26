import DotMatrix.Cpu.Flags
import DotMatrix.Instruction.Basic

/-!
# Arithmetic and flags

Each operation returns its result and the flags after it. Half-carry and carry are stated on
natural numbers: they say whether the nibbles or the bytes leave their range.
-/

namespace DotMatrix.Alu

def add (a b : UInt8) (carryIn : Bool) : UInt8 × Flags :=
  let result := a + b + carryIn.toUInt8
  (result,
    { zero := result == 0
      subtract := false
      halfCarry := decide (15 < a.toNat % 16 + b.toNat % 16 + carryIn.toNat)
      carry := decide (255 < a.toNat + b.toNat + carryIn.toNat) })

def sub (a b : UInt8) (carryIn : Bool) : UInt8 × Flags :=
  let result := a - b - carryIn.toUInt8
  (result,
    { zero := result == 0
      subtract := true
      halfCarry := decide (a.toNat % 16 < b.toNat % 16 + carryIn.toNat)
      carry := decide (a.toNat < b.toNat + carryIn.toNat) })

def and (a b : UInt8) : UInt8 × Flags :=
  let result := a &&& b
  (result, ⟨result == 0, false, true, false⟩)

def xor (a b : UInt8) : UInt8 × Flags :=
  let result := a ^^^ b
  (result, ⟨result == 0, false, false, false⟩)

def or (a b : UInt8) : UInt8 × Flags :=
  let result := a ||| b
  (result, ⟨result == 0, false, false, false⟩)

/-- The operation on the accumulator `a` under the flags `f`. A comparison returns `a`. -/
def apply (op : AluOp) (a b : UInt8) (f : Flags) : UInt8 × Flags :=
  match op with
  | .add => add a b false
  | .adc => add a b f.carry
  | .sub => sub a b false
  | .sbc => sub a b f.carry
  | .and => and a b
  | .xor => xor a b
  | .or => or a b
  | .cp => (a, (sub a b false).2)

/-- The carry is kept. -/
def inc (v : UInt8) (f : Flags) : UInt8 × Flags :=
  let result := v + 1
  (result, ⟨result == 0, false, decide (v.toNat % 16 = 15), f.carry⟩)

/-- The carry is kept. -/
def dec (v : UInt8) (f : Flags) : UInt8 × Flags :=
  let result := v - 1
  (result, ⟨result == 0, true, decide (v.toNat % 16 = 0), f.carry⟩)

/-- Half-carry and carry leave the low bytes; zero is kept. -/
def addWide (v w : UInt16) (f : Flags) : UInt16 × Flags :=
  (v + w,
    { zero := f.zero
      subtract := false
      halfCarry := decide (15 < v.toNat % 16 + w.toNat % 16)
      carry := decide (255 < v.toNat % 256 + w.toNat % 256) })

/-- The flags are those of adding the low byte and the unsigned byte of the offset. -/
def addSigned (v : UInt16) (offset : Int8) : UInt16 × Flags :=
  let low := offset.toUInt8.toNat
  (v + offset.toInt16.toUInt16,
    { zero := false
      subtract := false
      halfCarry := decide (15 < v.toNat % 16 + low % 16)
      carry := decide (255 < v.toNat % 256 + low) })

/-- Corrects the sum or difference of two decimal bytes so that each nibble is a digit again. -/
def decimalAdjust (v : UInt8) (f : Flags) : UInt8 × Flags :=
  if f.subtract then
    let result := if f.carry then v - 0x60 else v
    let result := if f.halfCarry then result - 0x06 else result
    (result, ⟨result == 0, true, false, f.carry⟩)
  else
    let carry := f.carry || decide (0x99 < v.toNat)
    let result := if carry then v + 0x60 else v
    let result := if f.halfCarry || decide (9 < result.toNat % 16) then result + 0x06 else result
    (result, ⟨result == 0, false, false, carry⟩)

def rotateLeft (v : UInt8) : UInt8 × Bool :=
  (v <<< 1 ||| v >>> 7, Byte.bit v 7)

def rotateRight (v : UInt8) : UInt8 × Bool :=
  (v >>> 1 ||| v <<< 7, Byte.bit v 0)

def rotateLeftThrough (v : UInt8) (carry : Bool) : UInt8 × Bool :=
  (v <<< 1 ||| carry.toUInt8, Byte.bit v 7)

def rotateRightThrough (v : UInt8) (carry : Bool) : UInt8 × Bool :=
  (v >>> 1 ||| carry.toUInt8 <<< 7, Byte.bit v 0)

def shiftLeft (v : UInt8) : UInt8 × Bool :=
  (v <<< 1, Byte.bit v 7)

def shiftRightArithmetic (v : UInt8) : UInt8 × Bool :=
  (v >>> 1 ||| v &&& 0x80, Byte.bit v 0)

def shiftRight (v : UInt8) : UInt8 × Bool :=
  (v >>> 1, Byte.bit v 0)

def swap (v : UInt8) : UInt8 × Bool :=
  (v <<< 4 ||| v >>> 4, false)

def shift (op : Shift) (v : UInt8) (carry : Bool) : UInt8 × Bool :=
  match op with
  | .rlc => rotateLeft v
  | .rrc => rotateRight v
  | .rl => rotateLeftThrough v carry
  | .rr => rotateRightThrough v carry
  | .sla => shiftLeft v
  | .sra => shiftRightArithmetic v
  | .swap => swap v
  | .srl => shiftRight v

end DotMatrix.Alu
