import DotMatrix.Byte

/-!
# The flags

The flag byte holds zero, subtract, half-carry and carry in its four high bits. The low bits do
not exist: they read as zero and a write to them is lost, which `toByte_ofByte` states.
-/

namespace DotMatrix

structure Flags where
  zero : Bool
  subtract : Bool
  halfCarry : Bool
  carry : Bool
deriving DecidableEq

inductive Condition where
  | zero | notZero | carry | notCarry
deriving DecidableEq

namespace Flags

def none : Flags :=
  ⟨false, false, false, false⟩

def toByte (f : Flags) : UInt8 :=
  f.zero.toUInt8 * 128 + f.subtract.toUInt8 * 64 + f.halfCarry.toUInt8 * 32 +
    f.carry.toUInt8 * 16

def ofByte (b : UInt8) : Flags where
  zero := Byte.bit b 7
  subtract := Byte.bit b 6
  halfCarry := Byte.bit b 5
  carry := Byte.bit b 4

/-- A shift or rotation decides zero and carry and clears the rest. -/
def afterShift (zero carry : Bool) : Flags :=
  ⟨zero, false, false, carry⟩

theorem toByte_ofByte (b : UInt8) : (ofByte b).toByte = b &&& 0xF0 := by
  refine Byte.of_fin (P := fun b => (ofByte b).toByte = b &&& 0xF0) ?_ b
  decide +kernel

@[simp] theorem ofByte_toByte (f : Flags) : ofByte f.toByte = f := by
  rcases f with ⟨_ | _, _ | _, _ | _, _ | _⟩ <;> decide

theorem toByte_low_nibble (f : Flags) : f.toByte &&& 0x0F = 0 := by
  rcases f with ⟨_ | _, _ | _, _ | _, _ | _⟩ <;> decide

def render (f : Flags) : String :=
  "Flags(Z=" ++ bit f.zero ++ " N=" ++ bit f.subtract ++ " H=" ++ bit f.halfCarry ++
    " C=" ++ bit f.carry ++ ")"
where
  bit (b : Bool) : String := if b then "1" else "0"

end Flags

namespace Condition

def holds : Condition → Flags → Bool
  | zero, f => f.zero
  | notZero, f => !f.zero
  | carry, f => f.carry
  | notCarry, f => !f.carry

end Condition
end DotMatrix
