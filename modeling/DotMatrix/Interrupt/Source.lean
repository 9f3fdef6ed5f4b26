import DotMatrix.Byte

/-!
# Interrupt sources

Five sources share the bitmaps of requested and enabled interrupts. A source's position in `all` is
its bit there, and the lowest bit has the highest priority.
-/

namespace DotMatrix

inductive Interrupt where
  | vblank | lcd | timer | serial | joypad
deriving DecidableEq

namespace Interrupt

def all : List Interrupt :=
  [.vblank, .lcd, .timer, .serial, .joypad]

def index : Interrupt → Nat
  | .vblank => 0
  | .lcd => 1
  | .timer => 2
  | .serial => 3
  | .joypad => 4

def mask (i : Interrupt) : UInt8 :=
  UInt8.ofNat (1 <<< i.index)

def vector (i : Interrupt) : UInt16 :=
  UInt16.ofNat (0x40 + 8 * i.index)

def text : Interrupt → String
  | .vblank => "VBlank"
  | .lcd => "LCD"
  | .timer => "Timer"
  | .serial => "Serial"
  | .joypad => "Joypad"

/-- The source of the lowest bit that is set. -/
def highestPriority? (pending : UInt8) : Option Interrupt :=
  all.find? fun i => Byte.bit pending i.index

theorem highestPriority?_eq_none_iff {pending : UInt8} :
    highestPriority? pending = none ↔ pending &&& 0x1F = 0 := by
  refine Byte.of_fin
    (P := fun p => highestPriority? p = none ↔ p &&& 0x1F = 0) ?_ pending
  decide +kernel

end Interrupt
end DotMatrix
