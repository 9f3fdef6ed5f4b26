/-!
# Addresses

The registers on the bus that the processor, the timer and the display know by address.
-/

namespace DotMatrix.Address

def romEnd : UInt16 := 0x8000
def oam : UInt16 := 0xFE00
def divider : UInt16 := 0xFF04
def timerCounter : UInt16 := 0xFF05
def timerModulo : UInt16 := 0xFF06
def timerControl : UInt16 := 0xFF07
def interruptFlags : UInt16 := 0xFF0F
def lcdStatus : UInt16 := 0xFF41
def lcdY : UInt16 := 0xFF44
def lcdYCompare : UInt16 := 0xFF45
def oamDma : UInt16 := 0xFF46
def interruptEnable : UInt16 := 0xFFFF

/-- The page of the high registers, which the short loads reach by one byte. -/
def high (offset : UInt8) : UInt16 :=
  0xFF00 + offset.toUInt16

end DotMatrix.Address
