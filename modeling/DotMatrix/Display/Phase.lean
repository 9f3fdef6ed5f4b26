import DotMatrix.Byte

/-!
# Phases of a scanline

A visible scanline runs through three phases of 80, 172 and 204 dots; a scanline of the vertical
blank is one phase of 456 dots.
-/

namespace DotMatrix

inductive Phase where
  | hblank | vblank | oamScan | drawing
deriving DecidableEq

namespace Phase

/-- The code in the two low bits of the display status. -/
def code : Phase → UInt8
  | .hblank => 0
  | .vblank => 1
  | .oamScan => 2
  | .drawing => 3

def budget : Phase → Nat
  | .oamScan => 80
  | .drawing => 172
  | .hblank => 204
  | .vblank => 456

/-- Whether the phase raises the display interrupt under the enable bits of the status. Drawing
has no such bit. -/
def raises (status : UInt8) : Phase → Bool
  | .hblank => Byte.bit status 3
  | .vblank => Byte.bit status 4
  | .oamScan => Byte.bit status 5
  | .drawing => false

def text : Phase → String
  | .hblank => "HBlank"
  | .vblank => "VBlank"
  | .oamScan => "OamScan"
  | .drawing => "Drawing"

theorem budget_pos (p : Phase) : 0 < p.budget := by
  cases p <;> decide

end Phase
end DotMatrix
