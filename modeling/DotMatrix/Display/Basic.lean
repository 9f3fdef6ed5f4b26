import DotMatrix.Memory.Bus

/-!
# Display timing

The display runs through the phases of its scanlines: 144 visible ones, then ten of the vertical
blank. It keeps the scanline, the mode and the coincidence bit on the bus up to date and requests
the interrupts that come with them. Nothing is drawn.
-/

namespace DotMatrix

structure Display where
  phase : Phase
  dots : Nat
  line : UInt8
  /-- The combined display interrupt as it was when the status was last brought up to date. -/
  raised : Bool
deriving DecidableEq

namespace Display

variable {M : Type} [OnBus M]

def powerOn : Display :=
  ⟨.oamScan, 0, 0, false⟩

def dotsPerCycle : Nat := 4
def visibleLines : UInt8 := 144
def lastLine : UInt8 := 153

/-- The combined display interrupt in phase `p`, where `coincidence` says that the scanline is the
one compared with. -/
def signal (p : Phase) (coincidence : Bool) (status : UInt8) : Bool :=
  coincidence && Byte.bit status 6 || p.raises status

/-- Brings scanline and status on the bus up to date. The interrupt is requested where its signal
goes from low to high. -/
def refresh (d : Display) (m : M) : Display × M :=
  let coincidence := d.line == Memory.read m Address.lcdYCompare
  let m := OnBus.mapBus m fun b =>
    (b.setLcdY d.line).setStatusLow (d.phase.code ||| coincidence.toUInt8 <<< 2)
  let now := signal d.phase coincidence (Memory.read m Address.lcdStatus)
  let m :=
    if now && !d.raised then
      Memory.request (Memory.note m (.lcdRequested d.line d.phase)) .lcd
    else m
  ({ d with raised := now }, m)

def next (d : Display) : Phase × UInt8 :=
  match d.phase with
  | .oamScan => (.drawing, d.line)
  | .drawing => (.hblank, d.line)
  | .hblank =>
    if d.line = visibleLines - 1 then (.vblank, d.line + 1) else (.oamScan, d.line + 1)
  | .vblank => if d.line = lastLine then (.oamScan, 0) else (.vblank, d.line + 1)

def beforeVBlank (d : Display) : Bool :=
  d.phase == .hblank && d.line == visibleLines - 1

/-- Enters the next phase. The vertical blank requests its interrupt. -/
def enterNext (d : Display) (m : M) : Display × M :=
  let following := d.next
  let m :=
    if d.beforeVBlank then Memory.request (Memory.note m .enteringVBlank) .vblank else m
  ({ d with phase := following.1, dots := 0, line := following.2 }, m)

/-- The display and its memory after some time, and whether the vertical blank was entered. -/
structure Progress (M : Type) where
  display : Display
  memory : M
  enteredVBlank : Bool

/-- Spends dots, phase by phase. Each round but the first spends at least one dot. -/
def spend (d : Display) (m : M) (dots : Nat) : Nat → Progress M
  | 0 => ⟨d, m, false⟩
  | rounds + 1 =>
    let remaining := d.phase.budget - d.dots
    if dots < remaining then ⟨{ d with dots := d.dots + dots }, m, false⟩
    else
      let entered := d.beforeVBlank
      let (d, m) := d.enterNext m
      let (d, m) := d.refresh m
      let rest := d.spend m (dots - remaining) rounds
      { rest with enteredVBlank := entered || rest.enteredVBlank }

/-- Software may have changed the enable bits or the scanline compared with since the last time, so
the status is brought up to date first. -/
def advance (d : Display) (m : M) (cycles : Nat) : Progress M :=
  let (d, m) := d.refresh m
  let dots := cycles * dotsPerCycle
  let p := d.spend m dots (dots + 2)
  let (d, m) := p.display.refresh p.memory
  ⟨d, m, p.enteredVBlank⟩

/-- Where the phase begins in its scanline, in dots. -/
def phaseStart : Phase → Nat
  | .oamScan | .vblank => 0
  | .drawing => 80
  | .hblank => 252

def dotsPerLine : Nat := 456

/-- Dots from the start of the frame, where each scanline takes the same number of them. -/
def position (d : Display) : Nat :=
  dotsPerLine * d.line.toNat + phaseStart d.phase + d.dots

/-- Dots until the scanline ends: those left of the phase, then the phases behind it. -/
def dotsToLineEnd (d : Display) : Nat :=
  (d.phase.budget - d.dots) + (dotsPerLine - phaseStart d.phase - d.phase.budget)

/-- The scanlines between this one and the vertical blank that is entered next. Within the vertical
blank that one is in the next frame. The number of a scanline beyond the last one starts over at
zero like any other byte. -/
def linesToVBlank (d : Display) : Nat :=
  match d.phase with
  | .vblank => (lastLine - d.line).toNat + visibleLines.toNat
  | _ => (visibleLines - 1 - d.line).toNat

def dotsToVBlank (d : Display) : Nat :=
  d.dotsToLineEnd + dotsPerLine * d.linesToVBlank

/-- Machine cycles after which the vertical blank has been entered. A phase whose dots are all
spent is left only as time passes, so there is at least one. -/
def cyclesToVBlank (d : Display) : Nat :=
  (d.dotsToVBlank - 1) / dotsPerCycle + 1

end Display
end DotMatrix
