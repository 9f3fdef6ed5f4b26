import DotMatrix.Cartridge
import DotMatrix.Cpu.Step
import DotMatrix.Display.Basic
import DotMatrix.Memory.Observed
import DotMatrix.Timer
import DotMatrix.Trail

/-!
# The machine

Processor, timer and display on one bus. A step runs the processor once and then moves the timer and
the display on by the cycles that it took. A frame is the steps up to the next vertical blank.
-/

namespace DotMatrix

/-- What is told besides the run itself. Neither option changes the run. -/
structure Options where
  /-- Tell of every instruction before it runs. -/
  traceInstructions : Bool
  /-- Tell of writes into cartridge ROM. -/
  reportRomWrites : Bool
deriving DecidableEq

def Options.default : Options :=
  ⟨false, true⟩

structure Machine (M : Type) where
  core : Core M
  display : Display
  timer : Timer
  header : Header
  options : Options
  trail : Trail
  cycles : Nat

namespace Machine

variable {M : Type} [OnBus M]

/-- The machine at power-on with a memory that the cartridge is already mapped into. -/
def powerOn (header : Header) (options : Options) (m : M) : Machine M where
  core := ⟨Cpu.powerOn, m⟩
  display := Display.powerOn
  timer := Timer.powerOn
  header := header
  options := options
  trail := Trail.empty
  cycles := 0

def busOf (c : Cartridge) (options : Options) : Bus :=
  (Bus.ofImage c.image).setReportsRomWrites options.reportRomWrites

def ofImage (image : List UInt8) (options : Options) : Except CartridgeError (Machine Bus) :=
  (Cartridge.ofImage image).map fun c => powerOn c.header options (busOf c options)

def observe (m : Machine M) : Machine (Observed M) where
  core := ⟨m.core.cpu, Observed.start m.core.memory⟩
  display := m.display
  timer := m.timer
  header := m.header
  options := m.options
  trail := m.trail
  cycles := m.cycles

/-- The machine without the watcher of its memory. -/
def unobserve (m : Machine (Observed M)) : Machine M where
  core := ⟨m.core.cpu, m.core.memory.memory⟩
  display := m.display
  timer := m.timer
  header := m.header
  options := m.options
  trail := m.trail
  cycles := m.cycles

/-- The cost of a step in machine cycles, and whether the display entered the vertical blank. -/
structure Tick where
  cycles : Nat
  enteredVBlank : Bool

/-- Told before a running processor is stepped, whether or not it then serves an interrupt. -/
def announce (m : Machine M) : Machine M :=
  if m.core.cpu.activity == .running && m.options.traceInstructions then
    match Memory.fetch m.core.memory m.core.cpu.regs.pc with
    | .ok i => { m with core := m.core.note (.executing m.core.cpu.regs.pc i) }
    | .error _ => m
  else m

def advanceDevices (m : Machine M) (cycles : Nat) : Bool × Machine M :=
  let (timer, memory) := m.timer.advance m.core.memory cycles
  let p := m.display.advance memory cycles
  (p.enteredVBlank,
    { m with
      core.memory := p.memory
      timer := timer
      display := p.display
      cycles := m.cycles + cycles })

def tick (m : Machine M) : Except DecodeError Tick × Machine M :=
  let m := m.announce
  let pc := m.core.cpu.regs.pc
  let running := m.core.cpu.activity == .running
  match m.core.step with
  | (.error e, core) =>
    (.error e, { m with core := core.note (.stepFailed e m.trail.toList) })
  | (.ok cycles, core) =>
    let trail := if running then m.trail.push pc else m.trail
    let (vblank, m) := { m with core := core, trail := trail }.advanceDevices cycles
    (.ok ⟨cycles, vblank⟩, m)

def step (m : Machine M) : Except DecodeError Nat × Machine M :=
  let (result, m) := m.tick
  (result.map (·.cycles), m)

/-- Ticks until the vertical blank is entered, at most `n` times. -/
def ticksToVBlank (m : Machine M) : Nat → Except DecodeError Unit × Machine M
  | 0 => (.ok (), m)
  | n + 1 =>
    match m.tick with
    | (.error e, m) => (.error e, m)
    | (.ok t, m) => if t.enteredVBlank then (.ok (), m) else m.ticksToVBlank n

def nextFrame (m : Machine M) : Except DecodeError Unit × Machine M :=
  m.ticksToVBlank m.display.cyclesToVBlank

def frames (m : Machine M) : Nat → Except DecodeError Unit × Machine M
  | 0 => (.ok (), m)
  | n + 1 =>
    match m.nextFrame with
    | (.error e, m) => (.error e, m)
    | (.ok _, m) => m.frames n

end Machine
end DotMatrix
