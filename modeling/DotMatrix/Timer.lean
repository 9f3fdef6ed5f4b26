import DotMatrix.Memory.Bus

/-!
# The timer

The divider is stepped every 64 machine cycles and the timer counter at the period that its control
byte selects. Both registers live on the bus; the timer holds the cycles since their last step.
-/

namespace DotMatrix

structure Timer where
  sinceDivider : Nat
  sinceCounter : Nat
deriving DecidableEq

namespace Timer

variable {M : Type} [OnBus M]

def powerOn : Timer :=
  ⟨0, 0⟩

def dividerPeriod : Nat := 64

/-- Machine cycles between two steps of the timer counter. -/
def period (control : UInt8) : Nat :=
  match control &&& 0x03 with
  | 0 => 256
  | 1 => 4
  | 2 => 16
  | _ => 64

def enabled (control : UInt8) : Bool :=
  Byte.bit control 2

/-- Past its last value the counter starts over from the modulo and the interrupt is requested. -/
def stepCounter (m : M) : M :=
  let count := Memory.read m Address.timerCounter
  if count = 0xFF then
    let reload := Memory.read m Address.timerModulo
    let m := Memory.note m (.timerOverflow reload)
    Memory.request (Memory.write m Address.timerCounter reload) .timer
  else Memory.write m Address.timerCounter (count + 1)

def advanceDivider (t : Timer) (m : M) : Timer × M :=
  if t.sinceDivider + 1 = dividerPeriod then
    let v := Memory.read m Address.divider + 1
    ({ t with sinceDivider := 0 }, OnBus.mapBus m (·.setDivider v))
  else ({ t with sinceDivider := t.sinceDivider + 1 }, m)

def advanceCounter (t : Timer) (m : M) : Timer × M :=
  let control := Memory.read m Address.timerControl
  if enabled control then
    if period control ≤ t.sinceCounter + 1 then
      ({ t with sinceCounter := 0 }, stepCounter m)
    else ({ t with sinceCounter := t.sinceCounter + 1 }, m)
  else (t, m)

def tick (t : Timer) (m : M) : Timer × M :=
  let (t, m) := t.advanceDivider m
  t.advanceCounter m

def ticks (t : Timer) (m : M) : Nat → Timer × M
  | 0 => (t, m)
  | n + 1 =>
    let (t, m) := t.tick m
    t.ticks m n

/-- A write to the divider also restarts the cycles counted towards both steps. -/
def acceptReset (t : Timer) (m : M) : Timer × M :=
  if (OnBus.bus m).dividerReset then (powerOn, OnBus.mapBus m Bus.clearDividerReset)
  else (t, m)

def advance (t : Timer) (m : M) (cycles : Nat) : Timer × M :=
  let (t, m) := t.acceptReset m
  t.ticks m cycles

end Timer
end DotMatrix
