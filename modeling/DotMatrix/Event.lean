import DotMatrix.Cpu.Activity
import DotMatrix.Display.Phase
import DotMatrix.Instruction.Decode
import DotMatrix.Instruction.Text
import DotMatrix.Interrupt.Source
import DotMatrix.Text.Quoted

/-!
# Events

What the machine tells whoever is watching it. Each event has a level and a message; the machine
itself never reads an event back.
-/

namespace DotMatrix

/-- From the most to the least severe. -/
inductive Level where
  | error | warn | info | debug | trace
deriving DecidableEq

namespace Level

def text : Level → String
  | .error => "ERROR"
  | .warn => "WARN"
  | .info => "INFO"
  | .debug => "DEBUG"
  | .trace => "TRACE"

def verbosity : Level → Nat
  | .error => 0
  | .warn => 1
  | .info => 2
  | .debug => 3
  | .trace => 4

/-- Whether events of level `l` are shown when everything up to `limit` is. -/
def shows (limit l : Level) : Bool :=
  l.verbosity ≤ limit.verbosity

end Level

inductive Event where
  | imageTruncated (size : Nat)
  | cartridgeLoaded (title : String) (cartridgeType : UInt8)
  | executing (pc : UInt16) (i : Instruction)
  | stepFailed (e : DecodeError) (recent : List UInt16)
  | dispatching (i : Interrupt) (pc : UInt16)
  | wakingUp (activity : Activity)
  | writing (address : UInt16) (v : UInt8)
  | discardingWrite (address : UInt16) (v : UInt8)
  | copyingToOam (source : UInt16)
  | timerOverflow (reload : UInt8)
  | enteringVBlank
  | lcdRequested (line : UInt8) (phase : Phase)

namespace Event

def level : Event → Level
  | imageTruncated _ => .warn
  | cartridgeLoaded _ _ => .info
  | stepFailed _ _ => .error
  | wakingUp _ | discardingWrite _ _ | copyingToOam _ => .debug
  | executing _ _ | dispatching _ _ | writing _ _ | timerOverflow _ | enteringVBlank
  | lcdRequested _ _ => .trace

def decimal (n : Nat) : String :=
  String.ofList (Nat.toDigits 10 n)

def message : Event → String
  | imageTruncated size =>
    "Cartridge image is " ++ decimal size ++ " bytes, only the first 32768 are mapped"
  | cartridgeLoaded title cartridgeType =>
    "Loaded cartridge " ++ Quoted.encode title ++ " (type " ++ Hex.byte cartridgeType ++ ")"
  | executing pc i => Hex.word pc ++ ": " ++ i.text
  | stepFailed e recent =>
    e.message ++ ", recent program counters: " ++ " ".intercalate (recent.map Hex.word)
  | dispatching i pc => "Dispatching " ++ i.text ++ " interrupt from " ++ Hex.word pc
  | wakingUp activity => "Waking up from " ++ activity.text
  | writing address v => "Write " ++ Hex.byte v ++ " -> " ++ Hex.word address
  | discardingWrite address v =>
    "Discarding write of " ++ Hex.byte v ++ " to ROM address " ++ Hex.word address
  | copyingToOam source => "OAM DMA from " ++ Hex.word source
  | timerOverflow reload => "Timer overflow, reloading " ++ Hex.byte reload
  | enteringVBlank => "Entering vertical blank"
  | lcdRequested line phase =>
    "LCD interrupt requested on scanline " ++ decimal line.toNat ++ " in " ++ phase.text

def line (e : Event) : String :=
  e.level.text ++ " " ++ e.message

end Event
end DotMatrix
