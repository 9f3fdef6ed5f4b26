import DotMatrix.Cpu.Activity
import DotMatrix.Cpu.Registers

/-!
# The processor

The register file, the interrupt master enable and what the processor is doing. An enable that is
scheduled takes effect once the next instruction is complete.
-/

namespace DotMatrix

structure InterruptControl where
  ime : Bool
  scheduled : Bool
deriving DecidableEq

namespace InterruptControl

def powerOn : InterruptControl :=
  ⟨false, false⟩

/-- Takes effect at once and cancels a scheduled enable. -/
def disable (_ : InterruptControl) : InterruptControl :=
  ⟨false, false⟩

def schedule (c : InterruptControl) : InterruptControl :=
  { c with scheduled := true }

def render (c : InterruptControl) : String :=
  "IME=" ++ truth c.ime ++ " (scheduled=" ++ truth c.scheduled ++ ")"
where
  truth (b : Bool) : String := if b then "true" else "false"

end InterruptControl

structure Cpu where
  regs : Registers
  interrupts : InterruptControl
  activity : Activity
deriving DecidableEq

namespace Cpu

def powerOn : Cpu where
  regs := Registers.powerOn
  interrupts := InterruptControl.powerOn
  activity := .running

def render (c : Cpu) : String :=
  "CPU \x7b " ++ c.regs.render ++ " " ++ c.interrupts.render ++ " State=" ++ c.activity.text ++
    " \x7d"

end Cpu
end DotMatrix
