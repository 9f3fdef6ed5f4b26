/-!
# What the processor is doing

A halted or stopped processor fetches nothing until an interrupt is pending.
-/

namespace DotMatrix

inductive Activity where
  | running | halted | stopped
deriving DecidableEq

def Activity.text : Activity → String
  | .running => "Running"
  | .halted => "Halted"
  | .stopped => "Stopped"

end DotMatrix
