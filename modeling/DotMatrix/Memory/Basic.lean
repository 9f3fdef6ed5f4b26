import DotMatrix.Event
import DotMatrix.Memory.Address
import DotMatrix.Memory.Store

/-!
# Memories

A memory answers reads and takes writes. It may be watched: then it is told of events, and knows
which events a write brings about. The bare store is a memory without side effects and without a
watcher.
-/

namespace DotMatrix

class Memory (M : Type) where
  read : M → UInt16 → UInt8
  write : M → UInt16 → UInt8 → M
  /-- What a watcher is told of a write, in order. -/
  writeEvents : M → UInt16 → UInt8 → List Event
  /-- Tells the watcher, if there is one. -/
  note : M → Event → M

instance : Memory Store where
  read := Store.get
  write := Store.set
  writeEvents _ _ _ := []
  note s _ := s

namespace Memory

variable {M : Type} [Memory M]

def update (m : M) (a : UInt16) (f : UInt8 → UInt8) : M :=
  write m a (f (read m a))

def request (m : M) (i : Interrupt) : M :=
  update m Address.interruptFlags (· ||| i.mask)

/-- The interrupts that are both requested and enabled. -/
def pending (m : M) : UInt8 :=
  read m Address.interruptFlags &&& read m Address.interruptEnable &&& 0x1F

def fetch (m : M) (pc : UInt16) : Except DecodeError Instruction :=
  Instruction.decodeAt (read m) pc

end Memory
end DotMatrix
