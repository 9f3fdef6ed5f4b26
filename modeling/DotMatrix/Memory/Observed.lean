import DotMatrix.Memory.Bus

/-!
# Watched memories

A watched memory keeps every event that it was told of, in order. Apart from that it behaves as the
memory that it watches.
-/

namespace DotMatrix

structure Observed (M : Type) where
  memory : M
  events : Array Event

namespace Observed

variable {M : Type}

def start (m : M) : Observed M :=
  ⟨m, #[]⟩

instance [Memory M] : Memory (Observed M) where
  read o := Memory.read o.memory
  write o a v :=
    ⟨Memory.write o.memory a v, o.events ++ Memory.writeEvents o.memory a v⟩
  writeEvents o := Memory.writeEvents o.memory
  note o e := ⟨o.memory, o.events.push e⟩

instance [OnBus M] : OnBus (Observed M) where
  bus o := OnBus.bus o.memory
  mapBus o f := ⟨OnBus.mapBus o.memory f, o.events⟩

end Observed
end DotMatrix
