import DotMatrix.Instruction.Basic

/-!
# Length and cost

The encoded length in bytes and the cost in machine cycles. Only jumps, calls and returns with a
condition have two costs; which one applies is decided on the flags before the instruction runs.
-/

namespace DotMatrix

def Operand.inMemory : Operand → Bool
  | .reg _ => false
  | .atHL => true

/-- An operand outside the registers costs one more cycle for the bus. -/
def Source.outsideRegisters : Source → Bool
  | .operand o => o.inMemory
  | .immediate _ => true

namespace Instruction

def size : Instruction → Nat
  | stop _ => 2
  | loadByte _ _ => 2
  | loadWord _ _ => 3
  | loadAAt _ | storeAAt _ | storeSP _ => 3
  | loadAHigh _ | storeAHigh _ | loadHLFromSP _ => 2
  | alu _ (.immediate _) => 2
  | addSP _ => 2
  | shift _ _ | bit _ _ _ => 2
  | jumpBy _ _ => 2
  | jump _ _ | call _ _ => 3
  | _ => 1

def cycles (i : Instruction) (f : Flags) : Nat :=
  match i with
  | load dest source => if dest.inMemory || source.inMemory then 2 else 1
  | loadByte dest _ => if dest.inMemory then 3 else 2
  | loadWord _ _ => 3
  | loadA _ | storeA _ => 2
  | loadAAt _ | storeAAt _ => 4
  | loadAHigh _ | storeAHigh _ => 3
  | loadAHighC | storeAHighC => 2
  | storeSP _ => 5
  | loadSPFromHL => 2
  | loadHLFromSP _ => 3
  | push _ => 4
  | pop _ => 3
  | alu _ source => if source.outsideRegisters then 2 else 1
  | inc o | dec o => if o.inMemory then 3 else 1
  | addHL _ | incWide _ | decWide _ => 2
  | addSP _ => 4
  | shift _ o => if o.inMemory then 4 else 2
  | bit .test _ o => if o.inMemory then 3 else 2
  | bit _ _ o => if o.inMemory then 4 else 2
  | jumpBy condition _ => if Condition.allows condition f then 3 else 2
  | jump condition _ => if Condition.allows condition f then 4 else 3
  | jumpHL => 1
  | call condition _ => if Condition.allows condition f then 6 else 3
  | ret none => 4
  | ret (some c) => if c.holds f then 5 else 2
  | retEnable | restart _ => 4
  | nop | halt | stop _ | rotateA _ | daa | cpl | scf | ccf | di | ei => 1

theorem size_pos (i : Instruction) : 0 < i.size := by
  unfold size
  split <;> decide

theorem size_le_three (i : Instruction) : i.size ≤ 3 := by
  unfold size
  split <;> decide

theorem cycles_pos (i : Instruction) (f : Flags) : 0 < i.cycles f := by
  unfold cycles
  repeat' split
  all_goals decide

theorem cycles_le_six (i : Instruction) (f : Flags) : i.cycles f ≤ 6 := by
  unfold cycles
  repeat' split
  all_goals decide

end Instruction
end DotMatrix
