import DotMatrix.Cpu.Alu
import DotMatrix.Cpu.Core

/-!
# Executing an instruction

What each decoded instruction does to the core. The program counter already points behind the
instruction.
-/

namespace DotMatrix.Core

variable {M : Type} [Memory M]

def jumpBy (s : Core M) (offset : Int8) : Core M :=
  s.setPC (s.cpu.regs.pc + offset.toInt16.toUInt16)

def call (s : Core M) (address : UInt16) : Core M :=
  (s.push s.cpu.regs.pc).setPC address

def ret (s : Core M) : Core M :=
  s.drop.setPC s.top

def guarded (s : Core M) (condition : Option Condition) (f : Core M → Core M) : Core M :=
  if Condition.allows condition s.cpu.regs.f then f s else s

/-- Replaces an operand by the result on it and sets the flags. -/
def modify (s : Core M) (o : Operand) (f : UInt8 → UInt8 × Flags) : Core M :=
  let result := f (s.readOperand o)
  (s.setFlags result.2).writeOperand o result.1

def execute (s : Core M) (i : Instruction) : Core M :=
  match i with
  | .nop => s
  | .halt => s.setActivity .halted
  | .stop _ => (s.write Address.divider 0).setActivity .stopped
  | .load dest source => s.writeOperand dest (s.readOperand source)
  | .loadByte dest n => s.writeOperand dest n
  | .loadWord dest n => s.setRegs (s.cpu.regs.setWide dest n)
  | .loadA source => (s.movePointer source).setA (s.read (s.pointee source))
  | .storeA dest => (s.movePointer dest).write (s.pointee dest) s.cpu.regs.a
  | .loadAAt address => s.setA (s.read address)
  | .storeAAt address => s.write address s.cpu.regs.a
  | .loadAHigh offset => s.setA (s.read (Address.high offset))
  | .storeAHigh offset => s.write (Address.high offset) s.cpu.regs.a
  | .loadAHighC => s.setA (s.read (Address.high s.cpu.regs.c))
  | .storeAHighC => s.write (Address.high s.cpu.regs.c) s.cpu.regs.a
  | .storeSP address =>
    let sp := s.cpu.regs.sp
    (s.write address (Word.low sp)).write (address + 1) (Word.high sp)
  | .loadSPFromHL => { s with cpu.regs.sp := s.cpu.regs.hl }
  | .loadHLFromSP offset =>
    let result := Alu.addSigned s.cpu.regs.sp offset
    (s.setRegs (s.cpu.regs.setHL result.1)).setFlags result.2
  | .push pair => s.push (s.cpu.regs.getPair pair)
  | .pop pair =>
    let dropped := s.drop
    dropped.setRegs (dropped.cpu.regs.setPair pair s.top)
  | .alu op source =>
    let result := Alu.apply op s.cpu.regs.a (s.readSource source) s.cpu.regs.f
    (s.setA result.1).setFlags result.2
  | .inc o => s.modify o fun v => Alu.inc v s.cpu.regs.f
  | .dec o => s.modify o fun v => Alu.dec v s.cpu.regs.f
  | .addHL r =>
    let result := Alu.addWide s.cpu.regs.hl (s.cpu.regs.getWide r) s.cpu.regs.f
    (s.setRegs (s.cpu.regs.setHL result.1)).setFlags result.2
  | .addSP offset =>
    let result := Alu.addSigned s.cpu.regs.sp offset
    { s with cpu.regs.sp := result.1, cpu.regs.f := result.2 }
  | .incWide r => s.setRegs (s.cpu.regs.setWide r (s.cpu.regs.getWide r + 1))
  | .decWide r => s.setRegs (s.cpu.regs.setWide r (s.cpu.regs.getWide r - 1))
  | .rotateA rotation =>
    let result := Alu.shift rotation.shift s.cpu.regs.a s.cpu.regs.f.carry
    (s.setA result.1).setFlags (Flags.afterShift false result.2)
  | .shift op o =>
    s.modify o fun v =>
      let result := Alu.shift op v s.cpu.regs.f.carry
      (result.1, Flags.afterShift (result.1 == 0) result.2)
  | .bit .test index o =>
    s.setFlags ⟨!Byte.bit (s.readOperand o) index, false, true, s.cpu.regs.f.carry⟩
  | .bit .reset index o => s.writeOperand o (s.readOperand o &&& ~~~Byte.single index)
  | .bit .set index o => s.writeOperand o (s.readOperand o ||| Byte.single index)
  | .daa =>
    let result := Alu.decimalAdjust s.cpu.regs.a s.cpu.regs.f
    (s.setA result.1).setFlags result.2
  | .cpl =>
    { s with
      cpu.regs.a := ~~~s.cpu.regs.a
      cpu.regs.f.subtract := true
      cpu.regs.f.halfCarry := true }
  | .scf => s.setFlags ⟨s.cpu.regs.f.zero, false, false, true⟩
  | .ccf => s.setFlags ⟨s.cpu.regs.f.zero, false, false, !s.cpu.regs.f.carry⟩
  | .jumpBy condition offset => s.guarded condition (·.jumpBy offset)
  | .jump condition address => s.guarded condition (·.setPC address)
  | .jumpHL => s.setPC s.cpu.regs.hl
  | .call condition address => s.guarded condition (·.call address)
  | .ret condition => s.guarded condition (·.ret)
  | .retEnable => { s.ret with cpu.interrupts.ime := true }
  | .restart vector => s.call (Instruction.restartAddress vector)
  | .di => s.setInterrupts s.cpu.interrupts.disable
  | .ei => s.setInterrupts s.cpu.interrupts.schedule

end DotMatrix.Core
