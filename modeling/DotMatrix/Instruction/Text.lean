import DotMatrix.Instruction.Basic
import DotMatrix.Text.Hex

/-!
# Assembly text

Each instruction has one line of assembly text. Bytes and words are shown in hexadecimal at full
width, offsets in signed decimal.
-/

namespace DotMatrix

def Register.text : Register → String
  | .a => "A"
  | .b => "B"
  | .c => "C"
  | .d => "D"
  | .e => "E"
  | .h => "H"
  | .l => "L"

def WideRegister.text : WideRegister → String
  | .bc => "BC"
  | .de => "DE"
  | .hl => "HL"
  | .sp => "SP"

def StackPair.text : StackPair → String
  | .bc => "BC"
  | .de => "DE"
  | .hl => "HL"
  | .af => "AF"

def Operand.text : Operand → String
  | .reg r => r.text
  | .atHL => "(HL)"

def Pointer.text : Pointer → String
  | .bc => "(BC)"
  | .de => "(DE)"
  | .hlUp => "(HL+)"
  | .hlDown => "(HL-)"

def Source.text : Source → String
  | .operand o => o.text
  | .immediate n => Hex.byte n

def Condition.text : Condition → String
  | .zero => "Z"
  | .notZero => "NZ"
  | .carry => "C"
  | .notCarry => "NC"

/-- The operation together with its destination, where the assembler writes it. -/
def AluOp.text : AluOp → String
  | .add => "ADD A, "
  | .adc => "ADC A, "
  | .sub => "SUB "
  | .sbc => "SBC A, "
  | .and => "AND "
  | .xor => "XOR "
  | .or => "OR "
  | .cp => "CP "

def Shift.text : Shift → String
  | .rlc => "RLC"
  | .rrc => "RRC"
  | .rl => "RL"
  | .rr => "RR"
  | .sla => "SLA"
  | .sra => "SRA"
  | .swap => "SWAP"
  | .srl => "SRL"

def Rotation.text : Rotation → String
  | .rlca => "RLCA"
  | .rrca => "RRCA"
  | .rla => "RLA"
  | .rra => "RRA"

def BitOp.text : BitOp → String
  | .test => "BIT"
  | .reset => "RES"
  | .set => "SET"

namespace Instruction

/-- A signed number without a plus sign. -/
def signed (offset : Int8) : String :=
  match offset.toInt with
  | .ofNat n => String.ofList (Nat.toDigits 10 n)
  | .negSucc n => String.ofList ('-' :: Nat.toDigits 10 (n + 1))

/-- A signed number that always carries its sign. -/
def explicitlySigned (offset : Int8) : String :=
  match offset.toInt with
  | .ofNat n => String.ofList ('+' :: Nat.toDigits 10 n)
  | .negSucc n => String.ofList ('-' :: Nat.toDigits 10 (n + 1))

/-- The condition stands in front of the target, which the separator precedes. -/
def conditional (mnemonic : String) : Option Condition → String → String
  | none, target => mnemonic ++ " " ++ target
  | some c, target => mnemonic ++ " " ++ c.text ++ ", " ++ target

def text : Instruction → String
  | nop => "NOP"
  | halt => "HALT"
  | stop _ => "STOP"
  | load dest source => "LD " ++ dest.text ++ ", " ++ source.text
  | loadByte dest n => "LD " ++ dest.text ++ ", " ++ Hex.byte n
  | loadWord dest n => "LD " ++ dest.text ++ ", " ++ Hex.word n
  | loadA source => "LD A, " ++ source.text
  | storeA dest => "LD " ++ dest.text ++ ", A"
  | loadAAt address => "LD A, (" ++ Hex.word address ++ ")"
  | storeAAt address => "LD (" ++ Hex.word address ++ "), A"
  | loadAHigh offset => "LDH A, (" ++ Hex.word (0xFF00 + offset.toUInt16) ++ ")"
  | storeAHigh offset => "LDH (" ++ Hex.word (0xFF00 + offset.toUInt16) ++ "), A"
  | loadAHighC => "LD A, (C)"
  | storeAHighC => "LD (C), A"
  | storeSP address => "LD (" ++ Hex.word address ++ "), SP"
  | loadSPFromHL => "LD SP, HL"
  | loadHLFromSP offset => "LD HL, SP" ++ explicitlySigned offset
  | push pair => "PUSH " ++ pair.text
  | pop pair => "POP " ++ pair.text
  | alu op source => op.text ++ source.text
  | inc o => "INC " ++ o.text
  | dec o => "DEC " ++ o.text
  | addHL r => "ADD HL, " ++ r.text
  | addSP offset => "ADD SP, " ++ signed offset
  | incWide r => "INC " ++ r.text
  | decWide r => "DEC " ++ r.text
  | rotateA rotation => rotation.text
  | shift op o => op.text ++ " " ++ o.text
  | bit op index o => op.text ++ " " ++ String.ofList (Nat.toDigits 10 index) ++ ", " ++ o.text
  | daa => "DAA"
  | cpl => "CPL"
  | scf => "SCF"
  | ccf => "CCF"
  | jumpBy condition offset => conditional "JR" condition (signed offset)
  | jump condition address => conditional "JP" condition (Hex.word address)
  | jumpHL => "JP HL"
  | call condition address => conditional "CALL" condition (Hex.word address)
  | ret none => "RET"
  | ret (some c) => "RET " ++ c.text
  | retEnable => "RETI"
  | restart vector => "RST " ++ Hex.byte (restartAddress vector).toUInt8
  | di => "DI"
  | ei => "EI"

end Instruction
end DotMatrix
