import DotMatrix.Instruction.Cost
import DotMatrix.Word

/-!
# Encoding

The bytes of an instruction, computed from the three-bit and two-bit codes of its parts. Nothing
here looks at the op code map. The load of (HL) from itself has no encoding of its own: its byte is
that of HALT.
-/

namespace DotMatrix

def Register.code : Register → Nat
  | .b => 0
  | .c => 1
  | .d => 2
  | .e => 3
  | .h => 4
  | .l => 5
  | .a => 7

def Operand.code : Operand → Nat
  | .reg r => r.code
  | .atHL => 6

def WideRegister.code : WideRegister → Nat
  | .bc => 0
  | .de => 1
  | .hl => 2
  | .sp => 3

def StackPair.code : StackPair → Nat
  | .bc => 0
  | .de => 1
  | .hl => 2
  | .af => 3

def Pointer.code : Pointer → Nat
  | .bc => 0
  | .de => 1
  | .hlUp => 2
  | .hlDown => 3

def Condition.code : Condition → Nat
  | .notZero => 0
  | .zero => 1
  | .notCarry => 2
  | .carry => 3

def AluOp.code : AluOp → Nat
  | .add => 0
  | .adc => 1
  | .sub => 2
  | .sbc => 3
  | .and => 4
  | .xor => 5
  | .or => 6
  | .cp => 7

def Shift.code : Shift → Nat
  | .rlc => 0
  | .rrc => 1
  | .rl => 2
  | .rr => 3
  | .sla => 4
  | .sra => 5
  | .swap => 6
  | .srl => 7

def Rotation.code : Rotation → Nat
  | .rlca => 0
  | .rrca => 1
  | .rla => 2
  | .rra => 3

def BitOp.code : BitOp → Nat
  | .test => 1
  | .reset => 2
  | .set => 3

namespace Instruction

/-- A byte of two, three and three bits. -/
def packed (x y z : Nat) : UInt8 :=
  UInt8.ofNat (64 * x + 8 * y + z)

/-- A first byte with the word behind it, low byte first. -/
def withWord (first : UInt8) (w : UInt16) : List UInt8 :=
  [first, Word.low w, Word.high w]

def encode : Instruction → List UInt8
  | nop => [packed 0 0 0]
  | halt => [packed 1 6 6]
  | stop padding => [packed 0 2 0, padding]
  | load dest source => [packed 1 dest.code source.code]
  | loadByte dest n => [packed 0 dest.code 6, n]
  | loadWord dest n => withWord (packed 0 (2 * dest.code) 1) n
  | loadA source => [packed 0 (2 * source.code + 1) 2]
  | storeA dest => [packed 0 (2 * dest.code) 2]
  | loadAAt address => withWord (packed 3 7 2) address
  | storeAAt address => withWord (packed 3 5 2) address
  | loadAHigh offset => [packed 3 6 0, offset]
  | storeAHigh offset => [packed 3 4 0, offset]
  | loadAHighC => [packed 3 6 2]
  | storeAHighC => [packed 3 4 2]
  | storeSP address => withWord (packed 0 1 0) address
  | loadSPFromHL => [packed 3 7 1]
  | loadHLFromSP offset => [packed 3 7 0, offset.toUInt8]
  | push pair => [packed 3 (2 * pair.code) 5]
  | pop pair => [packed 3 (2 * pair.code) 1]
  | alu op (.operand o) => [packed 2 op.code o.code]
  | alu op (.immediate n) => [packed 3 op.code 6, n]
  | inc o => [packed 0 o.code 4]
  | dec o => [packed 0 o.code 5]
  | addHL r => [packed 0 (2 * r.code + 1) 1]
  | addSP offset => [packed 3 5 0, offset.toUInt8]
  | incWide r => [packed 0 (2 * r.code) 3]
  | decWide r => [packed 0 (2 * r.code + 1) 3]
  | rotateA rotation => [packed 0 rotation.code 7]
  | shift op o => [packed 3 1 3, packed 0 op.code o.code]
  | bit op index o => [packed 3 1 3, packed op.code index o.code]
  | daa => [packed 0 4 7]
  | cpl => [packed 0 5 7]
  | scf => [packed 0 6 7]
  | ccf => [packed 0 7 7]
  | jumpBy none offset => [packed 0 3 0, offset.toUInt8]
  | jumpBy (some c) offset => [packed 0 (4 + c.code) 0, offset.toUInt8]
  | jump none address => withWord (packed 3 0 3) address
  | jump (some c) address => withWord (packed 3 c.code 2) address
  | jumpHL => [packed 3 5 1]
  | call none address => withWord (packed 3 1 5) address
  | call (some c) address => withWord (packed 3 c.code 4) address
  | ret none => [packed 3 1 1]
  | ret (some c) => [packed 3 c.code 0]
  | retEnable => [packed 3 3 1]
  | restart vector => [packed 3 vector 7]
  | di => [packed 3 6 3]
  | ei => [packed 3 7 3]

theorem length_encode (i : Instruction) : i.encode.length = i.size := by
  cases i with
  | alu _ source => cases source <;> rfl
  | jumpBy condition _ => cases condition <;> rfl
  | jump condition _ => cases condition <;> rfl
  | call condition _ => cases condition <;> rfl
  | ret condition => cases condition <;> rfl
  | _ => rfl

end Instruction
end DotMatrix
