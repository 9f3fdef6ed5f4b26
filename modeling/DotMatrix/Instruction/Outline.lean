import DotMatrix.Instruction.Basic

/-!
# Outlines

An outline spells out how an instruction is built: the name of its kind with its parts in
parentheses, or in braces where the parts are named. Numbers are in decimal.
-/

namespace DotMatrix

/-- A name with positional parts or with named parts. A name without parts stands alone. -/
inductive Outline where
  | tuple (name : String) (parts : List Outline)
  | fields (name : String) (parts : List (String × Outline))

namespace Outline

def name (s : String) : Outline :=
  .tuple s []

def nat (n : Nat) : Outline :=
  name (String.ofList (Nat.toDigits 10 n))

def int : Int → Outline
  | .ofNat n => nat n
  | .negSucc n => name (String.ofList ('-' :: Nat.toDigits 10 (n + 1)))

mutual

def render : Outline → String
  | .tuple s [] => s
  | .tuple s (p :: ps) => s ++ "(" ++ render p ++ renderRest ps ++ ")"
  | .fields s [] => s
  | .fields s ((f, p) :: ps) =>
    s ++ " \x7b " ++ f ++ ": " ++ render p ++ renderFields ps ++ " \x7d"

def renderRest : List Outline → String
  | [] => ""
  | p :: ps => ", " ++ render p ++ renderRest ps

def renderFields : List (String × Outline) → String
  | [] => ""
  | (f, p) :: ps => ", " ++ f ++ ": " ++ render p ++ renderFields ps

end

end Outline

open Outline (name nat int)

def Register.outline : Register → Outline
  | .a => name "A"
  | .b => name "B"
  | .c => name "C"
  | .d => name "D"
  | .e => name "E"
  | .h => name "H"
  | .l => name "L"

def WideRegister.outline : WideRegister → Outline
  | .bc => name "BC"
  | .de => name "DE"
  | .hl => name "HL"
  | .sp => name "SP"

def StackPair.outline : StackPair → Outline
  | .bc => name "BC"
  | .de => name "DE"
  | .hl => name "HL"
  | .af => name "AF"

def Operand.outline : Operand → Outline
  | .reg r => .tuple "Reg" [r.outline]
  | .atHL => name "Pointer"

def Pointer.outline : Pointer → Outline
  | .bc => name "BC"
  | .de => name "DE"
  | .hlUp => name "Hli"
  | .hlDown => name "Hld"

def Source.outline : Source → Outline
  | .operand o => .tuple "Referenced" [o.outline]
  | .immediate n => .tuple "Direct" [nat n.toNat]

def Condition.outline : Condition → Outline
  | .zero => name "Zero"
  | .notZero => name "NotZero"
  | .carry => name "Carry"
  | .notCarry => name "NotCarry"

def AluOp.outlineName : AluOp → String
  | .add => "Add"
  | .adc => "Adc"
  | .sub => "Sub"
  | .sbc => "Sbc"
  | .and => "And"
  | .xor => "Xor"
  | .or => "Or"
  | .cp => "Cp"

def Shift.outlineName : Shift → String
  | .rlc => "Rlc"
  | .rrc => "Rrc"
  | .rl => "Rl"
  | .rr => "Rr"
  | .sla => "Sla"
  | .sra => "Sra"
  | .swap => "Swap"
  | .srl => "Srl"

def Rotation.outline : Rotation → Outline
  | .rlca => name "Rlca"
  | .rrca => name "Rrca"
  | .rla => name "Rla"
  | .rra => name "Rra"

def BitOp.outline : BitOp → Outline
  | .test => name "Bit"
  | .reset => name "Res"
  | .set => name "Set"

namespace Instruction

def outlineLoad (o : Outline) : Outline := .tuple "Load" [o]
def outlineControl (o : Outline) : Outline := .tuple "ControlOp" [o]
def outlineArithmetic (o : Outline) : Outline := .tuple "Arithmetic" [o]
def outlineShift (o : Outline) : Outline := .tuple "BitShift" [o]
def outlineJump (o : Outline) : Outline := .tuple "Jump" [o]

/-- Jumps with a condition have a name of their own and the condition as first part. -/
def outlineConditional (plain guarded : String) (condition : Option Condition)
    (parts : List Outline) : Outline :=
  match condition with
  | none => outlineJump (.tuple plain parts)
  | some c => outlineJump (.tuple guarded (c.outline :: parts))

def outline : Instruction → Outline
  | nop => outlineControl (name "Noop")
  | halt => outlineControl (name "Halt")
  | stop padding => outlineControl (.tuple "Stop" [nat padding.toNat])
  | load dest source =>
    outlineLoad (.fields "Basic" [("dest", dest.outline), ("src", source.outline)])
  | loadByte dest n => outlineLoad (.tuple "Direct" [dest.outline, nat n.toNat])
  | loadWord dest n => outlineLoad (.tuple "Direct16" [dest.outline, nat n.toNat])
  | loadA source => outlineLoad (.tuple "LoadIntoA" [source.outline])
  | storeA dest => outlineLoad (.tuple "StoreFromA" [dest.outline])
  | loadAAt address => outlineLoad (.fields "LoadA" [("ptr", nat address.toNat)])
  | storeAAt address => outlineLoad (.fields "StoreA" [("ptr", nat address.toNat)])
  | loadAHigh offset => outlineLoad (.tuple "LoadHigh" [nat offset.toNat])
  | storeAHigh offset => outlineLoad (.tuple "StoreHigh" [nat offset.toNat])
  | loadAHighC => outlineLoad (name "LoadC")
  | storeAHighC => outlineLoad (name "StoreC")
  | storeSP address => outlineLoad (.tuple "StoreSP" [nat address.toNat])
  | loadSPFromHL => outlineLoad (name "HLIntoSP")
  | loadHLFromSP offset => outlineLoad (.tuple "SPIntoHL" [int offset.toInt])
  | push pair => outlineLoad (.tuple "Push" [pair.outline])
  | pop pair => outlineLoad (.tuple "Pop" [pair.outline])
  | alu op source => outlineArithmetic (.tuple op.outlineName [source.outline])
  | inc o => outlineArithmetic (.tuple "Inc" [o.outline])
  | dec o => outlineArithmetic (.tuple "Dec" [o.outline])
  | addHL r => outlineArithmetic (.tuple "Add16" [r.outline])
  | addSP offset => outlineArithmetic (.tuple "AddSP" [int offset.toInt])
  | incWide r => outlineArithmetic (.tuple "Inc16" [r.outline])
  | decWide r => outlineArithmetic (.tuple "Dec16" [r.outline])
  | rotateA rotation => outlineShift rotation.outline
  | shift op o => outlineShift (.tuple op.outlineName [o.outline])
  | bit op index o =>
    .tuple "Bit" [.fields "BitOp" [("bit", nat index), ("reg", o.outline), ("op", op.outline)]]
  | daa => name "Daa"
  | cpl => name "Cpl"
  | scf => name "Scf"
  | ccf => name "Ccf"
  | jumpBy condition offset =>
    outlineConditional "Relative" "ConditionalRelative" condition [int offset.toInt]
  | jump condition address =>
    outlineConditional "Absolute" "ConditionalAbsolute" condition [nat address.toNat]
  | jumpHL => outlineJump (name "JumpToHL")
  | call condition address =>
    outlineConditional "Call" "ConditionalCall" condition [nat address.toNat]
  | ret condition => outlineConditional "Return" "ConditionalReturn" condition []
  | retEnable => outlineJump (name "ReturnAndEnable")
  | restart vector => outlineJump (.tuple "Restart" [nat (restartAddress vector).toNat])
  | di => name "Di"
  | ei => name "Ei"

end Instruction
end DotMatrix
