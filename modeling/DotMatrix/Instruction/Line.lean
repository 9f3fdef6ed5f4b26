import DotMatrix.Instruction.OpcodeMap
import DotMatrix.Instruction.Text
import DotMatrix.Text.Digits

/-!
# Lines of assembly text

The text of an instruction is a mnemonic with at most two operands. A line is taken apart at its
spaces, each operand is read for itself, and the instruction is found from the mnemonic and from
what kind of operands it has.
-/

namespace DotMatrix

inductive Token where
  | name (s : String)
  | byte (n : UInt8)
  | word (n : UInt16)
  | address (n : UInt16)
  | offset (n : Int8)
  /-- The stack pointer with what is added to it. -/
  | stackOffset (n : Int8)
deriving DecidableEq

namespace Token

def text : Token → String
  | name s => s
  | byte n => Hex.byte n
  | word n => Hex.word n
  | address n => "(" ++ Hex.word n ++ ")"
  | offset n => Instruction.signed n
  | stackOffset n => "SP" ++ Instruction.explicitlySigned n

/-- The width tells a byte from a word. -/
def ofHexDigits (digits : List Char) : Token :=
  if digits.length ≤ 2 then byte (UInt8.ofNat (Digits.toNat 16 digits))
  else word (UInt16.ofNat (Digits.toNat 16 digits))

def ofChars : List Char → Token
  | '0' :: 'x' :: digits => ofHexDigits digits
  | '(' :: '0' :: 'x' :: digits => address (UInt16.ofNat (Digits.toNat 16 digits.dropLast))
  | 'S' :: 'P' :: '+' :: digits => stackOffset (Int8.ofNat (Digits.toNat 10 digits))
  | 'S' :: 'P' :: '-' :: digits => stackOffset (-Int8.ofNat (Digits.toNat 10 digits))
  | '-' :: digits => offset (-Int8.ofNat (Digits.toNat 10 digits))
  | cs =>
    if cs.all Char.isDigit then offset (Int8.ofNat (Digits.toNat 10 cs))
    else name (String.ofList cs)

end Token

inductive Line where
  | bare (mnemonic : String)
  | unary (mnemonic : String) (operand : Token)
  | binary (mnemonic : String) (first second : Token)

namespace Line

def text : Line → String
  | bare mnemonic => mnemonic
  | unary mnemonic operand => mnemonic ++ " " ++ operand.text
  | binary mnemonic first second => mnemonic ++ " " ++ first.text ++ ", " ++ second.text

/-- The comma always stands in front of a space, so that it tells nothing. -/
def ofText? (s : String) : Option Line :=
  match (s.toList.filter (· != ',')).splitOn ' ' with
  | [mnemonic] => some (bare (String.ofList mnemonic))
  | [mnemonic, operand] => some (unary (String.ofList mnemonic) (Token.ofChars operand))
  | [mnemonic, first, second] =>
    some (binary (String.ofList mnemonic) (Token.ofChars first) (Token.ofChars second))
  | _ => none

end Line

/-! ## The line of an instruction -/

def Source.token : Source → Token
  | .operand o => .name o.text
  | .immediate n => .byte n

def AluOp.mnemonic : AluOp → String
  | .add => "ADD"
  | .adc => "ADC"
  | .sub => "SUB"
  | .sbc => "SBC"
  | .and => "AND"
  | .xor => "XOR"
  | .or => "OR"
  | .cp => "CP"

def AluOp.line (op : AluOp) (source : Token) : Line :=
  match op with
  | .add | .adc | .sbc => .binary op.mnemonic (.name "A") source
  | .sub | .and | .xor | .or | .cp => .unary op.mnemonic source

namespace Instruction

def conditionalLine (mnemonic : String) (condition : Option Condition) (target : Token) : Line :=
  match condition with
  | none => .unary mnemonic target
  | some c => .binary mnemonic (.name c.text) target

def highAddress (offset : UInt8) : Token :=
  .address (0xFF00 + offset.toUInt16)

def line : Instruction → Line
  | nop => .bare "NOP"
  | halt => .bare "HALT"
  | stop _ => .bare "STOP"
  | load dest source => .binary "LD" (.name dest.text) (.name source.text)
  | loadByte dest n => .binary "LD" (.name dest.text) (.byte n)
  | loadWord dest n => .binary "LD" (.name dest.text) (.word n)
  | loadA source => .binary "LD" (.name "A") (.name source.text)
  | storeA dest => .binary "LD" (.name dest.text) (.name "A")
  | loadAAt address => .binary "LD" (.name "A") (.address address)
  | storeAAt address => .binary "LD" (.address address) (.name "A")
  | loadAHigh offset => .binary "LDH" (.name "A") (highAddress offset)
  | storeAHigh offset => .binary "LDH" (highAddress offset) (.name "A")
  | loadAHighC => .binary "LD" (.name "A") (.name "(C)")
  | storeAHighC => .binary "LD" (.name "(C)") (.name "A")
  | storeSP address => .binary "LD" (.address address) (.name "SP")
  | loadSPFromHL => .binary "LD" (.name "SP") (.name "HL")
  | loadHLFromSP offset => .binary "LD" (.name "HL") (.stackOffset offset)
  | push pair => .unary "PUSH" (.name pair.text)
  | pop pair => .unary "POP" (.name pair.text)
  | alu op source => op.line source.token
  | inc o => .unary "INC" (.name o.text)
  | dec o => .unary "DEC" (.name o.text)
  | addHL r => .binary "ADD" (.name "HL") (.name r.text)
  | addSP offset => .binary "ADD" (.name "SP") (.offset offset)
  | incWide r => .unary "INC" (.name r.text)
  | decWide r => .unary "DEC" (.name r.text)
  | rotateA rotation => .bare rotation.text
  | shift op o => .unary op.text (.name o.text)
  | bit op index o => .binary op.text (.offset (Int8.ofNat index)) (.name o.text)
  | daa => .bare "DAA"
  | cpl => .bare "CPL"
  | scf => .bare "SCF"
  | ccf => .bare "CCF"
  | jumpBy condition offset => conditionalLine "JR" condition (.offset offset)
  | jump condition address => conditionalLine "JP" condition (.word address)
  | jumpHL => .unary "JP" (.name "HL")
  | call condition address => conditionalLine "CALL" condition (.word address)
  | ret none => .bare "RET"
  | ret (some c) => .unary "RET" (.name c.text)
  | retEnable => .bare "RETI"
  | restart vector => .unary "RST" (.byte (restartAddress vector).toUInt8)
  | di => .bare "DI"
  | ei => .bare "EI"

/-- What the text of an instruction leaves open. -/
def withoutPadding : Instruction → Instruction
  | stop _ => stop 0
  | i => i

end Instruction

/-! ## The instruction of a line -/

/-- The first of some values that is shown as a text. -/
def shownAs? {α : Type} (text : α → String) (values : List α) (s : String) : Option α :=
  values.find? fun a => text a == s

def Operand.ofText? : String → Option Operand :=
  shownAs? text OpcodeMap.operands

def WideRegister.ofText? : String → Option WideRegister :=
  shownAs? text [.bc, .de, .hl, .sp]

def StackPair.ofText? : String → Option StackPair :=
  shownAs? text [.bc, .de, .hl, .af]

def Pointer.ofText? : String → Option Pointer :=
  shownAs? text [.bc, .de, .hlUp, .hlDown]

def Condition.ofText? : String → Option Condition :=
  shownAs? text [.zero, .notZero, .carry, .notCarry]

def Shift.ofText? : String → Option Shift :=
  shownAs? text [.rlc, .rrc, .rl, .rr, .sla, .sra, .swap, .srl]

def BitOp.ofText? : String → Option BitOp :=
  shownAs? text [.test, .reset, .set]

def AluOp.ofMnemonic? : String → Option AluOp :=
  shownAs? mnemonic [.add, .adc, .sub, .sbc, .and, .xor, .or, .cp]

def Token.source? : Token → Option Source
  | name s => (Operand.ofText? s).map .operand
  | byte n => some (.immediate n)
  | _ => none

def octal? (n : Nat) : Option (Fin 8) :=
  if h : n < 8 then some ⟨n, h⟩ else none

namespace Line

open Instruction

def bare? : String → Option Instruction :=
  shownAs? Instruction.text [nop, halt, stop 0, rotateA .rlca, rotateA .rrca, rotateA .rla,
    rotateA .rra, daa, cpl, scf, ccf, ret none, retEnable, di, ei]

def alu? (mnemonic : String) (t : Token) : Option Instruction :=
  (AluOp.ofMnemonic? mnemonic).bind fun op => t.source?.map (alu op)

def unary? : String → Token → Option Instruction
  | "PUSH", .name s => (StackPair.ofText? s).map push
  | "POP", .name s => (StackPair.ofText? s).map pop
  | "INC", .name s => (Operand.ofText? s).map inc <|> (WideRegister.ofText? s).map incWide
  | "DEC", .name s => (Operand.ofText? s).map dec <|> (WideRegister.ofText? s).map decWide
  | "JR", .offset n => some (jumpBy none n)
  | "JP", .word n => some (jump none n)
  | "JP", .name "HL" => some jumpHL
  | "CALL", .word n => some (call none n)
  | "RET", .name s => (Condition.ofText? s).map (ret ∘ some)
  | "RST", .byte n => (octal? (n.toNat / 8)).map restart
  | mnemonic, .name s =>
    (Shift.ofText? mnemonic).bind (fun op => (Operand.ofText? s).map (shift op)) <|>
      alu? mnemonic (.name s)
  | mnemonic, t => alu? mnemonic t

/-- Loads that have no number. -/
def move? (dest source : String) : Option Instruction :=
  match Operand.ofText? dest, Operand.ofText? source with
  | some dest, some source => some (load dest source)
  | _, _ =>
    match dest, source with
    | "A", "(C)" => some loadAHighC
    | "(C)", "A" => some storeAHighC
    | "SP", "HL" => some loadSPFromHL
    | "A", source => (Pointer.ofText? source).map loadA
    | dest, "A" => (Pointer.ofText? dest).map storeA
    | _, _ => none

def load? : Token → Token → Option Instruction
  | .name dest, .name source => move? dest source
  | .name dest, .byte n => (Operand.ofText? dest).map (loadByte · n)
  | .name dest, .word n => (WideRegister.ofText? dest).map (loadWord · n)
  | .name _, .stackOffset n => some (loadHLFromSP n)
  | .name _, .address n => some (loadAAt n)
  | .address n, .name "A" => some (storeAAt n)
  | .address n, .name "SP" => some (storeSP n)
  | _, _ => none

def binary? : String → Token → Token → Option Instruction
  | "LD", first, second => load? first second
  | "LDH", .name _, .address n => some (loadAHigh (Word.low n))
  | "LDH", .address n, .name _ => some (storeAHigh (Word.low n))
  | "ADD", .name "HL", .name r => (WideRegister.ofText? r).map addHL
  | "ADD", .name "SP", .offset n => some (addSP n)
  | "JR", .name c, .offset n => (Condition.ofText? c).map fun c => jumpBy (some c) n
  | "JP", .name c, .word n => (Condition.ofText? c).map fun c => jump (some c) n
  | "CALL", .name c, .word n => (Condition.ofText? c).map fun c => call (some c) n
  | mnemonic, .offset n, .name o =>
    (BitOp.ofText? mnemonic).bind fun op =>
      (octal? n.toNatClampNeg).bind fun index => (Operand.ofText? o).map (bit op index)
  | mnemonic, .name "A", second => alu? mnemonic second
  | _, _, _ => none

def instruction? : Line → Option Instruction
  | bare mnemonic => bare? mnemonic
  | unary mnemonic operand => unary? mnemonic operand
  | binary mnemonic first second => binary? mnemonic first second

end Line

def Instruction.ofText? (s : String) : Option Instruction :=
  (Line.ofText? s).bind Line.instruction?

end DotMatrix
