import DotMatrix.Instruction.Encode

/-!
# Op codes by their bit fields

An op code is a field `x` of two bits followed by the fields `y` and `z` of three bits each, and `y`
is also taken as `p` of two bits followed by the bit `q`. Each field picks from one table of
registers, pairs, conditions or operations. Nothing here looks at the op code map.
-/

namespace DotMatrix.Fields

open Instruction

def x (op : UInt8) : Fin 4 :=
  ⟨op.toNat / 64, Nat.div_lt_of_lt_mul op.toNat_lt⟩

def y (op : UInt8) : Fin 8 :=
  ⟨op.toNat / 8 % 8, Nat.mod_lt _ (by decide)⟩

def z (op : UInt8) : Fin 8 :=
  ⟨op.toNat % 8, Nat.mod_lt _ (by decide)⟩

def p (y : Fin 8) : Fin 4 :=
  ⟨y / 2, Nat.div_lt_of_lt_mul y.isLt⟩

def q (y : Fin 8) : Fin 2 :=
  ⟨y % 2, Nat.mod_lt _ (by decide)⟩

def operand : Fin 8 → Operand
  | 0 => .reg .b
  | 1 => .reg .c
  | 2 => .reg .d
  | 3 => .reg .e
  | 4 => .reg .h
  | 5 => .reg .l
  | 6 => .atHL
  | 7 => .reg .a

def wideRegister : Fin 4 → WideRegister
  | 0 => .bc
  | 1 => .de
  | 2 => .hl
  | 3 => .sp

def stackPair : Fin 4 → StackPair
  | 0 => .bc
  | 1 => .de
  | 2 => .hl
  | 3 => .af

def pointer : Fin 4 → Pointer
  | 0 => .bc
  | 1 => .de
  | 2 => .hlUp
  | 3 => .hlDown

def condition : Fin 4 → Condition
  | 0 => .notZero
  | 1 => .zero
  | 2 => .notCarry
  | 3 => .carry

def aluOp : Fin 8 → AluOp
  | 0 => .add
  | 1 => .adc
  | 2 => .sub
  | 3 => .sbc
  | 4 => .and
  | 5 => .xor
  | 6 => .or
  | 7 => .cp

def shiftOp : Fin 8 → Shift
  | 0 => .rlc
  | 1 => .rrc
  | 2 => .rl
  | 3 => .rr
  | 4 => .sla
  | 5 => .sra
  | 6 => .swap
  | 7 => .srl

def accumulatorOp : Fin 8 → Instruction
  | 0 => rotateA .rlca
  | 1 => rotateA .rrca
  | 2 => rotateA .rla
  | 3 => rotateA .rra
  | 4 => daa
  | 5 => cpl
  | 6 => scf
  | 7 => ccf

/-- The op codes below 0x40, where `n`, `nn` and `e` are the byte, the word and the signed offset
that follow. -/
def firstQuarter (y z : Fin 8) (n : UInt8) (nn : UInt16) (e : Int8) : Instruction :=
  match z with
  | 0 =>
    match y with
    | 0 => nop
    | 1 => storeSP nn
    | 2 => stop n
    | 3 => jumpBy none e
    | y => jumpBy (some (condition (Fin.ofNat 4 (y - 4)))) e
  | 1 => if q y = 0 then loadWord (wideRegister (p y)) nn else addHL (wideRegister (p y))
  | 2 => if q y = 0 then storeA (pointer (p y)) else loadA (pointer (p y))
  | 3 => if q y = 0 then incWide (wideRegister (p y)) else decWide (wideRegister (p y))
  | 4 => inc (operand y)
  | 5 => dec (operand y)
  | 6 => loadByte (operand y) n
  | 7 => accumulatorOp y

/-- What the fields of the byte behind 0xCB select. -/
def operation (x : Fin 4) (y z : Fin 8) : Instruction :=
  match x with
  | 0 => shift (shiftOp y) (operand z)
  | 1 => bit .test y (operand z)
  | 2 => bit .reset y (operand z)
  | 3 => bit .set y (operand z)

def bitOperation (op : UInt8) : Instruction :=
  operation (x op) (y op) (z op)

/-- The op codes from 0xC0 on. Eleven of them are undefined. -/
def lastQuarter (y z : Fin 8) (n : UInt8) (nn : UInt16) (e : Int8) : Option Instruction :=
  match z with
  | 0 =>
    match y with
    | 4 => some (storeAHigh n)
    | 5 => some (addSP e)
    | 6 => some (loadAHigh n)
    | 7 => some (loadHLFromSP e)
    | y => some (ret (some (condition (Fin.ofNat 4 y))))
  | 1 =>
    match y with
    | 1 => some (ret none)
    | 3 => some retEnable
    | 5 => some jumpHL
    | 7 => some loadSPFromHL
    | y => some (pop (stackPair (p y)))
  | 2 =>
    match y with
    | 4 => some storeAHighC
    | 5 => some (storeAAt nn)
    | 6 => some loadAHighC
    | 7 => some (loadAAt nn)
    | y => some (jump (some (condition (Fin.ofNat 4 y))) nn)
  | 3 =>
    match y with
    | 0 => some (jump none nn)
    | 1 => some (bitOperation n)
    | 6 => some di
    | 7 => some ei
    | _ => none
  | 4 => if y.val < 4 then some (call (some (condition (Fin.ofNat 4 y))) nn) else none
  | 5 =>
    if q y = 0 then some (push (stackPair (p y)))
    else if y.val = 1 then some (call none nn)
    else none
  | 6 => some (alu (aluOp y) (.immediate n))
  | 7 => some (restart y)

/-- The instruction that the fields select. The load of (HL) from itself is taken by HALT. -/
def instruction (x : Fin 4) (y z : Fin 8) (n : UInt8) (nn : UInt16) (e : Int8) :
    Option Instruction :=
  match x with
  | 0 => some (firstQuarter y z n nn e)
  | 1 => some (if y.val = 6 ∧ z.val = 6 then halt else load (operand y) (operand z))
  | 2 => some (alu (aluOp y) (.operand (operand z)))
  | 3 => lastQuarter y z n nn e

/-- Decodes an op code and the bytes behind it, words low byte first. -/
def decode (op second third : UInt8) : Option Instruction :=
  instruction (x op) (y op) (z op) second (Word.ofBytes third second) second.toInt8

end DotMatrix.Fields
