import DotMatrix.Instruction.Basic
import DotMatrix.Word

/-!
# The op code map

The map is written out as the sixteen rows of its two halves, one cell for each first byte. A cell
says what the bytes behind the first one mean. Eleven cells are empty.
-/

namespace DotMatrix

inductive Cell where
  | empty
  | plain (i : Instruction)
  | byte (f : UInt8 → Instruction)
  | word (f : UInt16 → Instruction)
  | signed (f : Int8 → Instruction)
  /-- The next byte is looked up in the map of bit operations. -/
  | bitOperations

namespace OpcodeMap

open Instruction Cell

def operands : List Operand :=
  [.reg .b, .reg .c, .reg .d, .reg .e, .reg .h, .reg .l, .atHL, .reg .a]

def loads (dest : Operand) : List Cell :=
  operands.map fun source => plain (load dest source)

/-- The load of (HL) from itself is taken by HALT. -/
def loadsToMemory : List Cell :=
  [plain (load .atHL (.reg .b)), plain (load .atHL (.reg .c)), plain (load .atHL (.reg .d)),
    plain (load .atHL (.reg .e)), plain (load .atHL (.reg .h)), plain (load .atHL (.reg .l)),
    plain halt, plain (load .atHL (.reg .a))]

def alus (op : AluOp) : List Cell :=
  operands.map fun o => plain (alu op (.operand o))

def row0 : List Cell :=
  [plain nop, word (loadWord .bc), plain (storeA .bc), plain (incWide .bc),
    plain (inc (.reg .b)), plain (dec (.reg .b)), byte (loadByte (.reg .b)), plain (rotateA .rlca),
    word storeSP, plain (addHL .bc), plain (loadA .bc), plain (decWide .bc),
    plain (inc (.reg .c)), plain (dec (.reg .c)), byte (loadByte (.reg .c)), plain (rotateA .rrca)]

def row1 : List Cell :=
  [byte stop, word (loadWord .de), plain (storeA .de), plain (incWide .de),
    plain (inc (.reg .d)), plain (dec (.reg .d)), byte (loadByte (.reg .d)), plain (rotateA .rla),
    signed (jumpBy none), plain (addHL .de), plain (loadA .de), plain (decWide .de),
    plain (inc (.reg .e)), plain (dec (.reg .e)), byte (loadByte (.reg .e)), plain (rotateA .rra)]

def row2 : List Cell :=
  [signed (jumpBy (some .notZero)), word (loadWord .hl), plain (storeA .hlUp), plain (incWide .hl),
    plain (inc (.reg .h)), plain (dec (.reg .h)), byte (loadByte (.reg .h)), plain daa,
    signed (jumpBy (some .zero)), plain (addHL .hl), plain (loadA .hlUp), plain (decWide .hl),
    plain (inc (.reg .l)), plain (dec (.reg .l)), byte (loadByte (.reg .l)), plain cpl]

def row3 : List Cell :=
  [signed (jumpBy (some .notCarry)), word (loadWord .sp), plain (storeA .hlDown),
    plain (incWide .sp), plain (inc .atHL), plain (dec .atHL), byte (loadByte .atHL), plain scf,
    signed (jumpBy (some .carry)), plain (addHL .sp), plain (loadA .hlDown), plain (decWide .sp),
    plain (inc (.reg .a)), plain (dec (.reg .a)), byte (loadByte (.reg .a)), plain ccf]

def rowC : List Cell :=
  [plain (ret (some .notZero)), plain (pop .bc), word (jump (some .notZero)), word (jump none),
    word (call (some .notZero)), plain (push .bc), byte (alu .add ∘ .immediate), plain (restart 0),
    plain (ret (some .zero)), plain (ret none), word (jump (some .zero)), bitOperations,
    word (call (some .zero)), word (call none), byte (alu .adc ∘ .immediate), plain (restart 1)]

def rowD : List Cell :=
  [plain (ret (some .notCarry)), plain (pop .de), word (jump (some .notCarry)), empty,
    word (call (some .notCarry)), plain (push .de), byte (alu .sub ∘ .immediate), plain (restart 2),
    plain (ret (some .carry)), plain retEnable, word (jump (some .carry)), empty,
    word (call (some .carry)), empty, byte (alu .sbc ∘ .immediate), plain (restart 3)]

def rowE : List Cell :=
  [byte storeAHigh, plain (pop .hl), plain storeAHighC, empty,
    empty, plain (push .hl), byte (alu .and ∘ .immediate), plain (restart 4),
    signed addSP, plain jumpHL, word storeAAt, empty,
    empty, empty, byte (alu .xor ∘ .immediate), plain (restart 5)]

def rowF : List Cell :=
  [byte loadAHigh, plain (pop .af), plain loadAHighC, plain di,
    empty, plain (push .af), byte (alu .or ∘ .immediate), plain (restart 6),
    signed loadHLFromSP, plain loadSPFromHL, word loadAAt, plain ei,
    empty, empty, byte (alu .cp ∘ .immediate), plain (restart 7)]

def cells : List Cell :=
  row0 ++ row1 ++ row2 ++ row3 ++
    loads (.reg .b) ++ loads (.reg .c) ++ loads (.reg .d) ++ loads (.reg .e) ++
    loads (.reg .h) ++ loads (.reg .l) ++ loadsToMemory ++ loads (.reg .a) ++
    alus .add ++ alus .adc ++ alus .sub ++ alus .sbc ++
    alus .and ++ alus .xor ++ alus .or ++ alus .cp ++
    rowC ++ rowD ++ rowE ++ rowF

def shifts (op : Shift) : List Instruction :=
  operands.map (shift op)

def bits (op : BitOp) (index : Fin 8) : List Instruction :=
  operands.map (bit op index)

/-- The map behind the byte 0xCB. It has no empty cell. -/
def bitCells : List Instruction :=
  shifts .rlc ++ shifts .rrc ++ shifts .rl ++ shifts .rr ++
    shifts .sla ++ shifts .sra ++ shifts .swap ++ shifts .srl ++
    (List.finRange 8).flatMap (bits .test) ++
    (List.finRange 8).flatMap (bits .reset) ++
    (List.finRange 8).flatMap (bits .set)

def firstBytes : Vector Cell 256 :=
  ⟨cells.toArray, by decide +kernel⟩

def secondBytes : Vector Instruction 256 :=
  ⟨bitCells.toArray, by decide +kernel⟩

def cell (first : UInt8) : Cell :=
  firstBytes.get ⟨first.toNat, first.toNat_lt⟩

def bitOperation (second : UInt8) : Instruction :=
  secondBytes.get ⟨second.toNat, second.toNat_lt⟩

theorem get_of_map_eq {α β : Type} {l : List α} (hLength : l.toArray.size = 256) {g : α → β}
    {f : UInt8 → β} (h : l.map g = (List.finRange 256).map fun n => f (UInt8.ofNat n.val))
    (b : UInt8) : g ((⟨l.toArray, hLength⟩ : Vector α 256).get ⟨b.toNat, b.toNat_lt⟩) = f b := by
  have hLt : b.toNat < l.length := Nat.lt_of_lt_of_eq b.toNat_lt hLength.symm
  have hEntry : (l.map g)[b.toNat]? = some (g l[b.toNat]) := by
    rw [List.getElem?_map, List.getElem?_eq_getElem hLt]
    rfl
  rw [h, Byte.getElem?_map_finRange] at hEntry
  exact (Option.some.inj hEntry).symm

/-- What holds of the cells in order holds of the cell of each first byte. -/
theorem cell_of_map_eq {α : Type} {g : Cell → α} {f : UInt8 → α}
    (h : cells.map g = (List.finRange 256).map fun n => f (UInt8.ofNat n.val)) (first : UInt8) :
    g (cell first) = f first :=
  get_of_map_eq _ h first

theorem bitOperation_of_map_eq {α : Type} {g : Instruction → α} {f : UInt8 → α}
    (h : bitCells.map g = (List.finRange 256).map fun n => f (UInt8.ofNat n.val))
    (second : UInt8) : g (bitOperation second) = f second :=
  get_of_map_eq _ h second

end OpcodeMap

/-- What a cell makes of the two bytes behind the first one. Words are stored low byte first. -/
def Cell.fill (second third : UInt8) : Cell → Option Instruction
  | empty => none
  | plain i => some i
  | byte f => some (f second)
  | word f => some (f (Word.ofBytes third second))
  | signed f => some (f second.toInt8)
  | bitOperations => some (OpcodeMap.bitOperation second)

end DotMatrix
