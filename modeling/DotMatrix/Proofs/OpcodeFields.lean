import DotMatrix.Instruction.Decode
import DotMatrix.Instruction.Fields

/-!
# The op code map by bit fields

Both maps hold what the fields of their op codes select. The maps are lists, so each is compared as
a whole with the list of what the fields select from op code 0x00 to 0xFF.
-/

namespace DotMatrix

/-- What a cell makes of the bytes behind the first one, given what the second map holds. -/
def Cell.fillBy (bitOperation : UInt8 → Instruction) (second third : UInt8) :
    Cell → Option Instruction
  | empty => none
  | plain i => some i
  | byte f => some (f second)
  | word f => some (f (Word.ofBytes third second))
  | signed f => some (f second.toInt8)
  | bitOperations => some (bitOperation second)

namespace OpcodeMap

theorem bitCells_eq :
    bitCells = (List.finRange 256).map fun n => Fields.bitOperation (UInt8.ofNat n.val) := by
  decide +kernel

theorem bitOperation_eq_fields : bitOperation = Fields.bitOperation :=
  funext fun op => bitOperation_of_map_eq (g := id) ((List.map_id _).trans bitCells_eq) op

theorem fill_eq_fillBy (second third : UInt8) :
    Cell.fill second third = Cell.fillBy Fields.bitOperation second third := by
  funext c
  rw [← bitOperation_eq_fields]
  cases c <;> rfl

set_option maxRecDepth 20000 in
theorem cells_map_fill (second third : UInt8) :
    cells.map (Cell.fill second third) =
      (List.finRange 256).map fun n => Fields.decode (UInt8.ofNat n.val) second third := by
  rw [fill_eq_fillBy]
  rfl

end OpcodeMap

namespace Instruction

theorem ofBytes?_eq_fields (first second third : UInt8) :
    ofBytes? first second third = Fields.decode first second third :=
  OpcodeMap.cell_of_map_eq (f := fun op => Fields.decode op second third)
    (OpcodeMap.cells_map_fill second third) first

theorem toNat_restartAddress (vector : Fin 8) : (restartAddress vector).toNat = 8 * vector := by
  revert vector
  decide

/-- Decoding at any address selects by the bit fields of the byte there, with the immediates in the
bytes behind it. It fails only where the fields select nothing. -/
theorem decodeAt_by_fields (read : UInt16 → UInt8) (pc : UInt16) :
    decodeAt read pc =
        (Fields.decode (read pc) (read (pc + 1)) (read (pc + 2))).elim
          (.error ⟨read pc, pc, none⟩) .ok ∧
      ∀ vector : Fin 8, (restartAddress vector).toNat = 8 * vector := by
  constructor
  · rw [decodeAt, ofBytes?_eq_fields]
    cases Fields.decode (read pc) (read (pc + 1)) (read (pc + 2)) <;> rfl
  · exact toNat_restartAddress

end Instruction
end DotMatrix
