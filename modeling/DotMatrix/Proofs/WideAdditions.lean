import DotMatrix.Proofs.Branches

/-!
# Additions of words

An addition to HL or to the stack pointer is exact up to the size of a word, but its half-carry and
carry are those of the low bytes. An offset is signed in the sum and an unsigned byte in the flags:
the low byte of the sum is the same either way, so the carry still tells that it has wrapped.
-/

namespace DotMatrix

namespace Word

theorem low_add (v w : UInt16) : low (v + w) = low v + low w :=
  UInt16.toUInt8_add v w

/-- Extending the sign leaves the low byte alone. -/
theorem low_offset (offset : Int8) : low offset.toInt16.toUInt16 = offset.toUInt8 := by
  have hBytes (b : UInt8) : low b.toInt8.toInt16.toUInt16 = b := by
    refine Byte.of_fin (P := fun b => low b.toInt8.toInt16.toUInt16 = b) ?_ b
    decide +kernel
  exact hBytes offset.toUInt8

end Word

namespace Alu

theorem low_add_eq (v w : UInt16) : Word.low (v + w) = (add (Word.low v) (Word.low w) false).1 := by
  rw [Word.low_add]
  exact (UInt8.add_zero _).symm

/-- The sum of two bytes is smaller than the first of them exactly if it has wrapped. -/
theorem carry_add_iff (a b : UInt8) :
    (add a b false).2.carry = true ↔ (add a b false).1 < a := by
  have hA := a.toNat_lt
  have hB := b.toNat_lt
  have hSum : (add a b false).1.toNat = (a.toNat + b.toNat) % 256 := by
    change (a + b + 0).toNat = _
    rw [UInt8.add_zero, UInt8.toNat_add]
  have hCarry : (add a b false).2.carry = true ↔ 255 < a.toNat + b.toNat + 0 := decide_eq_true_iff
  rw [hCarry, UInt8.lt_iff_toNat_lt, hSum]
  omega

theorem carries_add_low (v : UInt16) (b : UInt8) :
    (add (Word.low v) b false).2.halfCarry = decide (15 < v.toNat % 16 + b.toNat % 16) ∧
      (add (Word.low v) b false).2.carry = decide (255 < v.toNat % 256 + b.toNat) := by
  have hNibble : v.toNat % 256 % 16 = v.toNat % 16 := Nat.mod_mod_of_dvd _ (by decide)
  simp only [add, Bool.toNat_false, Nat.add_zero, Word.toNat_low, hNibble, and_self]

theorem flags_addWide (v w : UInt16) (f : Flags) :
    let byte := (add (Word.low v) (Word.low w) false).2
    (addWide v w f).2 = ⟨f.zero, false, byte.halfCarry, byte.carry⟩ := by
  intro byte
  obtain ⟨hHalf, hCarry⟩ := carries_add_low v (Word.low w)
  have hNibble : w.toNat % 256 % 16 = w.toNat % 16 := Nat.mod_mod_of_dvd _ (by decide)
  rw [Word.toNat_low] at hHalf hCarry
  rw [hNibble] at hHalf
  rw [hHalf, hCarry]
  rfl

theorem flags_addSigned (v : UInt16) (offset : Int8) :
    let byte := (add (Word.low v) offset.toUInt8 false).2
    (addSigned v offset).2 = ⟨false, false, byte.halfCarry, byte.carry⟩ := by
  intro byte
  obtain ⟨hHalf, hCarry⟩ := carries_add_low v offset.toUInt8
  rw [hHalf, hCarry]
  rfl

theorem carry_addWide_iff (v w : UInt16) (f : Flags) :
    (addWide v w f).2.carry = true ↔ Word.low (addWide v w f).1 < Word.low v := by
  have hLow : Word.low (addWide v w f).1 = _ := low_add_eq v w
  rw [flags_addWide, hLow]
  exact carry_add_iff _ _

theorem carry_addSigned_iff (v : UInt16) (offset : Int8) :
    (addSigned v offset).2.carry = true ↔ Word.low (addSigned v offset).1 < Word.low v := by
  have hLow : Word.low (addSigned v offset).1 = _ := low_add_eq v offset.toInt16.toUInt16
  rw [flags_addSigned, hLow, Word.low_offset]
  exact carry_add_iff _ _

end Alu

namespace Core

variable {M : Type} [Memory M]

/-- The flags after the addition of one byte to another in the accumulator. -/
def flagsOfAdd (s : Core M) (a b : UInt8) : Flags :=
  ((s.setA a).execute (.alu .add (.immediate b))).cpu.regs.f

theorem hl_execute_addHL (s : Core M) (r : WideRegister) :
    (s.execute (.addHL r)).cpu.regs.hl = s.cpu.regs.hl + s.cpu.regs.getWide r :=
  s.cpu.regs.getWide_setWide .hl _

theorem hl_execute_loadHLFromSP (s : Core M) (offset : Int8) :
    (s.execute (.loadHLFromSP offset)).cpu.regs.hl = (Alu.addSigned s.cpu.regs.sp offset).1 :=
  s.cpu.regs.getWide_setWide .hl _

/-- Sums of words are exact up to their size and take half-carry and carry from an addition of the
low bytes. Besides the word and the flags nothing changes. -/
theorem wide_additions (s : Core M) :
    (∀ r : WideRegister,
      let regs := s.cpu.regs
      let byte := s.flagsOfAdd (Word.low regs.hl) (Word.low (regs.getWide r))
      let t := s.execute (.addHL r)
      t.cpu.regs.hl.toNat = (regs.hl.toNat + (regs.getWide r).toNat) % 65536 ∧
        t.cpu.regs.f = ⟨regs.f.zero, false, byte.halfCarry, byte.carry⟩ ∧
        (t.cpu.regs.f.carry = true ↔ Word.low t.cpu.regs.hl < Word.low regs.hl) ∧
        t = s.setRegs { regs with h := t.cpu.regs.h, l := t.cpu.regs.l, f := t.cpu.regs.f }) ∧
    ∀ offset : Int8,
      let regs := s.cpu.regs
      let byte := s.flagsOfAdd (Word.low regs.sp) offset.toUInt8
      let t := s.execute (.addSP offset)
      let u := s.execute (.loadHLFromSP offset)
      (t.cpu.regs.sp.toNat : Int) = (regs.sp.toNat + offset.toInt) % 65536 ∧
        t.cpu.regs.f = ⟨false, false, byte.halfCarry, byte.carry⟩ ∧
        (t.cpu.regs.f.carry = true ↔ Word.low t.cpu.regs.sp < Word.low regs.sp) ∧
        u.cpu.regs.hl = t.cpu.regs.sp ∧ u.cpu.regs.f = t.cpu.regs.f ∧
        t = s.setRegs { regs with sp := t.cpu.regs.sp, f := t.cpu.regs.f } ∧
        u = s.setRegs { regs with h := u.cpu.regs.h, l := u.cpu.regs.l, f := u.cpu.regs.f } := by
  constructor
  · intro r regs byte t
    refine ⟨?_, Alu.flags_addWide _ _ _, ?_, rfl⟩
    · rw [s.hl_execute_addHL, UInt16.toNat_add]
    · rw [s.hl_execute_addHL]
      exact Alu.carry_addWide_iff _ _ regs.f
  · intro offset regs byte t u
    refine ⟨Word.toNat_add_offset _ offset, Alu.flags_addSigned _ _, Alu.carry_addSigned_iff _ _,
      s.hl_execute_loadHLFromSP offset, rfl, rfl, rfl⟩

/-- Five less than a multiple of 256: the offset is 251 in the flags, so there is no carry. -/
example : Alu.addSigned 0xC000 (-5) = (0xBFFB, ⟨false, false, false, false⟩) := by decide

end Core
end DotMatrix
