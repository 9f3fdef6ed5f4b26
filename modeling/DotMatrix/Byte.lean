/-!
# Bytes

A statement about bytes may be checked on the 256 numbers below 256, and a byte may be taken apart
into bits by number.
-/

namespace DotMatrix.Byte

/-- The bit of weight `2 ^ i`. -/
def bit (b : UInt8) (i : Nat) : Bool :=
  b.toNat.testBit i

/-- The byte with only the bit of weight `2 ^ i` set. -/
def single (i : Fin 8) : UInt8 :=
  UInt8.ofNat (1 <<< i.val)

/-- The bits of `new` where `mask` is set, the bits of `old` elsewhere. -/
def blend (old mask new : UInt8) : UInt8 :=
  (old &&& ~~~mask) ||| (new &&& mask)

theorem of_fin {P : UInt8 → Prop} (h : ∀ n : Fin 256, P (UInt8.ofNat n.val)) (b : UInt8) :
    P b := by
  have := h ⟨b.toNat, b.toNat_lt⟩
  simpa using this

/-- The list of what a function makes of the bytes in order, looked up at a byte. -/
theorem getElem?_map_finRange {α : Type} (f : UInt8 → α) (b : UInt8) :
    ((List.finRange 256).map fun n => f (UInt8.ofNat n.val))[b.toNat]? = some (f b) := by
  have hByte : b.toNat < (List.finRange 256).length := by
    rw [List.length_finRange]
    exact b.toNat_lt
  rw [List.getElem?_map, List.getElem?_eq_getElem hByte, List.getElem_finRange]
  simp

theorem bit_of_lt {b : UInt8} {k i : Nat} (hByte : b.toNat < 1 <<< k) (h : k ≤ i) :
    bit b i = false := by
  rw [Nat.one_shiftLeft] at hByte
  exact Nat.testBit_lt_two_pow (Nat.lt_of_lt_of_le hByte (Nat.pow_le_pow_right (by decide) h))

theorem bit_of_le (b : UInt8) {i : Nat} (h : 8 ≤ i) : bit b i = false :=
  bit_of_lt (k := 8) b.toNat_lt h

@[simp] theorem bit_and (a b : UInt8) (i : Nat) : bit (a &&& b) i = (bit a i && bit b i) := by
  rw [bit, UInt8.toNat_and, Nat.testBit_and]
  rfl

@[simp] theorem bit_or (a b : UInt8) (i : Nat) : bit (a ||| b) i = (bit a i || bit b i) := by
  rw [bit, UInt8.toNat_or, Nat.testBit_or]
  rfl

theorem bit_not (b : UInt8) {i : Nat} (h : i < 8) : bit (~~~b) i = !bit b i := by
  have hAll (i : Fin 8) : bit (~~~b) i = !bit b i := by
    refine of_fin (P := fun b => bit (~~~b) i = !bit b i) ?_ b
    revert i
    decide +kernel
  exact hAll ⟨i, h⟩

theorem eq_of_bit_eq {a b : UInt8} (h : ∀ i < 8, bit a i = bit b i) : a = b := by
  apply UInt8.toNat_inj.mp
  apply Nat.eq_of_testBit_eq
  intro i
  by_cases hi : i < 8
  · exact h i hi
  · exact (bit_of_le a (by omega)).trans (bit_of_le b (by omega)).symm

theorem bit_blend (old mask new : UInt8) {i : Nat} (h : i < 8) :
    bit (blend old mask new) i = if bit mask i then bit new i else bit old i := by
  rw [blend, bit_or, bit_and, bit_and, bit_not _ h]
  cases bit mask i <;> simp

theorem bit_blend_of_clear (old new : UInt8) {mask : UInt8} {i : Nat} (h : bit mask i = false) :
    bit (blend old mask new) i = bit old i := by
  by_cases hi : i < 8
  · rw [bit_blend _ _ _ hi, h]
    rfl
  · rw [bit_of_le _ (by omega), bit_of_le _ (by omega)]

theorem blend_blend (old mask a b : UInt8) :
    blend (blend old mask a) mask b = blend old mask b := by
  apply eq_of_bit_eq
  intro i hi
  simp only [bit_blend _ _ _ hi]
  split <;> rfl

end DotMatrix.Byte
