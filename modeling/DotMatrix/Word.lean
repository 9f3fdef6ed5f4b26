/-!
# Words of two bytes

A word is the pair of its high and its low byte. Both directions are stated over natural numbers,
so that arithmetic about addresses never meets a shift.
-/

namespace DotMatrix.Word

def ofBytes (high low : UInt8) : UInt16 :=
  high.toUInt16 * 256 + low.toUInt16

def high (w : UInt16) : UInt8 :=
  (w / 256).toUInt8

def low (w : UInt16) : UInt8 :=
  w.toUInt8

theorem toNat_ofBytes (h l : UInt8) : (ofBytes h l).toNat = h.toNat * 256 + l.toNat := by
  have := h.toNat_lt
  have := l.toNat_lt
  simp only [ofBytes, UInt16.toNat_add, UInt16.toNat_mul, UInt8.toNat_toUInt16]
  simp
  omega

theorem toNat_high (w : UInt16) : (high w).toNat = w.toNat / 256 := by
  have := w.toNat_lt
  simp [high]
  omega

theorem toNat_low (w : UInt16) : (low w).toNat = w.toNat % 256 := by
  simp [low]

theorem ofBytes_high_low (w : UInt16) : ofBytes (high w) (low w) = w := by
  apply UInt16.toNat_inj.mp
  rw [toNat_ofBytes, toNat_high, toNat_low]
  omega

theorem high_ofBytes (h l : UInt8) : high (ofBytes h l) = h := by
  have := l.toNat_lt
  apply UInt8.toNat_inj.mp
  rw [toNat_high, toNat_ofBytes]
  omega

theorem low_ofBytes (h l : UInt8) : low (ofBytes h l) = l := by
  have := l.toNat_lt
  apply UInt8.toNat_inj.mp
  rw [toNat_low, toNat_ofBytes]
  omega

end DotMatrix.Word
