/-!
# Hexadecimal text

Bytes and words are shown in upper case, padded to their full width, behind `0x`.
-/

namespace DotMatrix.Hex

def digit (n : Nat) : Char :=
  if n < 10 then Char.ofNat (48 + n) else Char.ofNat (55 + n)

def byteDigits (v : UInt8) : List Char :=
  [digit (v.toNat / 16), digit (v.toNat % 16)]

def wordDigits (v : UInt16) : List Char :=
  [digit (v.toNat / 4096), digit (v.toNat / 256 % 16), digit (v.toNat / 16 % 16),
    digit (v.toNat % 16)]

def byte (v : UInt8) : String :=
  String.ofList ('0' :: 'x' :: byteDigits v)

def word (v : UInt16) : String :=
  String.ofList ('0' :: 'x' :: wordDigits v)

theorem toList_byte (v : UInt8) : (byte v).toList = '0' :: 'x' :: byteDigits v := by
  simp [byte]

theorem toList_word (v : UInt16) : (word v).toList = '0' :: 'x' :: wordDigits v := by
  simp [word]

end DotMatrix.Hex
