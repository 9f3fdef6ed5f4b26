/-!
# Quoted text

A quoted text stands between double quotes. The quote, the backslash and the control characters
are escaped, the latter by `\t`, `\n`, `\r`, `\0` or their lower-case code; all else stands for
itself.
-/

namespace DotMatrix.Quoted

/-- Lower-case hexadecimal digits without padding. -/
def code (c : Char) : List Char :=
  Nat.toDigits 16 c.toNat

def escape (c : Char) : List Char :=
  if c = '"' then ['\\', '"']
  else if c = '\\' then ['\\', '\\']
  else if c = '\t' then ['\\', 't']
  else if c = '\n' then ['\\', 'n']
  else if c = '\r' then ['\\', 'r']
  else if c = '\x00' then ['\\', '0']
  else if c.toNat < 0x20 ∨ c.toNat = 0x7F then
    ['\\', 'u', '\x7b'] ++ code c ++ ['\x7d']
  else [c]

def encode (s : String) : String :=
  String.ofList ('"' :: (s.toList.flatMap escape ++ ['"']))

end DotMatrix.Quoted
