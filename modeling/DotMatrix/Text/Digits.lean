/-!
# Digits

The numbers that digits denote, in a base of at most sixteen. A number with a bound is read only as
far as it stays within it, so that a text of any length is read in time linear in it.
-/

namespace DotMatrix.Digits

def isHex (c : Char) : Bool :=
  c.isDigit || ('a' ≤ c && c ≤ 'f') || ('A' ≤ c && c ≤ 'F')

def value (c : Char) : Nat :=
  if c.isDigit then c.toNat - '0'.toNat
  else if 'a' ≤ c then c.toNat - 'a'.toNat + 10
  else c.toNat - 'A'.toNat + 10

def push (base n : Nat) (c : Char) : Nat :=
  n * base + value c

def toNat (base : Nat) (digits : List Char) : Nat :=
  digits.foldl (push base) 0

/-- The number that begins with the digits of `n`, if it is at most `bound`. -/
def readOn? (base bound n : Nat) : List Char → Option Nat
  | [] => some n
  | c :: rest => if push base n c ≤ bound then readOn? base bound (push base n c) rest else none

def toNatUpTo? (base bound : Nat) (digits : List Char) : Option Nat :=
  readOn? base bound 0 digits

end DotMatrix.Digits
