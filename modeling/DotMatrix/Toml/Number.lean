import DotMatrix.Toml.Quoted
import DotMatrix.Toml.Value

/-!
# TOML numbers and dates

Digits may be separated by single underscores. An integer fits in 64 bits with sign; a decimal
number that is too large for a double is refused, unless it is negative. Dates and times are checked
against the calendar and the clock.
-/

namespace DotMatrix.Toml

/-- Digits of a class, where each underscore stands between two of them. -/
def digits? (isDigit : Char → Bool) : Reader (List Char)
  | [] => none
  | [c] => if isDigit c then some ([c], []) else none
  | c :: '_' :: rest =>
    if isDigit c then prepend c (digits? isDigit rest) else none
  | c :: d :: rest =>
    if !isDigit c then none
    else if isDigit d then prepend c (digits? isDigit (d :: rest))
    else some ([c], d :: rest)

def decimalDigits? : Reader (List Char)
  | '0' :: rest => some (['0'], rest)
  | cs => digits? Char.isDigit cs

def sign : List Char → Option Char × List Char
  | '+' :: rest => (some '+', rest)
  | '-' :: rest => (some '-', rest)
  | cs => (none, cs)

/-- An integer with its sign, if it fits in 64 bits. -/
def integer? (s : Option Char) (base : Nat) (ds : List Char) : Option Int :=
  if s = some '-' then (Digits.toNatUpTo? base 9223372036854775808 ds).map fun n => -(n : Int)
  else (Digits.toNatUpTo? base 9223372036854775807 ds).map fun n => (n : Int)

/-- From here on a positive number rounds to infinity as a double. -/
def doubleLimit : Nat := 1 <<< 1024 - 1 <<< 970

def limitSize : Nat := 309

/-- Whether the number of these digits, times `10 ^ e`, is at or beyond the limit. The limit is
whole, so only the digits before the point are compared with it, and those only where there are as
many as it has. -/
def overflows (digits : List Char) (e : Int) : Bool :=
  let significant := digits.dropWhile (· == '0')
  let size := significant.length + e
  if significant.isEmpty then false
  else if size = limitSize then
    decide (doubleLimit ≤ Digits.toNat 10 ((significant.take limitSize).rightpad limitSize '0'))
  else decide (limitSize < size)

/-- How large an exponent is. Digits behind one that makes it 65536 or more do not count. -/
def exponentSize (ds : List Char) : Nat :=
  ds.foldl (fun n c => if n < 65536 then Digits.push 10 n c else n) 0

def exponent? (cs : List Char) : Option (Int × List Char) :=
  let (s, cs) := sign cs
  (digits? Char.isDigit cs).map fun (ds, rest) =>
    (if s = some '-' then -(exponentSize ds : Int) else exponentSize ds, rest)

/-- The fraction and the exponent of a decimal number, of which one has to be there. -/
def fractional? (cs : List Char) : Option ((List Char × Int) × List Char) :=
  match cs with
  | '.' :: rest =>
    (digits? Char.isDigit rest).bind fun (ds, rest) =>
      match rest with
      | 'e' :: rest | 'E' :: rest => (exponent? rest).map fun (e, rest) => ((ds, e), rest)
      | _ => some ((ds, 0), rest)
  | 'e' :: rest | 'E' :: rest => (exponent? rest).map fun (e, rest) => (([], e), rest)
  | _ => none

/-- A decimal integer, or a float where a point or an exponent follows. -/
def decimal? (cs : List Char) : Option (Value × List Char) :=
  let (s, unsigned) := sign cs
  (decimalDigits? unsigned).bind fun (whole, rest) =>
    match rest with
    | '.' :: _ | 'e' :: _ | 'E' :: _ =>
      (fractional? rest).bind fun ((fraction, e), rest) =>
        if s != some '-' && overflows (whole ++ fraction) (e - fraction.length) then none
        else some (.float, rest)
    | _ => (integer? s 10 whole).map fun n => (.integer n, rest)

def based? (base : Nat) (isDigit : Char → Bool) (cs : List Char) : Option (Value × List Char) :=
  (digits? isDigit cs).bind fun (ds, rest) =>
    (integer? none base ds).map fun n => (.integer n, rest)

def special? (cs : List Char) : Option (Value × List Char) :=
  let (_, unsigned) := sign cs
  match unsigned with
  | 'i' :: 'n' :: 'f' :: rest | 'n' :: 'a' :: 'n' :: rest =>
    some (.float, rest)
  | _ => none

def number? : Reader Value
  | '0' :: 'x' :: rest => based? 16 Digits.isHex rest
  | '0' :: 'o' :: rest => based? 8 (fun c => '0' ≤ c && c ≤ '7') rest
  | '0' :: 'b' :: rest => based? 2 (fun c => c == '0' || c == '1') rest
  | cs => (special? cs).or (decimal? cs)

def twoDigits? (low high : Nat) : Reader Nat
  | a :: b :: rest =>
    let n := Digits.toNat 10 [a, b]
    if a.isDigit && b.isDigit && low ≤ n && n ≤ high then some (n, rest) else none
  | _ => none

def leapYear (year : Nat) : Bool :=
  year % 4 == 0 && (year % 100 != 0 || year % 400 == 0)

def daysIn (year month : Nat) : Nat :=
  if month = 2 then (if leapYear year then 29 else 28)
  else if month = 4 ∨ month = 6 ∨ month = 9 ∨ month = 11 then 30
  else 31

/-- What follows year, month and day. -/
def day? : List Char → Option (List Char)
  | a :: b :: c :: d :: '-' :: rest =>
    if [a, b, c, d].all Char.isDigit then
      match twoDigits? 1 12 rest with
      | some (month, '-' :: rest) =>
        (twoDigits? 1 (daysIn (Digits.toNat 10 [a, b, c, d]) month) rest).map (·.2)
      | _ => none
    else none
  | _ => none

/-- What follows hour, minute and second with its fraction. -/
def time? (cs : List Char) : Option (List Char) :=
  match twoDigits? 0 23 cs with
  | some (_, ':' :: rest) =>
    match twoDigits? 0 59 rest with
    | some (_, ':' :: rest) =>
      match twoDigits? 0 60 rest with
      | some (_, '.' :: rest) =>
        if (rest.takeWhile Char.isDigit).isEmpty then none
        else some (rest.dropWhile Char.isDigit)
      | some (_, rest) => some rest
      | none => none
    | _ => none
  | _ => none

/-- What follows the offset from universal time, which may be missing. -/
def zone? : List Char → Option (List Char)
  | 'Z' :: rest | 'z' :: rest => some rest
  | '+' :: rest | '-' :: rest =>
    match twoDigits? 0 23 rest with
    | some (_, ':' :: rest) => (twoDigits? 0 59 rest).map (·.2)
    | _ => none
  | rest => some rest

/-- What follows the time of day behind a date. Without one the date stands alone. -/
def timeOfDay? : List Char → Option (List Char)
  | 'T' :: rest | 't' :: rest | ' ' :: rest =>
    match time? rest with
    | some rest => zone? rest
    | none => none
  | _ => none

def date? (cs : List Char) : Option (Value × List Char) :=
  match day? cs with
  | some rest => some (.date, (timeOfDay? rest).getD rest)
  | none => (time? cs).map fun rest => (.date, rest)

end DotMatrix.Toml
