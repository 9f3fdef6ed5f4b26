import DotMatrix.Text.Digits
import DotMatrix.Toml.Lexical

/-!
# TOML strings

Basic strings know escapes, literal strings do not. Strings in triple quotes run over lines: their
first line end is dropped, a line end inside reads as a line feed, and up to two quotes may stand
before the closing three.
-/

namespace DotMatrix.Toml

/-- The character of a code that is written in hexadecimal, unless it is no character. -/
def charOfCode? (digits : List Char) : Option Char :=
  let n := Digits.toNat 16 digits
  if digits.all Digits.isHex && (n < 0xD800 || 0xE000 ≤ n && n < 0x110000) then
    some (Char.ofNat n)
  else none

def escaped? : Char → Option Char
  | 'b' => some '\x08'
  | 't' => some '\t'
  | 'n' => some '\n'
  | 'f' => some '\x0c'
  | 'r' => some '\r'
  | '"' => some '"'
  | '\\' => some '\\'
  | _ => none

def prepend (c : Char) (r : Option (List Char × List Char)) : Option (List Char × List Char) :=
  r.map fun p => (c :: p.1, p.2)

def basicBody : Reader (List Char)
  | [] => none
  | '"' :: rest => some ([], rest)
  | '\\' :: 'u' :: a :: b :: c :: d :: rest =>
    (charOfCode? [a, b, c, d]).bind fun x => prepend x (basicBody rest)
  | '\\' :: 'U' :: a :: b :: c :: d :: e :: f :: g :: h :: rest =>
    (charOfCode? [a, b, c, d, e, f, g, h]).bind fun x => prepend x (basicBody rest)
  | '\\' :: c :: rest => (escaped? c).bind fun x => prepend x (basicBody rest)
  | c :: rest => if c != '\\' && isPrintable c then prepend c (basicBody rest) else none

/-- Whether only blanks stand before the line end. -/
def endsLine (cs : List Char) : Bool :=
  (newline? (skipBlanks cs)).isSome

/-- A basic string over several lines behind its opening quotes. While `trimming`, blanks and line
ends are dropped: a backslash at the end of a line starts that. -/
def longBasicBody (trimming : Bool) : Reader (List Char)
  | [] => none
  | '"' :: '"' :: '"' :: '"' :: '"' :: rest => some (['"', '"'], rest)
  | '"' :: '"' :: '"' :: '"' :: rest => some (['"'], rest)
  | '"' :: '"' :: '"' :: rest => some ([], rest)
  | '\n' :: rest =>
    if trimming then longBasicBody true rest else prepend '\n' (longBasicBody false rest)
  | '\r' :: '\n' :: rest =>
    if trimming then longBasicBody true rest else prepend '\n' (longBasicBody false rest)
  | '\\' :: 'u' :: a :: b :: c :: d :: rest =>
    (charOfCode? [a, b, c, d]).bind fun x => prepend x (longBasicBody false rest)
  | '\\' :: 'U' :: a :: b :: c :: d :: e :: f :: g :: h :: rest =>
    (charOfCode? [a, b, c, d, e, f, g, h]).bind fun x => prepend x (longBasicBody false rest)
  | '\\' :: c :: rest =>
    if endsLine (c :: rest) then longBasicBody true (c :: rest)
    else (escaped? c).bind fun x => prepend x (longBasicBody false rest)
  | c :: rest =>
    if trimming && isBlank c then longBasicBody true rest
    else if c != '\\' && isPrintable c then prepend c (longBasicBody false rest)
    else none

def literalBody : Reader (List Char)
  | [] => none
  | '\x27' :: rest => some ([], rest)
  | c :: rest => if isPrintable c then prepend c (literalBody rest) else none

/-- A literal string over several lines behind its opening quotes. -/
def longLiteralBody : Reader (List Char)
  | [] => none
  | '\x27' :: '\x27' :: '\x27' :: '\x27' :: '\x27' :: rest => some (['\x27', '\x27'], rest)
  | '\x27' :: '\x27' :: '\x27' :: '\x27' :: rest => some (['\x27'], rest)
  | '\x27' :: '\x27' :: '\x27' :: rest => some ([], rest)
  | '\n' :: rest => prepend '\n' (longLiteralBody rest)
  | '\r' :: '\n' :: rest => prepend '\n' (longLiteralBody rest)
  | c :: rest => if isPrintable c then prepend c (longLiteralBody rest) else none

/-- The line end right behind the opening quotes is dropped. -/
def dropNewline (cs : List Char) : List Char :=
  (newline? cs).getD cs

def quoted? : Reader (List Char)
  | '"' :: '"' :: '"' :: rest => longBasicBody false (dropNewline rest)
  | '"' :: rest => basicBody rest
  | '\x27' :: '\x27' :: '\x27' :: rest => longLiteralBody (dropNewline rest)
  | '\x27' :: rest => literalBody rest
  | _ => none

end DotMatrix.Toml
