/-!
# Blanks, comments and line ends

A reader takes what it recognises off the front of a text and returns the rest. A line ends with a
line feed, with or without a carriage return before it; a lone carriage return is nowhere allowed.
-/

namespace DotMatrix.Toml

abbrev Reader (α : Type) := List Char → Option (α × List Char)

def isBlank (c : Char) : Bool :=
  c == ' ' || c == '\t'

/-- Tabs and everything from the space on, except the delete character. -/
def isPrintable (c : Char) : Bool :=
  c == '\t' || decide (0x20 ≤ c.toNat) && c.toNat != 0x7F

def skipBlanks (cs : List Char) : List Char :=
  cs.dropWhile isBlank

def newline? : List Char → Option (List Char)
  | '\n' :: rest => some rest
  | '\r' :: '\n' :: rest => some rest
  | _ => none

def skipComment : List Char → List Char
  | '#' :: rest => rest.dropWhile isPrintable
  | cs => cs

/-- What follows the blanks and the comment that may end a line. The text may end here too. -/
def endOfLine? (cs : List Char) : Option (List Char) :=
  match skipComment (skipBlanks cs) with
  | [] => some []
  | cs => newline? cs

/-- Skips blanks, line ends and comments. A comment has to end with its line. -/
def skipLines? (inComment : Bool) : List Char → Option (List Char)
  | [] => if inComment then none else some []
  | '\n' :: rest => skipLines? false rest
  | '\r' :: '\n' :: rest => skipLines? false rest
  | c :: rest =>
    if inComment then
      if isPrintable c then skipLines? true rest else none
    else if isBlank c then skipLines? false rest
    else if c = '#' then skipLines? true rest
    else some (c :: rest)

end DotMatrix.Toml
