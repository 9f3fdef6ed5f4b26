import DotMatrix.Toml.Number
import DotMatrix.Toml.Table

/-!
# TOML documents

A document is a list of pairs and of headers with pairs below them, one on each line. Reading one
either gives its root table or fails. Values nest, and keys have parts, fewer than 80 deep.
-/

namespace DotMatrix.Toml

def nestingLimit : Nat := 79

def isBareKeyChar (c : Char) : Bool :=
  c.isAlphanum || c == '-' || c == '_'

def bareKey? (cs : List Char) : Option (List Char × List Char) :=
  let key := cs.takeWhile isBareKeyChar
  if key.isEmpty then none else some (key, cs.dropWhile isBareKeyChar)

def keyPart? : Reader (List Char)
  | '"' :: rest => basicBody rest
  | '\x27' :: rest => literalBody rest
  | cs => bareKey? cs

/-- The parts of a key between dots. Blanks may stand around each. -/
def keyParts? (cs : List Char) : Nat → Option (List String × List Char)
  | 0 => none
  | parts + 1 =>
    (keyPart? (skipBlanks cs)).bind fun (part, rest) =>
      match skipBlanks rest with
      | '.' :: rest => (keyParts? rest parts).map fun (ps, rest) => (String.ofList part :: ps, rest)
      | rest => some ([String.ofList part], rest)

def key? (cs : List Char) : Option ((List String × String) × List Char) :=
  (keyParts? cs nestingLimit).map fun (parts, rest) =>
    ((parts.dropLast, parts.getLastD ""), rest)

/-- A key, an equals sign and a value that `value?` reads. -/
def pair? (value? : Reader Value) : Reader Pair := fun cs =>
  match key? cs with
  | some ((path, key), '=' :: rest) =>
    (value? (skipBlanks rest)).map fun (v, rest) => (⟨path, key, v⟩, rest)
  | _ => none

/-- The rest of an array behind its bracket or a comma, at most `n` items. -/
def items? (value? : Reader Value) (cs : List Char) : Nat → Option (List Value × List Char)
  | 0 => none
  | n + 1 =>
    match skipLines? false cs with
    | some (']' :: rest) => some ([], rest)
    | some cs =>
      (value? cs).bind fun (v, rest) =>
        match skipLines? false rest with
        | some (',' :: rest) => (items? value? rest n).map fun (vs, rest) => (v :: vs, rest)
        | some (']' :: rest) => some ([v], rest)
        | _ => none
    | none => none

/-- The rest of a table in braces behind a comma or, if there is a pair, its brace. -/
def pairs? (value? : Reader Value) (cs : List Char) : Nat → Option (List Pair × List Char)
  | 0 => none
  | n + 1 =>
    (pair? value? cs).bind fun (p, rest) =>
      match skipBlanks rest with
      | ',' :: rest => (pairs? value? rest n).map fun (ps, rest) => (p :: ps, rest)
      | '\x7d' :: rest => some ([p], rest)
      | _ => none

/-- An array behind its bracket. A limit beyond the length of the text is no limit. -/
def array? (value? : Reader Value) (limit : Nat) : Reader Value := fun cs =>
  (items? value? cs limit).map fun (vs, rest) => (.array vs, rest)

def braces? (value? : Reader Value) (limit : Nat) : Reader Value := fun cs =>
  match skipBlanks cs with
  | '\x7d' :: rest => some (.table .inline [], rest)
  | _ =>
    (pairs? value? cs limit).bind fun (ps, rest) =>
      (inlineTable? ps).map fun v => (v, rest)

/-- A value without brackets or braces. -/
def simple? : Reader Value := fun cs =>
  match cs with
  | '"' :: _ | '\x27' :: _ => (quoted? cs).map fun (s, rest) => (.string (String.ofList s), rest)
  | 't' :: 'r' :: 'u' :: 'e' :: rest => some (.boolean true, rest)
  | 'f' :: 'a' :: 'l' :: 's' :: 'e' :: rest => some (.boolean false, rest)
  | _ => (date? cs).or (number? cs)

/-- A value with at most `depth` brackets and braces around any part of it. -/
def value? (limit : Nat) : Nat → Reader Value
  | 0 => simple?
  | depth + 1 => fun cs =>
    match cs with
    | '[' :: rest => array? (value? limit depth) limit rest
    | '\x7b' :: rest => braces? (value? limit depth) limit rest
    | _ => simple? cs

def header? (cs : List Char) : Option (Section × List Char) :=
  match cs with
  | '[' :: rest =>
    match key? rest with
    | some ((path, key), ']' :: ']' :: rest) =>
      (endOfLine? rest).map fun rest => (⟨true, path, key, []⟩, rest)
    | _ => none
  | _ =>
    match key? cs with
    | some ((path, key), ']' :: rest) =>
      (endOfLine? rest).map fun rest => (⟨false, path, key, []⟩, rest)
    | _ => none

/-- The pairs up to the next header and the sections from there on, in at most `n` lines. Each line
leaves at least one character fewer, so a limit beyond the length of the text stays one. -/
def lines? (cs : List Char) : Nat → Option (List Pair × List Section)
  | 0 => none
  | n + 1 =>
    match skipBlanks cs with
    | [] => some ([], [])
    | '#' :: rest => (endOfLine? ('#' :: rest)).bind fun rest => lines? rest n
    | '\n' :: rest | '\r' :: '\n' :: rest => lines? rest n
    | '[' :: rest =>
      (header? rest).bind fun (s, rest) =>
        (lines? rest n).map fun (ps, ss) => ([], { s with pairs := ps } :: ss)
    | cs =>
      (pair? (value? n nestingLimit) cs).bind fun (p, rest) =>
        (endOfLine? rest).bind fun rest =>
          (lines? rest n).map fun (ps, ss) => (p :: ps, ss)

/-- A byte order mark may stand first. -/
def dropMark : List Char → List Char
  | '\uFEFF' :: rest => rest
  | cs => cs

def document? (text : String) : Option Entries :=
  let cs := dropMark text.toList
  (lines? cs (cs.length + 1)).bind fun (pairs, sections) => build? pairs sections

end DotMatrix.Toml
