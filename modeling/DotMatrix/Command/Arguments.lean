import DotMatrix.Settings
import DotMatrix.Text.Digits

/-!
# Command line arguments

One image and up to four options, each given at most once. An option's value follows it or an equals
sign; a value that follows may not look like an option itself, so a lone dash may and `-1` may not.
Behind `--` everything is an image.
-/

namespace DotMatrix

structure Arguments where
  rom : String
  settingsFile : Option String
  frames : Option Nat
  fps : Option Nat
  trace : Bool
deriving DecidableEq

namespace Arguments

inductive Valued where
  | config | frames | fps
deriving DecidableEq

/-- The options without the dashes. -/
def valued? : List Char → Option Valued
  | ['c', 'o', 'n', 'f', 'i', 'g'] => some .config
  | ['f', 'r', 'a', 'm', 'e', 's'] => some .frames
  | ['f', 'p', 's'] => some .fps
  | _ => none

structure Given where
  rom : Option String
  settingsFile : Option String
  frames : Option Nat
  fps : Option Nat
  trace : Bool

def Given.nothing : Given :=
  ⟨none, none, none, none, false⟩

/-- Digits, with a sign if they denote a count nonetheless. -/
def count? (s : String) : Option Nat :=
  let upTo? (bound : Nat) (cs : List Char) : Option Nat :=
    if !cs.isEmpty && cs.all Char.isDigit then Digits.toNatUpTo? 10 bound cs else none
  match s.toList with
  | '+' :: cs => upTo? 4294967295 cs
  | '-' :: cs => upTo? 0 cs
  | cs => upTo? 4294967295 cs

def file? (s : String) : Option String :=
  if s.isEmpty then none else some s

def Given.addRom (g : Given) (s : String) : Option Given :=
  match g.rom with
  | none => (file? s).map fun f => { g with rom := some f }
  | some _ => none

def Given.addTrace (g : Given) : Option Given :=
  if g.trace then none else some { g with trace := true }

def Given.addValue (g : Given) (option : Valued) (s : String) : Option Given :=
  match option with
  | .config =>
    if g.settingsFile.isSome then none
    else (file? s).map fun f => { g with settingsFile := some f }
  | .frames =>
    if g.frames.isSome then none else (count? s).map fun n => { g with frames := some n }
  | .fps => if g.fps.isSome then none else (count? s).map fun n => { g with fps := some n }

/-- Whether an argument is taken for an option wherever it stands. -/
def looksLikeOption (s : String) : Bool :=
  match s.toList with
  | '-' :: _ :: _ => true
  | _ => false

/-- The name and, behind an equals sign, the value of an option. -/
def split (cs : List Char) : List Char × Option String :=
  match cs.dropWhile (· != '=') with
  | _ :: value => (cs.takeWhile (· != '='), some (String.ofList value))
  | [] => (cs, none)

/-- Reads on from what was given. While an option waits for its value, `waiting` names it. -/
def collect (g : Given) (waiting : Option Valued) : List String → Option Given
  | [] => if waiting.isSome then none else some g
  | s :: rest =>
    match waiting with
    | some option =>
      if looksLikeOption s then none
      else (g.addValue option s).bind fun g => collect g none rest
    | none =>
      match s.toList with
      | ['-', '-'] => rest.foldlM Given.addRom g
      | '-' :: '-' :: cs =>
        let (name, attached) := split cs
        match valued? name, attached with
        | some option, some value => (g.addValue option value).bind fun g => collect g none rest
        | some option, none => collect g (some option) rest
        | none, none =>
          if name = "trace".toList then g.addTrace.bind fun g => collect g none rest else none
        | none, some _ => none
      | '-' :: _ :: _ => none
      | _ => (g.addRom s).bind fun g => collect g none rest

def parse? (args : List String) : Option Arguments :=
  (collect Given.nothing none args).bind fun g =>
    g.rom.map fun rom => ⟨rom, g.settingsFile, g.frames, g.fps, g.trace⟩

/-- Options on the command line win over the settings file. -/
def override (a : Arguments) (s : Settings) : Settings where
  logFilter := if a.trace then s.logFilter ++ "," ++ traceFilter else s.logFilter
  frames := a.frames.getD s.frames
  fps := a.fps.or s.fps
  options := { s.options with
    traceInstructions := a.trace || s.options.traceInstructions }
where
  /-- Shows the events of the machine down to the least severe. -/
  traceFilter : String := "wisp=trace"

end Arguments
end DotMatrix
