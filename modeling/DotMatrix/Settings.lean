import DotMatrix.Machine
import DotMatrix.Toml.Document

/-!
# Settings

What a run can be told beforehand. A settings file is a TOML document; what it leaves out keeps its
default, and what it holds besides is ignored.
-/

namespace DotMatrix

structure Settings where
  logFilter : String
  frames : Nat
  /-- The rate that frames are paced to. -/
  fps : Option Nat
  options : Options
deriving DecidableEq

namespace Settings

open Toml (Entries Value)

def default : Settings where
  logFilter := "info"
  frames := 60
  fps := none
  options := Options.default

/-- A count fits in 32 bits. -/
def count? : Value → Option Nat
  | .integer n => if 0 ≤ n ∧ n ≤ 4294967295 then some n.toNat else none
  | _ => none

def text? : Value → Option String
  | .string s => some s
  | _ => none

def truth? : Value → Option Bool
  | .boolean b => some b
  | _ => none

/-- What a settings file states. -/
structure Stated where
  logFilter : Option String
  frames : Option Nat
  fps : Option Nat
  traceInstructions : Option Bool
  reportRomWrites : Option Bool
deriving DecidableEq

namespace Stated

def nothing : Stated :=
  ⟨none, none, none, none, none⟩

/-- What the key holds, if it is there. -/
def field? {α : Type} (t : Entries) (key : String) (read? : Value → Option α) :
    Option (Option α) :=
  match t.get? key with
  | some v => (read? v).map some
  | none => some none

/-- The options are a table, or a list of them in order. A date is a table without keys. -/
def options? : Value → Option (Option Bool × Option Bool)
  | .table _ t =>
    (field? t "trace_instructions" truth?).bind fun trace =>
      (field? t "report_rom_writes" truth?).map fun report => (trace, report)
  | .array [] => some (none, none)
  | .array [trace] => (truth? trace).map fun trace => (some trace, none)
  | .array (trace :: report :: _) =>
    (truth? trace).bind fun trace => (truth? report).map fun report => (some trace, some report)
  | .date => some (none, none)
  | _ => none

def ofTable? (t : Entries) : Option Stated :=
  (field? t "log_filter" text?).bind fun logFilter =>
    (field? t "frames" count?).bind fun frames =>
      (field? t "fps" count?).bind fun fps =>
        (field? t "emulator" options?).map fun options =>
          let (trace, report) := options.getD (none, none)
          ⟨logFilter, frames, fps, trace, report⟩

def parse? (text : String) : Option Stated :=
  (Toml.document? text).bind ofTable?

end Stated

/-- What is not stated keeps its default. -/
def ofStated (t : Stated) : Settings where
  logFilter := t.logFilter.getD default.logFilter
  frames := t.frames.getD default.frames
  fps := t.fps.or default.fps
  options :=
    { traceInstructions := t.traceInstructions.getD default.options.traceInstructions
      reportRomWrites := t.reportRomWrites.getD default.options.reportRomWrites }

def parse? (text : String) : Option Settings :=
  (Stated.parse? text).map ofStated

end Settings
end DotMatrix
