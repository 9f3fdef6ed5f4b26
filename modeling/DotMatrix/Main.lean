import DotMatrix.Command.Run

/-!
# The command line

Reads the files that the arguments name, runs the command by the clock of the system and prints how
it ended. Whatever the filter, it shows the notices up to those that inform.
-/

namespace DotMatrix.Main

open Command

def read? (file : String) : IO (Option ByteArray) := do
  try
    let bytes ← IO.FS.readBinFile file
    return some bytes
  catch _ => return none

def filesOf (args : List String) : IO Files := do
  match Arguments.parse? args with
  | none => return fun _ => none
  | some a =>
    let rom ← read? a.rom
    match a.settingsFile with
    | none => return fun file => if file = a.rom then rom else none
    | some name =>
      let text ← read? name
      return fun file => if file = name then text else if file = a.rom then rom else none

def host : Host IO where
  showNotices _ := pure ()
  tell n := if Level.info.shows n.level then IO.eprintln n.line else pure ()
  now := IO.monoNanosNow
  sleep time := IO.sleep (UInt32.ofNat (time / 1000000))

def finish : Outcome → IO UInt32
  | .report lines => do
    for line in lines do
      IO.println line
    return 0
  | .failure f => do
    IO.eprintln ("Error: " ++ f.message)
    return 1
  | .usage => do
    IO.eprintln "usage: [--config FILE] [--frames N] [--fps N] [--trace] ROM"
    return 2

end DotMatrix.Main

def main (args : List String) : IO UInt32 := do
  let files ← DotMatrix.Main.filesOf args
  let outcome ←
    DotMatrix.Command.execute DotMatrix.Command.Readers.standard DotMatrix.Main.host none args files
  DotMatrix.Main.finish outcome
