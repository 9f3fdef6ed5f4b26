import DotMatrix.Command.Arguments

/-!
# Running a cartridge

The command reads its settings and an image, runs the frames asked for and reports the state of the
machine. It either reports or fails with one message. How the texts that it is given are read is a
parameter, and so is the host that it runs on.
-/

namespace DotMatrix.Command

inductive Failure where
  | settingsUnreadable (file : String)
  | settingsInvalid (file : String)
  | filterInvalid (filter : String)
  | romUnreadable (file : String)
  | cartridge (e : CartridgeError)
  | divisionByZero
  | undefinedOpcode (e : DecodeError)

def Failure.message : Failure → String
  | settingsUnreadable file => "failed to read config file " ++ file
  | settingsInvalid file => "invalid config file " ++ file
  | filterInvalid filter => "invalid log filter " ++ Quoted.encode filter
  | romUnreadable file => "failed to read ROM " ++ file
  | cartridge e => e.message
  | divisionByZero => "divide by zero error when dividing duration by scalar"
  | undefinedOpcode e => e.message

inductive Outcome where
  | report (lines : List String)
  | failure (f : Failure)
  | usage

/-- Files by name, as far as they can be read. -/
abbrev Files := String → Option ByteArray

/-- How the command line, a settings file and a filter of events are read. -/
structure Readers where
  arguments? : List String → Option Arguments
  stated? : String → Option Settings.Stated
  acceptsFilter : String → Bool

/-- What is told while the command runs: what the machine tells, and how far the frames are. -/
inductive Notice where
  | event (e : Event)
  | running (frames : Nat)
  | frameDone (frame cycles : Nat)

namespace Notice

def level : Notice → Level
  | event e => e.level
  | running _ => .info
  | frameDone _ _ => .debug

def message : Notice → String
  | event e => e.message
  | running frames => "Running " ++ Event.decimal frames ++ " frames"
  | frameDone frame cycles =>
    "Frame " ++ Event.decimal frame ++ " done at " ++ Event.decimal cycles ++ " cycles"

def line (n : Notice) : String :=
  n.level.text ++ " " ++ n.message

end Notice

/-- What the command asks of the system that it runs on. Times are in nanoseconds. -/
structure Host (m : Type → Type) where
  /-- From then on shows the notices that pass the filter. -/
  showNotices : String → m Unit
  tell : Notice → m Unit
  now : m Nat
  sleep : Nat → m Unit

/-- A host that shows nothing and on which no time passes. -/
def Host.still : Host Id where
  showNotices _ := pure ()
  tell _ := pure ()
  now := pure 0
  sleep _ := pure ()

def settings (r : Readers) (a : Arguments) (files : Files) : Except Failure Settings :=
  match a.settingsFile with
  | none => .ok (a.override Settings.default)
  | some file =>
    match (files file).bind String.fromUTF8? with
    | none => .error (.settingsUnreadable file)
    | some text =>
      match r.stated? text with
      | none => .error (.settingsInvalid file)
      | some t => .ok (a.override (Settings.ofStated t))

/-- The filter of the environment, if it has one that is accepted, else that of the settings. -/
def noticeFilter (r : Readers) (environment : Option String) (s : Settings) :
    Except Failure String :=
  match environment.filter r.acceptsFilter with
  | some f => .ok f
  | none =>
    if r.acceptsFilter s.logFilter then .ok s.logFilter else .error (.filterInvalid s.logFilter)

/-- The time of one frame out of so many in a second. -/
def frameTime? (fps : Nat) : Option Nat :=
  if fps = 0 then none else some (1000000000 / fps)

/-- The time that frames are paced to. A rate of zero paces no frame. -/
def pace (fps : Option Nat) : Except Failure (Option Nat) :=
  match fps.filter (0 < ·) with
  | none => .ok none
  | some fps =>
    match frameTime? fps with
    | none => .error .divisionByZero
    | some time => .ok (some time)

/-- What is left of a time, unless more than that has passed. -/
def remaining? (time passed : Nat) : Option Nat :=
  if passed ≤ time then some (time - passed) else none

def report (m : Machine Bus) : List String :=
  ["Title: " ++ m.header.title,
    "Cycles: " ++ Event.decimal m.cycles,
    m.core.cpu.render,
    "LY=" ++ Event.decimal m.display.line.toNat ++ " Mode=" ++ m.display.phase.text]

section

variable {m : Type → Type} [Monad m]

def Host.tellAll (host : Host m) (events : List Event) : m Unit :=
  events.forM fun e => host.tell (.event e)

/-- Sleeps for what is left of a frame that began at `start`. -/
def Host.rest (host : Host m) (time : Option Nat) (start : Nat) : m Unit := do
  match time with
  | none => pure ()
  | some time =>
    let stop ← host.now
    match remaining? time (stop - start) with
    | none => pure ()
    | some rest => host.sleep rest

/-- Runs frames, which are numbered from `frame` on. -/
def runFrames (host : Host m) (time : Option Nat) (g : Machine Bus) (frame : Nat) :
    Nat → m (Except Failure (Machine Bus))
  | 0 => pure (.ok g)
  | n + 1 => do
    let start ← host.now
    let (result, watched) := g.observe.nextFrame
    host.tellAll watched.core.memory.events.toList
    match result with
    | .error e => pure (.error (.undefinedOpcode e))
    | .ok _ =>
      let g := watched.unobserve
      host.tell (.frameDone frame g.cycles)
      host.rest time start
      runFrames host time g (frame + 1) n

def play (host : Host m) (image : List UInt8) (s : Settings) :
    m (Except Failure (Machine Bus)) := do
  match Cartridge.ofImage image with
  | .error e => pure (.error (.cartridge e))
  | .ok c =>
    host.tellAll c.events
    host.tell (.running s.frames)
    match pace s.fps with
    | .error f => pure (.error f)
    | .ok time =>
      let g := Machine.powerOn c.header s.options (Machine.busOf c s.options)
      runFrames host time g 0 s.frames

def perform (r : Readers) (host : Host m) (environment : Option String) (a : Arguments)
    (files : Files) : m (Except Failure (Machine Bus)) := do
  match settings r a files with
  | .error f => pure (.error f)
  | .ok s =>
    match noticeFilter r environment s with
    | .error f => pure (.error f)
    | .ok shown =>
      host.showNotices shown
      match files a.rom with
      | none => pure (.error (.romUnreadable a.rom))
      | some image => play host image.data.toList s

/-- Runs the command. The environment may hold a filter. -/
def execute (r : Readers) (host : Host m) (environment : Option String) (args : List String)
    (files : Files) : m Outcome := do
  match r.arguments? args with
  | none => pure .usage
  | some a =>
    match ← perform r host environment a files with
    | .error f => pure (.failure f)
    | .ok g => pure (.report (report g))

end

/-- The readers of the command line. A filter means nothing to it, so it takes any. -/
def Readers.standard : Readers where
  arguments? := Arguments.parse?
  stated? := Settings.Stated.parse?
  acceptsFilter _ := true

/-- How the command ends where nothing is shown and no time passes. -/
def run (args : List String) (files : Files) : Outcome :=
  Id.run (execute Readers.standard Host.still none args files)

end DotMatrix.Command
