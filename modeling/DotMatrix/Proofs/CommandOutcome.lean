import DotMatrix.Command.Run
import DotMatrix.Proofs.Dependence
import DotMatrix.Proofs.FrameRuns
import DotMatrix.Proofs.TitleField

/-!
# The outcome of the command

Of the arguments and the settings only the image and the number of frames decide how the command
ends, on whatever host it runs. It fails if the image is rejected or a step of these frames fails,
and otherwise it reports the machine at the last of their vertical blanks.
-/

namespace DotMatrix

section

variable {m : Type → Type} [Monad m] [LawfulMonad m] {α β : Type} {a : α} {b : β}

/-- The computation ends with `a`, whatever its effects are. -/
def Returns (x : m α) (a : α) : Prop :=
  ∃ effects : m Unit, x = effects >>= fun _ => pure a

theorem returns_pure (a : α) : Returns (pure a : m α) a :=
  ⟨pure (), (pure_bind () fun _ => pure a).symm⟩

/-- What comes first has no say if the rest ends alike behind all of its results. -/
theorem returns_bind_of_forall {f : β → m α} (x : m β) (h : ∀ b, Returns (f b) a) :
    Returns (x >>= f) a := by
  choose effects hEffects using h
  refine ⟨x >>= effects, ?_⟩
  rw [bind_assoc]
  exact bind_congr hEffects

theorem Returns.bind {x : m β} {f : β → m α} (h : Returns x b) (hRest : Returns (f b) a) :
    Returns (x >>= f) a := by
  obtain ⟨effects, rfl⟩ := h
  rw [bind_assoc]
  refine returns_bind_of_forall effects fun _ => ?_
  rwa [pure_bind]

theorem Returns.run_eq {x : Id α} (h : Returns x a) : Id.run x = a := by
  obtain ⟨effects, rfl⟩ := h
  rfl

theorem Returns.run_fst_eq {σ : Type} {x : StateM σ α} (h : Returns x a) (s : σ) :
    (x.run s).1 = a := by
  obtain ⟨effects, rfl⟩ := h
  rfl

end

/-- The line that shows a processor. -/
def Cpu.line (c : Cpu) : String :=
  let r := c.regs
  let digit (b : Bool) := if b then "1" else "0"
  let truth (b : Bool) := if b then "true" else "false"
  let flags :=
    "Flags(Z=" ++ digit r.f.zero ++ " N=" ++ digit r.f.subtract ++ " H=" ++ digit r.f.halfCarry ++
      " C=" ++ digit r.f.carry ++ ")"
  let registers :=
    "A=" ++ Hex.byte r.a ++ " " ++ flags ++ " B=" ++ Hex.byte r.b ++ " C=" ++ Hex.byte r.c ++
      " D=" ++ Hex.byte r.d ++ " E=" ++ Hex.byte r.e ++ " H=" ++ Hex.byte r.h ++
      " L=" ++ Hex.byte r.l ++ " SP=" ++ Hex.word r.sp ++ " PC=" ++ Hex.word r.pc
  let interrupts :=
    "IME=" ++ truth c.interrupts.ime ++ " (scheduled=" ++ truth c.interrupts.scheduled ++ ")"
  let state :=
    match c.activity with
    | .running => "Running"
    | .halted => "Halted"
    | .stopped => "Stopped"
  "CPU \x7b " ++ registers ++ " " ++ interrupts ++ " State=" ++ state ++ " \x7d"

theorem Cpu.render_eq (c : Cpu) : c.render = c.line := rfl

/-- The loop meets no undefined op code. -/
theorem Machine.not_failsBefore_of_loop {m : Machine Bus} {n : Nat} {e : DecodeError}
    (hImage : ofImage (programmed loopCode) .default = .ok m) : ¬ m.FailsBefore n e := by
  rintro ⟨costs, before, hRun, -, hFails⟩
  have hReachable := hRun.reachable (.powerOn hImage)
  cases costs with
  | nil =>
    cases hRun
    obtain ⟨next, hStep, -⟩ := step_into_loop hImage
    cases hStep.symm.trans hFails
  | cons c costs =>
    obtain ⟨next, hStep, -⟩ := hReachable.step_loop (hRun.into_loop hImage)
    cases hStep.symm.trans hFails

theorem Machine.cpu_of_loop_frames {m : Machine Bus} {n : Nat}
    (hImage : ofImage (programmed loopCode) .default = .ok m) (hSome : 1 ≤ n) :
    (m.afterCalls (List.replicate n .nextFrame)).core.cpu = looping := by
  obtain ⟨after, hFrames, hFramed⟩ :=
    (framed_powerOn hImage).frames_eq_ok (n := n) fun e => not_failsBefore_of_loop hImage
  obtain ⟨costs, hRun⟩ := hFramed.run
  obtain ⟨-, -, hReached, -⟩ := hFramed.at_vblank hSome
  rw [afterCalls_frames, hFrames]
  cases costs with
  | nil =>
    have hCycles : after.cycles = 0 := hRun.cycles_from_powerOn hImage
    omega
  | cons c costs => exact hRun.into_loop hImage

namespace Command

section

variable {m : Type → Type} [Monad m] [LawfulMonad m] {r : Readers} {environment : Option String}
variable {args : List String} {files : Files} {a : Arguments} {t : Settings.Stated}
variable {rom : ByteArray}

/-- The settings file states `t`. No file states nothing. -/
def StatedBy (r : Readers) (files : Files) (settingsFile : Option String)
    (t : Settings.Stated) : Prop :=
  match settingsFile with
  | none => t = Settings.Stated.nothing
  | some file => ∃ bytes text, files file = some bytes ∧ String.fromUTF8? bytes = some text ∧
      r.stated? text = some t

/-- The command line, the settings file and the filter are in order: they read as `a` and `t`, and
the environment or the settings hold a filter that is accepted. -/
structure InOrder (r : Readers) (environment : Option String) (args : List String) (files : Files)
    (a : Arguments) (t : Settings.Stated) : Prop where
  arguments : r.arguments? args = some a
  stated : StatedBy r files a.settingsFile t
  accepted : (∃ f, environment = some f ∧ r.acceptsFilter f = true) ∨
    r.acceptsFilter (a.override (Settings.ofStated t)).logFilter = true

/-- The frames of the command line, else those of the settings file, else 60. -/
def frameCount (a : Arguments) (t : Settings.Stated) : Nat :=
  (a.frames.or t.frames).getD 60

theorem frames_override (a : Arguments) (t : Settings.Stated) :
    (a.override (Settings.ofStated t)).frames = frameCount a t := by
  rw [frameCount]
  cases hFrames : a.frames with
  | none => rw [Arguments.override, hFrames]; rfl
  | some n => rw [Arguments.override, hFrames]; rfl

theorem InOrder.settings (h : InOrder r environment args files a t) :
    settings r a files = .ok (a.override (Settings.ofStated t)) := by
  have hStated := h.stated
  unfold StatedBy at hStated
  rw [Command.settings]
  cases hFile : a.settingsFile with
  | none =>
    rw [hFile] at hStated
    obtain rfl : t = Settings.Stated.nothing := hStated
    rfl
  | some file =>
    rw [hFile] at hStated
    obtain ⟨bytes, text, hBytes, hText, hRead⟩ := hStated
    have hContents : (files file).bind String.fromUTF8? = some text := by
      rw [hBytes, Option.bind_some, hText]
    dsimp only
    rw [hContents]
    dsimp only
    rw [hRead]

theorem InOrder.exists_filter (h : InOrder r environment args files a t) :
    ∃ shown, noticeFilter r environment (a.override (Settings.ofStated t)) = .ok shown := by
  unfold noticeFilter
  split
  next f hFilter => exact ⟨f, rfl⟩
  next hFilter =>
    rcases h.accepted with ⟨f, rfl, hAccepted⟩ | hAccepted
    · rw [Option.filter_some_pos hAccepted] at hFilter
      cases hFilter
    · exact ⟨_, if_pos hAccepted⟩

/-- Nothing is divided by a rate of zero. -/
theorem pace_eq (fps : Option Nat) :
    pace fps = .ok ((fps.filter (0 < ·)).map (1000000000 / ·)) := by
  unfold pace
  split
  next hNone =>
    rw [hNone]
    rfl
  next rate hRate =>
    have hPos : 0 < rate := of_decide_eq_true (Option.filter_eq_some_iff.mp hRate).2
    rw [hRate, frameTime?, if_neg (Nat.ne_of_gt hPos)]
    rfl

/-- Where some frames lead, or the failure that ends them. -/
def framesOf (g : Machine Bus) (n : Nat) : Except Failure (Machine Bus) :=
  match g.frames n with
  | (.error e, _) => .error (.undefinedOpcode e)
  | (.ok _, g) => .ok g

/-- Neither the clock nor what is told has a say in the frames. -/
theorem returns_runFrames (host : Host m) (time : Option Nat) (g : Machine Bus) (frame n : Nat) :
    Returns (runFrames host time g frame n) (framesOf g n) := by
  induction n generalizing g frame with
  | zero => exact returns_pure _
  | succ n ih =>
    rw [runFrames, framesOf, Machine.frames, g.nextFrame_observe]
    refine returns_bind_of_forall _ fun start => ?_
    rcases g.observe.nextFrame with ⟨e | ⟨⟩, watched⟩
    · exact returns_bind_of_forall _ fun _ => returns_pure _
    · refine returns_bind_of_forall _ fun _ => ?_
      refine returns_bind_of_forall _ fun _ => ?_
      exact returns_bind_of_forall _ fun _ => ih _ _

/-- How an image plays for some frames under some options. -/
def played (image : List UInt8) (options : Options) (n : Nat) : Except Failure (Machine Bus) :=
  match Machine.ofImage image options with
  | .error e => .error (.cartridge e)
  | .ok g => framesOf g n

theorem returns_play (host : Host m) (image : List UInt8) (s : Settings) :
    Returns (play host image s) (played image s.options s.frames) := by
  rw [play, played, Machine.ofImage]
  cases Cartridge.ofImage image with
  | error e => exact returns_pure _
  | ok c =>
    refine returns_bind_of_forall _ fun _ => ?_
    refine returns_bind_of_forall _ fun _ => ?_
    rw [pace_eq]
    exact returns_runFrames _ _ _ _ _

def outcomeOf : Except Failure (Machine Bus) → Outcome
  | .error f => .failure f
  | .ok g => .report (report g)

theorem InOrder.returns_execute (h : InOrder r environment args files a t)
    (hRom : files a.rom = some rom) (host : Host m) :
    Returns (execute r host environment args files)
      (outcomeOf (played rom.data.toList (a.override (Settings.ofStated t)).options
        (frameCount a t))) := by
  have hPerform : Returns (perform r host environment a files)
      (played rom.data.toList (a.override (Settings.ofStated t)).options (frameCount a t)) := by
    obtain ⟨shown, hShown⟩ := h.exists_filter
    rw [perform, h.settings]
    dsimp only
    rw [hShown]
    refine returns_bind_of_forall _ fun _ => ?_
    rw [hRom, ← frames_override]
    exact returns_play _ _ _
  rw [execute, h.arguments]
  refine hPerform.bind ?_
  rcases played rom.data.toList (a.override (Settings.ofStated t)).options (frameCount a t)
    with f | g
  · exact returns_pure _
  · exact returns_pure _

end

section

variable {image : List UInt8} {m : Machine Bus} {n : Nat}

/-- The options leave the report as it is. -/
theorem outcomeOf_played (image : List UInt8) (options : Options) (n : Nat) :
    outcomeOf (played image options n) = outcomeOf (played image .default n) := by
  rw [played, played, Machine.ofImage_retold image Options.default options]
  cases hImage : Machine.ofImage image Options.default with
  | error e => rfl
  | ok m =>
    have hConsistent : m.Consistent := (Machine.Reachable.powerOn hImage).consistent
    obtain ⟨hResult, -, hAfter⟩ :=
      (Machine.lockstep_retold options options.reportRomWrites).frames ⟨hConsistent, rfl⟩ n
    dsimp only [Except.map, framesOf]
    rcases hFrames : m.frames n with ⟨e | ⟨⟩, m₁⟩
    all_goals
      rcases hOther : (m.retold options options.reportRomWrites).frames n with ⟨result, m₂⟩
      rw [hFrames, hOther] at hResult hAfter
      obtain rfl := hResult
      obtain rfl := hAfter
      rfl

theorem played_ne_divisionByZero (image : List UInt8) (options : Options) (n : Nat) :
    played image options n ≠ .error .divisionByZero := by
  unfold played framesOf
  split
  next => nofun
  next => split <;> nofun

theorem played_of_rejected {e : CartridgeError} (h : Cartridge.ofImage image = .error e) :
    played image .default n = .error (.cartridge e) := by
  rw [played, Machine.ofImage, h]
  rfl

theorem played_eq_undefinedOpcode_iff {e : DecodeError}
    (h : Machine.ofImage image Options.default = .ok m) :
    played image .default n = .error (.undefinedOpcode e) ↔ m.FailsBefore n e := by
  rw [← (Machine.framed_powerOn h).frames_eq_error_iff, played, h]
  dsimp only [framesOf]
  rcases m.frames n with ⟨e' | ⟨⟩, m₁⟩
  · constructor
    · intro hSame
      cases hSame
      exact ⟨m₁, rfl⟩
    · rintro ⟨m₂, hSame⟩
      cases hSame
      rfl
  · constructor
    · intro hSame
      cases hSame
    · rintro ⟨m₂, hSame⟩
      cases hSame

theorem played_of_safe (h : Machine.ofImage image Options.default = .ok m)
    (hSafe : ∀ e, ¬ m.FailsBefore n e) :
    ∃ final, m.afterCalls (List.replicate n .nextFrame) = final ∧
      played image .default n = .ok final ∧ m.Framed n final := by
  obtain ⟨final, hFrames, hFramed⟩ := (Machine.framed_powerOn h).frames_eq_ok hSafe
  rw [Machine.afterCalls_frames, played, h]
  dsimp only [framesOf]
  rw [hFrames]
  exact ⟨final, rfl, rfl, hFramed⟩

theorem outcomeOf_eq_failure_iff {x : Except Failure (Machine Bus)} {f : Failure} :
    outcomeOf x = .failure f ↔ x = .error f := by
  cases x with
  | error f' =>
    constructor
    · rintro ⟨⟩
      rfl
    · rintro ⟨⟩
      rfl
  | ok g => exact iff_of_false nofun nofun

theorem exists_isTitle (hImage : Machine.ofImage image Options.default = .ok m) :
    ∃ k, Header.IsTitle image k m.header.title := by
  rw [Machine.header_of_ofImage hImage]
  obtain ⟨c, hCartridge, -⟩ := Machine.ofImage_eq_ok hImage
  obtain ⟨hSize, -⟩ := Cartridge.accepted_of_ofImage hCartridge
  exact Header.isTitle_titleOf (Nat.le_trans (by decide) hSize)

/-- The whole command. An image and a number of frames lead to one outcome, on every host and
however the texts are read, whatever else the arguments, the settings and the environment ask for.
A report holds the title, the cycles, the processor and the display of the machine that has run so
many frames from power-on. -/
theorem run_outcome (rom : ByteArray) (n : Nat) :
    ∃ outcome : Outcome,
      (∀ (m : Type → Type) [Monad m] [LawfulMonad m] (host : Host m) (r : Readers)
          (environment : Option String) (args : List String) (files : Files) (a : Arguments)
          (t : Settings.Stated),
        InOrder r environment args files a t → files a.rom = some rom → frameCount a t = n →
          Returns (execute r host environment args files) outcome) ∧
      outcome ≠ .failure .divisionByZero ∧
      (∀ e, Cartridge.ofImage rom.data.toList = .error e → outcome = .failure (.cartridge e)) ∧
      ∀ start, Machine.ofImage rom.data.toList Options.default = .ok start →
        (∀ e, outcome = .failure (.undefinedOpcode e) ↔ start.FailsBefore n e) ∧
        (∀ e, start.FailsBefore n e → e.opcode ∈ undefinedOpcodes) ∧
        ((∀ e, ¬ start.FailsBefore n e) →
          ∃ final k title last, start.afterCalls (List.replicate n .nextFrame) = final ∧
            outcome = .report
              ["Title: " ++ title, "Cycles: " ++ toString final.cycles, final.core.cpu.line,
                last] ∧
            Header.IsTitle rom.data.toList k title ∧
            (n = 0 → last = "LY=0 Mode=OamScan" ∧ final.cycles = 0) ∧
            (1 ≤ n → last = "LY=144 Mode=VBlank" ∧ 16416 + 17556 * (n - 1) ≤ final.cycles ∧
              final.cycles ≤ 16416 + 17556 * (n - 1) + 5)) := by
  refine ⟨outcomeOf (played rom.data.toList .default n), ?_, ?_, ?_, ?_⟩
  · intro m _ _ host r environment args files a t hOrder hRom hCount
    have hReturns := hOrder.returns_execute hRom host
    rwa [outcomeOf_played, hCount] at hReturns
  · exact mt outcomeOf_eq_failure_iff.mp (played_ne_divisionByZero _ _ n)
  · intro e hRejected
    rw [played_of_rejected hRejected]
    rfl
  · intro start hImage
    refine ⟨?_, fun e hFails => hFails.undefined, ?_⟩
    · intro e
      rw [outcomeOf_eq_failure_iff]
      exact played_eq_undefinedOpcode_iff hImage
    · intro hSafe
      obtain ⟨final, hFinal, hPlayed, hFramed⟩ := played_of_safe hImage hSafe
      obtain ⟨k, hTitle⟩ := exists_isTitle hImage
      obtain ⟨costs, hRun⟩ := hFramed.run
      have hHeader : final.header.title = start.header.title := congrArg Header.title hRun.header_eq
      let last := "LY=" ++ Event.decimal final.display.line.toNat ++ " Mode=" ++
        final.display.phase.text
      refine ⟨final, k, start.header.title, last, hFinal, ?_, hTitle, ?_, ?_⟩
      · rw [hPlayed, ← hHeader, ← Cpu.render_eq]
        rfl
      · rintro rfl
        obtain ⟨c, -, rfl⟩ := Machine.ofImage_eq_ok hImage
        obtain rfl := hFinal
        have hLast : last = "LY=" ++ Event.decimal (0 : UInt8).toNat ++ " Mode=" ++
            Phase.oamScan.text := rfl
        exact ⟨hLast, rfl⟩
      · intro hSome
        obtain ⟨hPhase, hLine, hCycles⟩ := hFramed.at_vblank hSome
        have hLast : last = "LY=" ++ Event.decimal (144 : UInt8).toNat ++ " Mode=" ++
            Phase.vblank.text := by
          rw [← hPhase, ← hLine]
        exact ⟨hLast, hCycles⟩

end

def pacedText : String :=
  "frames = 2\nfps = 0\n"

def loopRom : ByteArray :=
  ⟨⟨Machine.programmed Machine.loopCode⟩⟩

/-- A settings file and an image. -/
def pacedFiles : Files := fun file =>
  if file = "paced.toml" then some pacedText.toUTF8
  else if file = "game.gb" then some loopRom
  else none

/-- A host whose clock shows ten milliseconds more with every look. -/
def ticking : Host (StateM Nat) where
  showNotices _ := pure ()
  tell _ := pure ()
  now := modifyGet fun time => (time, time + 10000000)
  sleep time := modify (· + time)

/-- Traced and without a pace, or thirty frames in a second, or with no clock at all. -/
theorem run_outcome_paced :
    ∃ cycles outcome, 33972 ≤ cycles ∧ cycles ≤ 33977 ∧
      outcome = Outcome.report
        ["Title: ", "Cycles: " ++ toString cycles,
          "CPU \x7b A=0x00 Flags(Z=0 N=0 H=0 C=0) B=0x00 C=0x00 D=0x00 E=0x00 H=0x00 L=0x00 " ++
            "SP=0xFFFE PC=0x0101 IME=false (scheduled=false) State=Running \x7d",
          "LY=144 Mode=VBlank"] ∧
      ((execute .standard ticking none ["--trace", "--fps=0", "--config", "paced.toml", "game.gb"]
        pacedFiles).run 0).1 = outcome ∧
      ((execute .standard ticking none ["--frames", "2", "--fps", "30", "game.gb"]
        pacedFiles).run 0).1 = outcome ∧
      run ["game.gb", "--frames=2"] pacedFiles = outcome := by
  have hText (text : String) : String.fromUTF8? text.toUTF8 = some text := by
    rw [String.fromUTF8?, String.toUTF8_eq_toByteArray, dif_pos text.isValidUTF8]
    rfl
  have hStated : StatedBy .standard pacedFiles (some "paced.toml")
      ⟨none, some 2, some 0, none, none⟩ :=
    ⟨_, pacedText, if_pos rfl, hText pacedText, by decide +kernel⟩
  have hRom : pacedFiles "game.gb" = some loopRom := by
    rw [pacedFiles, if_neg (by decide), if_pos rfl]
  have hTraced : InOrder .standard none
      ["--trace", "--fps=0", "--config", "paced.toml", "game.gb"] pacedFiles
      ⟨"game.gb", some "paced.toml", none, some 0, true⟩ ⟨none, some 2, some 0, none, none⟩ :=
    ⟨by decide +kernel, hStated, .inr rfl⟩
  have hPaced : InOrder .standard none ["--frames", "2", "--fps", "30", "game.gb"] pacedFiles
      ⟨"game.gb", none, some 2, some 30, false⟩ .nothing :=
    ⟨by decide +kernel, rfl, .inr rfl⟩
  have hShort : InOrder .standard none ["game.gb", "--frames=2"] pacedFiles
      ⟨"game.gb", none, some 2, none, false⟩ .nothing :=
    ⟨by decide +kernel, rfl, .inr rfl⟩
  have hImage : Machine.ofImage loopRom.data.toList Options.default =
      .ok (Machine.programOf Machine.loopCode Options.default) :=
    Machine.ofImage_programmed (by decide) (by decide +kernel)
  obtain ⟨outcome, hReturns, -, -, hAccepted⟩ := run_outcome loopRom 2
  obtain ⟨-, -, hSafe⟩ := hAccepted _ hImage
  obtain ⟨final, k, title, last, rfl, rfl, hTitle, -, hLast⟩ :=
    hSafe fun e => Machine.not_failsBefore_of_loop hImage
  obtain ⟨rfl, hReached, hLate⟩ := hLast (by decide)
  have hEmpty : Header.IsTitle loopRom.data.toList 0 "" := by
    constructor
    all_goals decide +kernel
  obtain rfl : title = "" := hTitle.unique hEmpty
  have hFirst := hReturns (StateM Nat) ticking _ _ _ _ _ _ hTraced hRom rfl
  have hSecond := hReturns (StateM Nat) ticking _ _ _ _ _ _ hPaced hRom rfl
  have hThird := hReturns Id Host.still _ _ _ _ _ _ hShort hRom rfl
  have hLine : Machine.looping.line =
      "CPU \x7b A=0x00 Flags(Z=0 N=0 H=0 C=0) B=0x00 C=0x00 D=0x00 E=0x00 H=0x00 L=0x00 " ++
        "SP=0xFFFE PC=0x0101 IME=false (scheduled=false) State=Running \x7d" := by
    decide +kernel
  rw [Machine.cpu_of_loop_frames hImage (by decide), hLine] at hFirst hSecond hThird
  exact ⟨_, _, hReached, hLate, rfl, hFirst.run_fst_eq 0, hSecond.run_fst_eq 0, hThird.run_eq⟩

end Command
end DotMatrix
