import DotMatrix.Proofs.Telling

/-!
# What a run depends on

The options decide what is told and nothing else, and of an image only the part that is mapped is
looked at. So machines that differ in options, or behind the mapped part of their images, run in
lockstep, watched or not.
-/

namespace DotMatrix

namespace Machine

section

variable {M N : Type} [OnBus M] [OnBus N]

/-- What the calls return, in order. -/
def answers (m : Machine M) : List Call → List (Except DecodeError (Option Nat))
  | [] => []
  | c :: calls => (m.call c).1 :: (m.call c).2.answers calls

/-- Machines that are related show the same display, and a step returns the same on both and leaves
them related. -/
structure Lockstep (R : Machine M → Machine N → Prop) : Prop where
  display {m : Machine M} {n : Machine N} : R m n → m.display = n.display
  tick {m : Machine M} {n : Machine N} : R m n → m.tick.1 = n.tick.1 ∧ R m.tick.2 n.tick.2

namespace Lockstep

variable {R : Machine M → Machine N → Prop} {m : Machine M} {n : Machine N}

theorem ticksToVBlank (h : Lockstep R) (hR : R m n) (rounds : Nat) :
    (m.ticksToVBlank rounds).1 = (n.ticksToVBlank rounds).1 ∧
      R (m.ticksToVBlank rounds).2 (n.ticksToVBlank rounds).2 := by
  induction rounds generalizing m n with
  | zero => exact ⟨rfl, hR⟩
  | succ rounds ih =>
    obtain ⟨hResult, hAfter⟩ := h.tick hR
    rw [Machine.ticksToVBlank, Machine.ticksToVBlank]
    rcases hTick : m.tick with ⟨e | ⟨c, entered⟩, m₁⟩
    all_goals
      rcases hOther : n.tick with ⟨result, n₁⟩
      rw [hTick, hOther] at hResult hAfter
      obtain rfl := hResult
    · exact ⟨rfl, hAfter⟩
    · cases entered with
      | true => exact ⟨rfl, hAfter⟩
      | false => exact ih hAfter

theorem call (h : Lockstep R) (hR : R m n) (c : Call) :
    (m.call c).1 = (n.call c).1 ∧ R (m.call c).2 (n.call c).2 := by
  cases c with
  | step =>
    obtain ⟨hResult, hAfter⟩ := h.tick hR
    refine ⟨?_, hAfter⟩
    exact congrArg (fun r : Except DecodeError Tick => (r.map (·.cycles)).map some) hResult
  | nextFrame =>
    obtain ⟨hResult, hAfter⟩ := h.ticksToVBlank hR m.display.cyclesToVBlank
    rw [Machine.call, Machine.call, nextFrame, nextFrame, ← h.display hR]
    exact ⟨congrArg (Except.map fun _ => none) hResult, hAfter⟩

theorem answers (h : Lockstep R) (hR : R m n) (calls : List Call) :
    m.answers calls = n.answers calls ∧ R (m.afterCalls calls) (n.afterCalls calls) := by
  induction calls generalizing m n with
  | nil => exact ⟨rfl, hR⟩
  | cons c calls ih =>
    obtain ⟨hResult, hAfter⟩ := h.call hR c
    obtain ⟨hRest, hLeft⟩ := ih hAfter
    refine ⟨?_, hLeft⟩
    rw [Machine.answers, Machine.answers, hResult, hRest]

theorem frames (h : Lockstep R) (hR : R m n) (k : Nat) :
    (m.frames k).1 = (n.frames k).1 ∧ R (m.frames k).2 (n.frames k).2 := by
  induction k generalizing m n with
  | zero => exact ⟨rfl, hR⟩
  | succ k ih =>
    obtain ⟨hResult, hAfter⟩ := h.ticksToVBlank hR m.display.cyclesToVBlank
    rw [Machine.frames, Machine.frames, nextFrame, nextFrame, ← h.display hR]
    rcases hFrame : m.ticksToVBlank m.display.cyclesToVBlank with ⟨e | ⟨⟩, m₁⟩
    all_goals
      rcases hOther : n.ticksToVBlank m.display.cyclesToVBlank with ⟨result, n₁⟩
      rw [hFrame, hOther] at hResult hAfter
      obtain rfl := hResult
    · exact ⟨rfl, hAfter⟩
    · exact ih hAfter

end Lockstep

theorem lockstep_map {f : M → N} (h : OnBus.Hom f) :
    Lockstep fun (m : Machine M) n => n = m.map f where
  display := by
    rintro m n rfl
    rfl
  tick := by
    rintro m n rfl
    rw [tick_map h]
    exact ⟨rfl, rfl⟩

end

end Machine

namespace Bus

theorem hom_setReportsRomWrites (report : Bool) :
    Memory.Hom (fun b : Bus => b.setReportsRomWrites report) where
  read _ _ := rfl
  write b a v := by
    change (b.setReportsRomWrites report).write a v = (b.write a v).setReportsRomWrites report
    simp only [write, setReportsRomWrites]
    split
    next => rfl
    next =>
      split
      next => rfl
      next =>
        split
        next => rfl
        next => split <;> simp only
  note _ _ := rfl

end Bus

theorem Timer.advance_setReportsRomWrites (t : Timer) (b : Bus) (report : Bool) (cycles : Nat) :
    t.advance (b.setReportsRomWrites report) cycles =
      ((t.advance b cycles).1, (t.advance b cycles).2.setReportsRomWrites report) := by
  have hTicks (t : Timer) (b : Bus) (n : Nat) :
      t.ticks (b.setReportsRomWrites report) n =
        ((t.ticks b n).1, (t.ticks b n).2.setReportsRomWrites report) := by
    induction n with
    | zero => rfl
    | succ n ih =>
      rw [ticks_succ, ticks_succ, ih, tick_eq, tick_eq]
      rfl
  rw [advance_eq, advance_eq]
  exact hTicks _ b.clearDividerReset cycles

theorem Display.InPhase.advance_setReportsRomWrites {d : Display} (h : d.InPhase) (b : Bus)
    (report : Bool) (cycles : Nat) :
    d.advance (b.setReportsRomWrites report) cycles =
      (d.advance b cycles).map (·.setReportsRomWrites report) := by
  rw [h.advance_eq, h.advance_eq]
  rfl

namespace Machine

variable {m : Machine Bus} {c : Nat}

/-- The same machine with other options and another choice on the bus of what to report. -/
def retold (m : Machine Bus) (options : Options) (report : Bool) : Machine Bus :=
  { m with core := m.core.map (·.setReportsRomWrites report), options := options }

theorem advanceDevices_retold (hDisplay : m.display.InPhase) (options : Options) (report : Bool)
    (c : Nat) :
    (m.retold options report).advanceDevices c =
      ((m.advanceDevices c).1, (m.advanceDevices c).2.retold options report) := by
  simp only [advanceDevices, retold, Core.map, Timer.advance_setReportsRomWrites,
    hDisplay.advance_setReportsRomWrites]
  rfl

theorem tick_retold (hDisplay : m.display.InPhase) (options : Options) (report : Bool) :
    (m.retold options report).tick = (m.tick.1, m.tick.2.retold options report) := by
  have hStep := Core.step_map (Bus.hom_setReportsRomWrites report) m.core
  have hAnnounced (n : Machine Bus) {result : Except DecodeError Nat × Core Bus}
      (h : n.core.step = result) : n.announce.core.step = result := by
    rw [announce_eq, h]
  rcases hCore : m.core.step with ⟨e | c, core⟩
  · rw [hCore] at hStep
    rw [tick_eq_self hCore, tick_eq_self (m := m.retold options report) hStep]
  · rw [hCore] at hStep
    rw [tick_of_ok (hAnnounced m hCore), tick_of_ok (hAnnounced (m.retold options report) hStep),
      announce_eq, announce_eq]
    have hDevices := advanceDevices_retold (m := m.stepped core) hDisplay options report c
    exact congrArg (fun r => (Except.ok (Tick.mk c r.1), r.2)) hDevices

theorem lockstep_retold (options : Options) (report : Bool) :
    Lockstep fun (m : Machine Bus) n => m.Consistent ∧ n = m.retold options report where
  display := by
    rintro m n ⟨-, rfl⟩
    rfl
  tick := by
    rintro m n ⟨hConsistent, rfl⟩
    rw [tick_retold hConsistent.display.inPhase]
    exact ⟨rfl, hConsistent.tick, rfl⟩

end Machine

namespace Header

theorem getD_take (image : List UInt8) {i : Nat} (h : i < 0x8000) :
    (image.take 0x8000).getD i 0 = image.getD i 0 := by
  rw [List.getD_eq_getElem?_getD, List.getD_eq_getElem?_getD, List.getElem?_take_of_lt h]

/-- A field that ends within the mapped part of the image. -/
theorem field_take (image : List UInt8) (start size : Nat) (h : start + size ≤ 0x8000) :
    ((image.take 0x8000).drop start).take size = (image.drop start).take size := by
  rw [List.drop_take, List.take_take, Nat.min_eq_left (by omega)]

theorem ofImage_take (image : List UInt8) : ofImage (image.take 0x8000) = ofImage image := by
  have hTitle := field_take image titleStart titleSize (by decide)
  rw [ofImage, ofImage, titleOf, titleOf, hTitle, getD_take, getD_take, getD_take, getD_take]
  all_goals decide

theorem checksumOf_take (image : List UInt8) :
    checksumOf (image.take 0x8000) = checksumOf image := by
  have hCovered := field_take image titleStart (checksumAt - titleStart) (by decide)
  rw [checksumOf, checksumOf, hCovered]

end Header

theorem Bus.ofImage_take (image : List UInt8) : ofImage (image.take 0x8000) = ofImage image := by
  rw [ofImage, ofImage, List.take_take, Nat.min_self]

theorem Cartridge.ofImage_of_le {image : List UInt8} (h : 0x8000 ≤ image.length) :
    Cartridge.ofImage image =
      if (Header.ofImage image).checksum = Header.checksumOf image then
        .ok ⟨Header.ofImage image, image⟩
      else .error (.checksumMismatch (Header.ofImage image).checksum (Header.checksumOf image)) :=
  if_neg (Nat.not_lt.mpr h)

namespace Machine

variable {image₁ image₂ : List UInt8}

theorem ofImage_retold (image : List UInt8) (options₁ options₂ : Options) :
    ofImage image options₂ =
      (ofImage image options₁).map (·.retold options₂ options₂.reportRomWrites) := by
  rw [ofImage, ofImage]
  cases Cartridge.ofImage image with
  | error e => rfl
  | ok c => rfl

theorem ofImage_of_take (h₁ : 0x8000 ≤ image₁.length) (h₂ : 0x8000 ≤ image₂.length)
    (hMapped : image₁.take 0x8000 = image₂.take 0x8000) (options₁ options₂ : Options) :
    ofImage image₂ options₂ =
      (ofImage image₁ options₁).map (·.retold options₂ options₂.reportRomWrites) := by
  have hHeader : Header.ofImage image₂ = Header.ofImage image₁ := by
    rw [← Header.ofImage_take image₁, hMapped, Header.ofImage_take]
  have hChecksum : Header.checksumOf image₂ = Header.checksumOf image₁ := by
    rw [← Header.checksumOf_take image₁, hMapped, Header.checksumOf_take]
  have hBus : Bus.ofImage image₂ = Bus.ofImage image₁ := by
    rw [← Bus.ofImage_take image₁, hMapped, Bus.ofImage_take]
  rw [ofImage, ofImage, Cartridge.ofImage_of_le h₁, Cartridge.ofImage_of_le h₂, hHeader, hChecksum]
  split
  next =>
    change Except.ok (powerOn _ _ ((Bus.ofImage image₂).setReportsRomWrites _)) = _
    rw [hBus]
    rfl
  next => rfl

/-- The same to software and to the caller, whatever was told on the way. -/
structure Alike (m n : Machine (Observed Bus)) : Prop where
  cpu : m.core.cpu = n.core.cpu
  read : ∀ a, m.core.read a = n.core.read a
  dividerReset : m.core.memory.memory.dividerReset = n.core.memory.memory.dividerReset
  display : m.display = n.display
  timer : m.timer = n.timer
  header : m.header = n.header
  cycles : m.cycles = n.cycles
  recent : m.trail.toList = n.trail.toList

theorem alike_of_retold {m n : Machine (Observed Bus)} {options : Options} {report : Bool}
    (h : n.map Observed.memory = (m.map Observed.memory).retold options report) : m.Alike n where
  cpu := (congrArg (·.core.cpu) h).symm
  read a := (congrArg (·.core.read a) h).symm
  dividerReset := (congrArg (·.core.memory.dividerReset) h).symm
  display := (congrArg (·.display) h).symm
  timer := (congrArg (·.timer) h).symm
  header := (congrArg (·.header) h).symm
  cycles := (congrArg (·.cycles) h).symm
  recent := (congrArg (·.trail.toList) h).symm

theorem answers_observe (m : Machine Bus) (calls : List Call) :
    m.observe.answers calls = m.answers calls ∧
      m.afterCalls calls = (m.observe.afterCalls calls).map Observed.memory :=
  (lockstep_map hom_memory).answers (m := m.observe) (n := m) rfl calls

/-- Watching a frame leaves it as it is. -/
theorem nextFrame_observe (m : Machine Bus) :
    m.nextFrame = (m.observe.nextFrame.1, m.observe.nextFrame.2.unobserve) := by
  obtain ⟨hResult, hAfter⟩ := (lockstep_map hom_memory).ticksToVBlank (m := m.observe) (n := m) rfl
    m.display.cyclesToVBlank
  exact Prod.ext hResult.symm hAfter

/-- Images that agree where they are mapped are accepted or rejected alike, and run alike under any
options: the same calls return the same and leave machines that differ in nothing but the events. -/
theorem runs_of_mapped (h₁ : 0x8000 ≤ image₁.length) (h₂ : 0x8000 ≤ image₂.length)
    (hMapped : image₁.take 0x8000 = image₂.take 0x8000) (options₁ options₂ : Options) :
    (∃ e, ofImage image₁ options₁ = .error e ∧ ofImage image₂ options₂ = .error e) ∨
      ∃ m₁ m₂, ofImage image₁ options₁ = .ok m₁ ∧ ofImage image₂ options₂ = .ok m₂ ∧
        ∀ calls, m₁.observe.answers calls = m₂.observe.answers calls ∧
          (m₁.observe.afterCalls calls).Alike (m₂.observe.afterCalls calls) := by
  have hSecond := ofImage_of_take h₁ h₂ hMapped options₁ options₂
  cases hFirst : ofImage image₁ options₁ with
  | error e =>
    rw [hFirst] at hSecond
    exact .inl ⟨e, rfl, hSecond⟩
  | ok m =>
    rw [hFirst] at hSecond
    refine .inr ⟨m, _, rfl, hSecond, fun calls => ?_⟩
    have hConsistent : m.Consistent := (Reachable.powerOn hFirst).consistent
    obtain ⟨hAnswers, -, hAfter⟩ :=
      (lockstep_retold options₂ options₂.reportRomWrites).answers ⟨hConsistent, rfl⟩ calls
    obtain ⟨hPlain₁, hLeft₁⟩ := m.answers_observe calls
    obtain ⟨hPlain₂, hLeft₂⟩ :=
      (m.retold options₂ options₂.reportRomWrites).answers_observe calls
    constructor
    · rw [hPlain₁, hPlain₂, hAnswers]
    · rw [hLeft₁, hLeft₂] at hAfter
      exact alike_of_retold hAfter

/-- Writes to the cartridge. -/
def discardCode : List UInt8 :=
  [0xEA, 0x00, 0x10]

theorem runs_of_mapped_discardCode :
    ∃ m₁ m₂, ofImage (programmed discardCode) ⟨true, true⟩ = .ok m₁ ∧
      ofImage (programmed discardCode ++ [0x12, 0x34]) ⟨false, false⟩ = .ok m₂ ∧
      m₁.observe.answers [.step, .nextFrame] = m₂.observe.answers [.step, .nextFrame] ∧
      (m₁.observe.afterCalls [.step, .nextFrame]).Alike
        (m₂.observe.afterCalls [.step, .nextFrame]) := by
  have hLength : (programmed discardCode).length = 0x8000 := length_programmed (by decide)
  have hLonger : 0x8000 ≤ (programmed discardCode ++ [0x12, 0x34]).length := by
    rw [List.length_append, hLength]
    decide
  have hMapped : (programmed discardCode).take 0x8000 =
      (programmed discardCode ++ [0x12, 0x34]).take 0x8000 := by
    rw [List.take_append_of_le_length (Nat.le_of_eq hLength.symm)]
  have hAccepted : ofImage (programmed discardCode) ⟨true, true⟩ = .ok (programOf discardCode _) :=
    ofImage_programmed (by decide) (by decide +kernel)
  obtain ⟨e, hRejected, -⟩ | ⟨m₁, m₂, hFirst, hSecond, hRuns⟩ :=
    runs_of_mapped (Nat.le_of_eq hLength.symm) hLonger hMapped ⟨true, true⟩ ⟨false, false⟩
  · rw [hAccepted] at hRejected
    cases hRejected
  · obtain ⟨hAnswers, hAlike⟩ := hRuns [.step, .nextFrame]
    exact ⟨m₁, m₂, hFirst, hSecond, hAnswers, hAlike⟩

end Machine
end DotMatrix
