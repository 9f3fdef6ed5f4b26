import DotMatrix.Proofs.CoreStores
import DotMatrix.Proofs.DisplayRequests
import DotMatrix.Proofs.MachineRuns
import DotMatrix.Proofs.TimerCounts

/-!
# Interrupt requests

Processor, timer and display change the interrupt flags one after the other within a step. Each of
them keeps the bits that it has nothing to say about, so a step drops the one request that it serves
and adds those that the devices make while it takes its time.
-/

namespace DotMatrix

theorem Byte.bit_and_not (a b : UInt8) (i : Nat) : bit (a &&& ~~~b) i = (bit a i && !bit b i) := by
  rw [bit_and]
  by_cases hi : i < 8
  · rw [bit_not _ hi]
  · rw [bit_of_le a (by omega), Bool.false_and, Bool.false_and]

theorem Interrupt.index_lt (j : Interrupt) : j.index < 5 := by
  cases j <;> decide

theorem Interrupt.index_inj {i j : Interrupt} : i.index = j.index ↔ i = j := by
  constructor
  · intro h
    cases i <;> cases j <;> first | rfl | exact absurd h (by decide)
  · rintro rfl
    rfl

theorem Interrupt.bit_mask (j : Interrupt) (i : Nat) :
    Byte.bit j.mask i = decide (i = j.index) := by
  by_cases hi : i < 8
  · have hAll (i : Fin 8) : Byte.bit j.mask i = decide (i.val = j.index) := by
      revert i
      cases j <;> decide
    exact hAll ⟨i, hi⟩
  · have hIndex := j.index_lt
    rw [Byte.bit_of_le _ (by omega), decide_eq_false (by omega)]

theorem Interrupt.bit_of_highestPriority? {bits : UInt8} {i : Interrupt}
    (h : highestPriority? bits = some i) : Byte.bit bits i.index = true := by
  rw [highestPriority?] at h
  have hBit := List.find?_some h
  exact hBit

theorem Work.bit_served (w : Work) (i : Nat) :
    Byte.bit w.served i = true ↔ ∃ j, w = .dispatch j ∧ i = j.index := by
  cases w with
  | idle => simp [served, Byte.bit]
  | execute j => simp [served, Byte.bit]
  | dispatch j => simp [served, Interrupt.bit_mask]

namespace Timer

variable (t : Timer) (b : Bus)

/-- The counter is stepped past its last value while the cycles pass. -/
def OverflowsWithin (cycles : Nat) : Prop :=
  ∃ k < cycles, (t.advance b k).1.overflows (t.advance b k).2 = true

theorem advance_succ (n : Nat) :
    t.advance b (n + 1) = (t.advance b n).1.tick (t.advance b n).2 := by
  rw [advance_eq, advance_eq, ticks_succ]

theorem overflowsWithin_succ (n : Nat) :
    t.OverflowsWithin b (n + 1) ↔
      t.OverflowsWithin b n ∨ (t.advance b n).1.overflows (t.advance b n).2 = true := by
  simp only [OverflowsWithin, Nat.exists_lt_succ_right]

theorem bit_flags_advance (cycles i : Nat) :
    Byte.bit ((t.advance b cycles).2.store.get Address.interruptFlags) i = true ↔
      Byte.bit (b.store.get Address.interruptFlags) i = true ∨
        (i = 2 ∧ t.OverflowsWithin b cycles) := by
  induction cycles with
  | zero =>
    have hStore : b.clearDividerReset.store = b.store := rfl
    rw [advance_eq]
    simp [OverflowsWithin, ticks, hStore]
  | succ n ih =>
    rw [advance_succ, flags_tick, Byte.bit_or, Bool.or_eq_true, ih, bit_requestIf, Bool.and_eq_true,
      decide_eq_true_iff, overflowsWithin_succ, and_or_left, or_assoc, and_comm (b := i = 2)]

theorem get_advance_of_ne (cycles : Nat) {a : UInt16} (hDivider : a ≠ Address.divider)
    (hCounter : a ≠ Address.timerCounter) (hFlags : a ≠ Address.interruptFlags) :
    (t.advance b cycles).2.store.get a = b.store.get a := by
  rw [advance_eq, get_ticks_of_ne _ _ hDivider hCounter hFlags]
  rfl

end Timer

namespace Display

theorem bit_requests (rising blank : Bool) (i : Nat) :
    Byte.bit (requests rising blank) i = true ↔
      (i = 1 ∧ rising = true) ∨ (i = 0 ∧ blank = true) := by
  match i with
  | 0 => simp [bit_requests_vblank]
  | 1 => simp [bit_requests_lcd]
  | i + 2 => simp [bit_requests_of_le]

/-- The combined interrupt rises while the cycles pass. -/
def RisesWithin (d : Display) (b : Bus) (cycles : Nat) : Prop :=
  (false, true) ∈ successive d.raised
    ((d.shown :: d.entered (4 * cycles)).map
      (level (Memory.read b Address.lcdYCompare) (Memory.read b Address.lcdStatus)))

theorem InPhase.bit_flags_advance {d : Display} (h : d.InPhase) (b : Bus) (cycles i : Nat) :
    Byte.bit ((d.advance b cycles).memory.store.get Address.interruptFlags) i = true ↔
      Byte.bit (b.store.get Address.interruptFlags) i = true ∨
        (i = 1 ∧ d.RisesWithin b cycles) ∨ (i = 0 ∧ d.EntersVBlank (4 * cycles)) := by
  rw [h.advance_eq, Bus.get_withStatus, if_neg (by decide), if_neg (by decide),
    Bus.get_addRequests, if_pos rfl, Byte.bit_or, Bool.or_eq_true, bit_requests,
    rises_eq_true_iff, decide_eq_true_iff]
  rfl

theorem InPhase.get_advance_of_ne {d : Display} (h : d.InPhase) (b : Bus) (cycles : Nat)
    {a : UInt16} (hLine : a ≠ Address.lcdY) (hStatus : a ≠ Address.lcdStatus)
    (hFlags : a ≠ Address.interruptFlags) :
    (d.advance b cycles).memory.store.get a = b.store.get a := by
  rw [h.advance_eq, Bus.get_withStatus, if_neg hStatus.symm, if_neg hLine.symm,
    Bus.get_addRequests_of_ne _ _ hFlags]

end Display
namespace Machine

variable {m m₁ : Machine Bus} {c : Nat} {w : Work}

/-- The devices request the interrupt in the cycles of a step, on the bus the processor left. -/
def Requests (m : Machine Bus) (left : Bus) (cycles : Nat) : Interrupt → Prop
  | .timer => m.timer.OverflowsWithin left cycles
  | .lcd => m.display.RisesWithin left cycles
  | .vblank => m.display.EntersVBlank (4 * cycles)
  | .serial => False
  | .joypad => False

theorem step_settle (hStep : m.step = (.ok c, m₁)) (hWork : m.core.work = .ok w) :
    m₁.core.memory = (m.display.advance
      (m.timer.advance (m.core.perform w).2.memory c).2 c).memory := by
  obtain ⟨core, hCore, rfl⟩ := step_ok hStep
  rw [Core.perform_of_step hWork hCore]
  rfl

theorem step_of_work (h : m.core.work = .ok w) :
    m.step = (.ok (m.core.perform w).1,
      m.settle (m.core.perform w).2 (m.core.perform w).1) := by
  rw [step_eq, tick_eq_settle (Core.step_eq_ok_iff.mpr ⟨w, h, rfl⟩)]
  rfl

theorem step_of_work_error {e : DecodeError} (h : m.core.work = .error e) :
    m.step = (.error { e with registers := some m.core.cpu.regs }, m) := by
  have hCore : m.core.step = (.error { e with registers := some m.core.cpu.regs }, m.core) := by
    rw [Core.step_eq, h]
  rw [step_eq, tick_eq_self hCore]
  rfl

theorem memory_settle (m : Machine Bus) (core : Core Bus) (c : Nat) :
    (m.settle core c).core.memory =
      (m.display.advance (m.timer.advance core.memory c).2 c).memory := rfl

/-- The bytes that the devices write. -/
def deviceBytes : List UInt16 :=
  [Address.divider, Address.timerCounter, Address.lcdY, Address.lcdStatus, Address.interruptFlags]

theorem read_settle_of_ne (hDisplay : m.display.InPhase) (core : Core Bus) (c : Nat)
    {a : UInt16} (h : a ∉ deviceBytes) : (m.settle core c).core.read a = core.read a := by
  simp only [deviceBytes, List.mem_cons, List.not_mem_nil, or_false, not_or] at h
  obtain ⟨hDivider, hCounter, hLine, hStatus, hFlags⟩ := h
  have hTimer := m.timer.get_advance_of_ne core.memory c hDivider hCounter hFlags
  have hDevices := hDisplay.get_advance_of_ne (m.timer.advance core.memory c).2 c hLine hStatus
    hFlags
  rw [hTimer, ← memory_settle] at hDevices
  exact hDevices

/-- The timer changes nothing that the level of the display interrupt depends on. -/
theorem risesWithin_timer (m : Machine Bus) (left : Bus) (c : Nat) :
    m.display.RisesWithin (m.timer.advance left c).2 c ↔ m.display.RisesWithin left c := by
  have hCompared : Memory.read (m.timer.advance left c).2 Address.lcdYCompare =
      Memory.read left Address.lcdYCompare :=
    m.timer.get_advance_of_ne left c (by decide) (by decide) (by decide)
  have hStatus : Memory.read (m.timer.advance left c).2 Address.lcdStatus =
      Memory.read left Address.lcdStatus :=
    m.timer.get_advance_of_ne left c (by decide) (by decide) (by decide)
  rw [Display.RisesWithin, hCompared, hStatus]
  rfl

theorem bit_flags_step (hDisplay : m.display.InPhase) (hStep : m.step = (.ok c, m₁))
    (hWork : m.core.work = .ok w)
    (hStores : ∀ p ∈ m.core.stores w, p.1 ≠ Address.interruptFlags) (i : Nat) :
    Byte.bit (Memory.read m₁.core.memory Address.interruptFlags) i = true ↔
      (Byte.bit (Memory.read m.core.memory Address.interruptFlags) i = true ∧
          ¬ ∃ j, w = .dispatch j ∧ i = j.index) ∨
        ∃ j, i = j.index ∧ m.Requests (m.core.perform w).2.memory c j := by
  have hFlags := hDisplay.bit_flags_advance (m.timer.advance (m.core.perform w).2.memory c).2 c i
  rw [Timer.bit_flags_advance, Core.flags_perform hStores, Byte.bit_and_not, Bool.and_eq_true,
    Bool.not_eq_true', ← Bool.not_eq_true, Work.bit_served, risesWithin_timer, or_assoc] at hFlags
  rw [step_settle hStep hWork]
  refine hFlags.trans (or_congr_right ?_)
  constructor
  · rintro (⟨rfl, hTimer⟩ | ⟨rfl, hLcd⟩ | ⟨rfl, hBlank⟩)
    · exact ⟨.timer, rfl, hTimer⟩
    · exact ⟨.lcd, rfl, hLcd⟩
    · exact ⟨.vblank, rfl, hBlank⟩
  · rintro ⟨j, rfl, hRequests⟩
    cases j with
    | timer => exact .inl ⟨rfl, hRequests⟩
    | lcd => exact .inr (.inl ⟨rfl, hRequests⟩)
    | vblank => exact .inr (.inr ⟨rfl, hRequests⟩)
    | serial => exact hRequests.elim
    | joypad => exact hRequests.elim

theorem pending_of_dispatch {s : Core Bus} {j : Interrupt} (h : s.work = .ok (.dispatch j)) :
    Byte.bit (Memory.pending s.memory) j.index = true := by
  obtain ⟨-, hSome⟩ := Core.dispatchable_of_work h
  exact Interrupt.bit_of_highestPriority? hSome

theorem bit_pending (b : Bus) (j : Interrupt) :
    Byte.bit (Memory.pending b) j.index = true ↔
      Byte.bit (Memory.read b Address.interruptFlags) j.index = true ∧
        Byte.bit (Memory.read b Address.interruptEnable) j.index = true := by
  have hSources : Byte.bit 0x1F j.index = true := by cases j <;> decide
  rw [Memory.pending, Byte.bit_and, Byte.bit_and, hSources, Bool.and_true, Bool.and_eq_true]

theorem pending_ne_zero {b : Bus} {j : Interrupt}
    (hRequested : Byte.bit (Memory.read b Address.interruptFlags) j.index = true)
    (hEnabled : Byte.bit (Memory.read b Address.interruptEnable) j.index = true) :
    Memory.pending b ≠ 0 := by
  intro hNone
  have hBit := (bit_pending b j).mpr ⟨hRequested, hEnabled⟩
  rw [hNone, Byte.bit_of_lt (k := 0) (by decide) (Nat.zero_le _)] at hBit
  cases hBit

theorem enable_step (hDisplay : m.display.InPhase) (hStep : m.step = (.ok c, m₁))
    (hWork : m.core.work = .ok w)
    (hStores : ∀ p ∈ m.core.stores w, p.1 ≠ Address.interruptEnable) :
    Memory.read m₁.core.memory Address.interruptEnable =
      Memory.read m.core.memory Address.interruptEnable := by
  have hKept := read_settle_of_ne hDisplay (m.core.perform w).2 (m.core.perform w).1
    (a := Address.interruptEnable) (by decide)
  rw [step_of_work hWork] at hStep
  cases hStep
  exact hKept.trans (Core.get_perform_of_ne hStores (by decide) (by decide))

/-- A machine that is about to serve the timer, one cycle before the counter overflows again. -/
def servingTimer : Machine Bus where
  core :=
    { cpu := { Cpu.powerOn with interrupts := ⟨true, false⟩ }
      memory :=
        { Bus.empty with
          store :=
            (((Store.zero.set Address.interruptFlags 4).set Address.interruptEnable 4).set
              Address.timerControl 5).set Address.timerCounter 0xFF } }
  display := Display.powerOn
  timer := ⟨0, 3⟩
  header := Header.ofImage []
  options := .default
  trail := Trail.empty
  cycles := 0

theorem work_servingTimer : servingTimer.core.work = .ok (.dispatch .timer) := by
  have hPending : Memory.pending servingTimer.core.memory = 4 := by
    simp only [servingTimer, Memory.pending, Memory.read, Store.get_set]
    decide +kernel
  have hSome : servingTimer.core.dispatchable? = some .timer := by
    rw [Core.dispatchable?, hPending]
    rfl
  rw [Core.work, hSome]
  rfl

theorem step_servingTimer : ∃ m, servingTimer.step = (.ok 5, m) := by
  have hCore := Core.step_eq_ok_iff.mpr ⟨_, work_servingTimer, rfl⟩
  rw [step_eq, tick_eq_settle hCore]
  exact ⟨_, rfl⟩

theorem stores_servingTimer {a : UInt16} (hHigh : a ≠ 0xFFFD) (hLow : a ≠ 0xFFFC) :
    ∀ p ∈ servingTimer.core.stores (.dispatch .timer), p.1 ≠ a := by
  have hPushed : servingTimer.core.stores (.dispatch .timer) = [(0xFFFD, 0x01), (0xFFFC, 0x00)] :=
    rfl
  rw [hPushed]
  simp [hHigh.symm, hLow.symm]

theorem requests_servingTimer :
    servingTimer.Requests (servingTimer.core.perform (.dispatch .timer)).2.memory 5 .timer := by
  have hControl : servingTimer.core.memory.store.get Address.timerControl = 5 := by
    simp only [servingTimer, Store.get_set]
    decide
  have hCounter : servingTimer.core.memory.store.get Address.timerCounter = 0xFF := by
    simp only [servingTimer, Store.get_set]
    decide
  rw [← Core.get_perform_of_ne (stores_servingTimer (by decide) (by decide)) (by decide)
    (by decide)] at hControl hCounter
  have hReset : (servingTimer.core.perform (.dispatch .timer)).2.memory.dividerReset = false :=
    rfl
  have hOverflows (b : Bus) (hControl : b.store.get Address.timerControl = 5)
      (hCounter : b.store.get Address.timerCounter = 0xFF) :
      Timer.overflows ⟨0, 3⟩ b.clearDividerReset = true := by
    have hStore : b.clearDividerReset.store = b.store := rfl
    rw [Timer.overflows, Timer.counterDue, hStore, hControl, hCounter]
    decide
  refine ⟨0, by decide, ?_⟩
  rw [Timer.advance_eq, hReset]
  exact hOverflows _ hControl hCounter

/-- The requests behind a step that does not store to the interrupt flags are those before it, less
the one that it serves, and those that the devices make. A source that is served and requests again
in the same step stays requested. -/
theorem step_requests (hDisplay : m.display.InPhase) (hStep : m.step = (.ok c, m₁))
    (hWork : m.core.work = .ok w)
    (hStores : ∀ p ∈ m.core.stores w, p.1 ≠ Address.interruptFlags) :
    let left := (m.core.perform w).2.memory
    let flags := Memory.read m.core.memory Address.interruptFlags
    let flags₁ := Memory.read m₁.core.memory Address.interruptFlags
    (∀ j : Interrupt, Byte.bit flags₁ j.index = true ↔
      (Byte.bit flags j.index = true ∧ w ≠ .dispatch j) ∨ m.Requests left c j) ∧
    (∀ i, 5 ≤ i → Byte.bit flags₁ i = Byte.bit flags i) ∧
    (∀ j, w = .dispatch j → Byte.bit flags j.index = true ∧
      (m.Requests left c j → Byte.bit flags₁ j.index = true ∧
        ((∀ p ∈ m.core.stores w, p.1 ≠ Address.interruptEnable) →
          Byte.bit (Memory.pending m₁.core.memory) j.index = true))) := by
  intro left flags flags₁
  have hBit (i : Nat) := bit_flags_step hDisplay hStep hWork hStores i
  have hSource (j : Interrupt) : Byte.bit flags₁ j.index = true ↔
      (Byte.bit flags j.index = true ∧ w ≠ .dispatch j) ∨ m.Requests left c j := by
    simpa only [Interrupt.index_inj, exists_eq_right', exists_eq_left'] using hBit j.index
  refine ⟨hSource, ?_, ?_⟩
  · intro i hi
    have hNone (j : Interrupt) : i ≠ j.index := by
      have := j.index_lt
      omega
    have hServed : ¬ ∃ j, w = .dispatch j ∧ i = j.index := fun ⟨j, _, hj⟩ => hNone j hj
    have hRequested : ¬ ∃ j, i = j.index ∧ m.Requests left c j := fun ⟨j, hj, _⟩ => hNone j hj
    rw [Bool.eq_iff_iff]
    exact (hBit i).trans (by rw [or_iff_left hRequested, and_iff_left hServed])
  · rintro j rfl
    have hPending := (bit_pending _ j).mp (pending_of_dispatch hWork)
    refine ⟨hPending.1, fun hRequests => ?_⟩
    have hRequested := (hSource j).mpr (.inr hRequests)
    refine ⟨hRequested, fun hEnable => ?_⟩
    rw [bit_pending, enable_step hDisplay hStep hWork hEnable]
    exact ⟨hRequested, hPending.2⟩

theorem step_requests_servingTimer :
    ∃ m₁, servingTimer.display.InPhase ∧ servingTimer.step = (.ok 5, m₁) ∧
      servingTimer.core.work = .ok (.dispatch .timer) ∧
      (∀ p ∈ servingTimer.core.stores (.dispatch .timer), p.1 ≠ Address.interruptFlags) ∧
      Byte.bit (Memory.pending m₁.core.memory) Interrupt.timer.index = true := by
  obtain ⟨m₁, hStep⟩ := step_servingTimer
  have hDisplay : servingTimer.display.InPhase := Display.powerOn_inRange.inPhase
  have hFlags := stores_servingTimer (a := Address.interruptFlags) (by decide) (by decide)
  have hEnable := stores_servingTimer (a := Address.interruptEnable) (by decide) (by decide)
  obtain ⟨-, -, hServed⟩ := step_requests hDisplay hStep work_servingTimer hFlags
  obtain ⟨-, hAgain⟩ := hServed .timer rfl
  obtain ⟨-, hPending⟩ := hAgain requests_servingTimer
  exact ⟨m₁, hDisplay, hStep, work_servingTimer, hFlags, hPending hEnable⟩

/-- Steps none of which stores to the interrupt flags, with the work of each of them. -/
inductive UndisturbedRun (m : Machine Bus) : List Work → Machine Bus → Prop where
  | nil : UndisturbedRun m [] m
  | snoc {works : List Work} {w : Work} {c : Nat} {m₁ m₂ : Machine Bus} :
      UndisturbedRun m works m₁ → m₁.step = (.ok c, m₂) → m₁.core.work = .ok w →
        (∀ p ∈ m₁.core.stores w, p.1 ≠ Address.interruptFlags) →
          UndisturbedRun m (works ++ [w]) m₂

theorem inPhase_step (hDisplay : m.display.InPhase) (hStep : m.step = (.ok c, m₁)) :
    m₁.display.InPhase := by
  obtain ⟨core, -, rfl⟩ := step_ok hStep
  have hAdvance := hDisplay.advance_eq (m.timer.advance core.memory c).2 c
  have hAfter := hDisplay.afterDots (4 * c)
  change (m.display.advance (m.timer.advance core.memory c).2 c).display.InPhase
  rw [hAdvance]
  exact ⟨hAfter.dots_lt, hAfter.vblank_iff⟩

theorem UndisturbedRun.inPhase {works : List Work} (h : UndisturbedRun m works m₁)
    (hDisplay : m.display.InPhase) : m₁.display.InPhase := by
  induction h with
  | nil => exact hDisplay
  | snoc _ hStep _ _ ih => exact inPhase_step ih hStep

/-- No request is lost before it is served. -/
theorem UndisturbedRun.requested {works : List Work} {j : Interrupt}
    (h : UndisturbedRun m works m₁) (hDisplay : m.display.InPhase)
    (hRequested : Byte.bit (Memory.read m.core.memory Address.interruptFlags) j.index = true)
    (hNotServed : .dispatch j ∉ works) :
    Byte.bit (Memory.read m₁.core.memory Address.interruptFlags) j.index = true := by
  induction h with
  | nil => exact hRequested
  | @snoc works w c m₁ m₂ hRun hStep hWork hStores ih =>
    rw [List.mem_append, List.mem_singleton, not_or] at hNotServed
    rw [bit_flags_step (hRun.inPhase hDisplay) hStep hWork hStores]
    refine .inl ⟨ih hNotServed.1, ?_⟩
    rintro ⟨i, rfl, hIndex⟩
    exact hNotServed.2 (by rw [Interrupt.index_inj.mp hIndex])

end Machine
end DotMatrix
