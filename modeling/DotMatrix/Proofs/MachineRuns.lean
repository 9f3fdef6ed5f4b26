import Mathlib.Algebra.Ring.Nat
import DotMatrix.Machine
import DotMatrix.Proofs.DisplayTime
import DotMatrix.Proofs.CoreStep
import DotMatrix.Proofs.TimerTicks

/-!
# Runs of the machine

A run is any number of steps that succeed. The display, the timer and the count of cycles agree
along every run from power-on, whatever the cartridge does.
-/

namespace DotMatrix.Machine

section

variable {M : Type} [OnBus M] {m : Machine M} {core : Core M}

/-- The machine after its processor took a step, with the devices still behind. -/
def stepped (m : Machine M) (core : Core M) : Machine M :=
  { m with
    core := core
    trail := if m.core.cpu.activity == .running then m.trail.push m.core.cpu.regs.pc else m.trail }

theorem tick_of_ok {c : Nat} (h : m.announce.core.step = (.ok c, core)) :
    m.tick = (.ok ⟨c, ((m.announce.stepped core).advanceDevices c).1⟩,
      ((m.announce.stepped core).advanceDevices c).2) := by
  rw [tick, h]
  rfl

theorem tick_of_error {e : DecodeError} (h : m.announce.core.step = (.error e, core)) :
    m.tick = (.error e,
      { m.announce with core := core.note (.stepFailed e m.announce.trail.toList) }) := by
  rw [tick, h]

end

variable {image : List UInt8} {options : Options}
variable {m m₁ : Machine Bus} {costs : List Nat} {c : Nat}

theorem announce_eq (m : Machine Bus) : m.announce = m := by
  unfold announce
  split
  next => split <;> rfl
  next => rfl

/-- The machine after its processor took a step of `c` cycles. -/
def settle (m : Machine Bus) (core : Core Bus) (c : Nat) : Machine Bus :=
  ((m.stepped core).advanceDevices c).2

theorem tick_eq_settle {core : Core Bus} (h : m.core.step = (.ok c, core)) :
    m.tick = (.ok ⟨c, (m.display.advance (m.timer.advance core.memory c).2 c).enteredVBlank⟩,
      m.settle core c) := by
  rw [← announce_eq m] at h
  have hTick := tick_of_ok h
  rw [announce_eq] at hTick
  exact hTick

theorem tick_eq_self {core : Core Bus} {e : DecodeError} (h : m.core.step = (.error e, core)) :
    m.tick = (.error e, m) := by
  obtain ⟨rfl, -⟩ := Core.step_error h
  rw [← announce_eq m] at h
  have hTick := tick_of_error h
  rw [announce_eq] at hTick
  exact hTick

/-- What a step of the machine can be. -/
theorem tick_cases (m : Machine Bus) :
    (∃ core c, m.core.step = (.ok c, core) ∧ m.tick = (.ok ⟨c, (m.display.advance
        (m.timer.advance core.memory c).2 c).enteredVBlank⟩, m.settle core c)) ∨
    (∃ e, m.core.step = (.error e, m.core) ∧ m.tick = (.error e, m)) := by
  rcases hStep : m.core.step with ⟨e | c, core⟩
  · obtain ⟨rfl, -⟩ := Core.step_error hStep
    exact .inr ⟨e, rfl, tick_eq_self hStep⟩
  · exact .inl ⟨core, c, rfl, tick_eq_settle hStep⟩

theorem step_eq (m : Machine Bus) : m.step = (m.tick.1.map (·.cycles), m.tick.2) := rfl

/-- Steps that succeed, with what each of them costs. -/
inductive Run : Machine Bus → List Nat → Machine Bus → Prop where
  | nil (m : Machine Bus) : Run m [] m
  | cons {m m₁ m₂ : Machine Bus} {c : Nat} {costs : List Nat} :
      m.step = (.ok c, m₁) → Run m₁ costs m₂ → Run m (c :: costs) m₂

/-- The machines that come from power-on by steps, failing ones included. -/
inductive Reachable (image : List UInt8) (options : Options) : Machine Bus → Prop where
  | powerOn {m : Machine Bus} : ofImage image options = .ok m → Reachable image options m
  | step {m : Machine Bus} : Reachable image options m → Reachable image options m.step.2

structure Consistent (m : Machine Bus) : Prop where
  display : m.display.InRange
  timer : m.timer.InRange
  position : m.display.position = 4 * m.cycles % 70224

theorem ofImage_eq_ok (h : ofImage image options = .ok m) :
    ∃ c, Cartridge.ofImage image = .ok c ∧ m = powerOn c.header options (busOf c options) := by
  unfold ofImage at h
  cases hCartridge : Cartridge.ofImage image with
  | error e =>
    rw [hCartridge] at h
    cases h
  | ok c =>
    rw [hCartridge] at h
    cases h
    exact ⟨c, rfl, rfl⟩

theorem header_of_ofImage (h : ofImage image options = .ok m) :
    m.header = Header.ofImage image := by
  obtain ⟨c, hCartridge, rfl⟩ := ofImage_eq_ok h
  obtain ⟨-, rfl⟩ := Cartridge.accepted_of_ofImage hCartridge
  rfl

theorem powerOn_consistent (header : Header) (options : Options) (b : Bus) :
    (powerOn header options b).Consistent :=
  ⟨Display.powerOn_inRange, Timer.powerOn_inRange, rfl⟩

theorem Consistent.settle (h : m.Consistent) (core : Core Bus) (c : Nat) :
    (m.settle core c).Consistent := by
  refine ⟨h.display.advance _ c, h.timer.advance _ c, ?_⟩
  change (m.display.advance _ c).display.position = 4 * (m.cycles + c) % 70224
  rw [h.display.position_advance, h.position, Nat.mod_add_mod, Nat.mul_add]

theorem Consistent.tick (h : m.Consistent) : m.tick.2.Consistent := by
  rcases m.tick_cases with ⟨core, c, -, hTick⟩ | ⟨e, -, hTick⟩
  · rw [hTick]
    exact h.settle core c
  · rw [hTick]
    exact h

theorem Reachable.consistent (h : Reachable image options m) : m.Consistent := by
  induction h with
  | powerOn hImage =>
    obtain ⟨c, -, rfl⟩ := ofImage_eq_ok hImage
    exact powerOn_consistent c.header options _
  | step _ ih => exact ih.tick

theorem step_ok (h : m.step = (.ok c, m₁)) :
    ∃ core, m.core.step = (.ok c, core) ∧ m₁ = m.settle core c := by
  rw [step_eq] at h
  rcases m.tick_cases with ⟨core, c', hCore, hTick⟩ | ⟨e, -, hTick⟩
  · rw [hTick] at h
    cases h
    exact ⟨core, hCore, rfl⟩
  · rw [hTick] at h
    cases h

theorem Run.reachable (h : Run m costs m₁)
    (hReach : Reachable image options m) : Reachable image options m₁ := by
  induction h with
  | nil => exact hReach
  | cons hStep _ ih => exact ih (by simpa only [hStep] using hReach.step)

theorem Run.cycles_eq (h : Run m costs m₁) : m₁.cycles = m.cycles + costs.sum := by
  induction h with
  | nil => rfl
  | cons hStep _ ih =>
    obtain ⟨core, -, rfl⟩ := step_ok hStep
    rw [ih, List.sum_cons, ← Nat.add_assoc]
    rfl

theorem Run.header_eq (h : Run m costs m₁) : m₁.header = m.header := by
  induction h with
  | nil => rfl
  | cons hStep _ ih =>
    obtain ⟨core, -, rfl⟩ := step_ok hStep
    exact ih

theorem Run.cycles_from_powerOn (hImage : ofImage image options = .ok m) (h : Run m costs m₁) :
    m₁.cycles = costs.sum := by
  obtain ⟨c, -, rfl⟩ := ofImage_eq_ok hImage
  exact h.cycles_eq.trans (Nat.zero_add _)

end DotMatrix.Machine
