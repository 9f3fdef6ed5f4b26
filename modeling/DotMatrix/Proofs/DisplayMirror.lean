import DotMatrix.Proofs.Failures
import DotMatrix.Proofs.WrittenAddresses

/-!
# The display registers

Software may write over the scanline, the status and the scanline compared with, and the display
brings them up to date in the same step. Only the top bit of the status has no writer at all: it is
clear at power-on, and both writers of the status keep it.
-/

namespace DotMatrix

namespace Byte

theorem blend_and (old mask new part : UInt8) (h : part &&& mask = part) :
    blend old mask new &&& part = new &&& part := by
  apply eq_of_bit_eq
  intro i hi
  rw [bit_and, bit_and, bit_blend _ _ _ hi]
  have hPart : bit part i = true → bit mask i = true := by
    intro hBit
    rw [← h, bit_and, Bool.and_eq_true] at hBit
    exact hBit.2
  cases hBit : bit part i with
  | false => rw [Bool.and_false, Bool.and_false]
  | true => rw [hPart hBit, if_pos rfl]

end Byte

namespace Bus

/-- Mode and coincidence lie in different bits. -/
theorem mode_coincidence (p : Phase) (coincidence : Bool) :
    (p.code ||| coincidence.toUInt8 <<< 2) &&& 0x03 = p.code ∧
      Byte.bit (p.code ||| coincidence.toUInt8 <<< 2) 2 = coincidence := by
  cases p <;> cases coincidence <;> decide

theorem statusOf_and (b : Bus) (s : Phase × UInt8) : b.statusOf s &&& 0x03 = s.1.code :=
  (mode_coincidence s.1 _).1

theorem bit_statusOf (b : Bus) (s : Phase × UInt8) :
    Byte.bit (b.statusOf s) 2 = decide (s.2 = b.store.get Address.lcdYCompare) :=
  (mode_coincidence s.1 _).2

end Bus

namespace Display

/-- What software reads of the display agrees with it, and so does the combined interrupt that it
keeps. -/
structure Mirrored (d : Display) (b : Bus) : Prop where
  line : Memory.read b Address.lcdY = d.line
  mode : Memory.read b Address.lcdStatus &&& 0x03 = d.phase.code
  coincidence : Byte.bit (Memory.read b Address.lcdStatus) 2 = true ↔
    d.line = Memory.read b Address.lcdYCompare
  top_clear : Byte.bit (Memory.read b Address.lcdStatus) 7 = false
  raised : d.raised =
    (Byte.bit (Memory.read b Address.lcdStatus) 2 && Byte.bit (Memory.read b Address.lcdStatus) 6 ||
      decide (d.phase = .hblank) && Byte.bit (Memory.read b Address.lcdStatus) 3 ||
      decide (d.phase = .vblank) && Byte.bit (Memory.read b Address.lcdStatus) 4 ||
      decide (d.phase = .oamScan) && Byte.bit (Memory.read b Address.lcdStatus) 5)

theorem mirrored_withStatus (d : Display) {b : Bus}
    (hTop : Byte.bit (b.store.get Address.lcdStatus) 7 = false) :
    (d.upToDate b).Mirrored (b.withStatus d.shown) := by
  have hStatus : Memory.read (b.withStatus d.shown) Address.lcdStatus =
      Byte.blend (b.store.get Address.lcdStatus) Bus.statusDisplay (b.statusOf d.shown) :=
    (b.get_withStatus _ _).trans (if_pos rfl)
  have hCompared : Memory.read (b.withStatus d.shown) Address.lcdYCompare =
      b.store.get Address.lcdYCompare := by
    refine (b.get_withStatus _ _).trans ?_
    rw [if_neg (by decide), if_neg (by decide)]
  have hCoincidence : Byte.bit (Memory.read (b.withStatus d.shown) Address.lcdStatus) 2 =
      decide (d.line = Memory.read (b.withStatus d.shown) Address.lcdYCompare) := by
    rw [hStatus, Byte.bit_blend _ _ _ (by decide), if_pos (by decide), Bus.bit_statusOf, hCompared]
    rfl
  constructor
  case line =>
    refine (b.get_withStatus _ _).trans ?_
    rw [if_neg (by decide), if_pos rfl]
    rfl
  case mode =>
    rw [hStatus, Byte.blend_and _ _ _ _ (by decide), Bus.statusOf_and]
    rfl
  case coincidence =>
    rw [hCoincidence, decide_eq_true_iff]
    rfl
  case top_clear => rw [hStatus, Byte.bit_blend_of_clear _ _ (by decide), hTop]
  case raised =>
    rw [hCoincidence]
    exact (congrFun (levelOn_withStatus b d.shown) d.shown).symm

/-- The requests made on the way leave the status alone, and the phase entered last is shown. -/
theorem InPhase.mirrored_advance {d : Display} (h : d.InPhase) {b : Bus}
    (hTop : Byte.bit (b.store.get Address.lcdStatus) 7 = false) (cycles : Nat) :
    (d.advance b cycles).display.Mirrored (d.advance b cycles).memory := by
  let requested := b.addRequests (requests
    (rises d.raised ((d.shown :: d.entered (4 * cycles)).map (levelOn b)))
    (decide (d.EntersVBlank (4 * cycles))))
  have hRequested : Byte.bit (requested.store.get Address.lcdStatus) 7 = false := by
    rw [Bus.get_addRequests_of_ne _ _ (by decide), hTop]
  have hMirrored := (d.afterDots (4 * cycles)).mirrored_withStatus hRequested
  rw [upToDate_addRequests] at hMirrored
  rw [h.advance_eq]
  exact hMirrored

end Display

namespace Bus

/-- A write to the status keeps the bits that software may only read, any other write keeps the
status. -/
theorem bit_status_write (b : Bus) (a : UInt16) (v : UInt8) {i : Nat}
    (hReadOnly : Byte.bit statusWritable i = false) :
    Byte.bit ((b.write a v).store.get Address.lcdStatus) i =
      Byte.bit (b.store.get Address.lcdStatus) i := by
  by_cases hStatus : a = Address.lcdStatus
  · subst hStatus
    have hWrite : (b.write Address.lcdStatus v).store.get Address.lcdStatus =
        Byte.blend (b.store.get Address.lcdStatus) statusWritable v := Store.get_set_self _ _ _
    rw [hWrite, Byte.bit_blend_of_clear _ _ hReadOnly]
  · rw [b.get_write_of_ne v hStatus (by decide)]

end Bus

namespace Machine

variable {m m₁ : Machine Bus} {image : List UInt8} {options : Options} {c : Nat}

/-- A step that succeeds brings the registers up to date, whatever it wrote over them. -/
theorem mirrored_step (hDisplay : m.display.InPhase)
    (hTop : Byte.bit (m.core.read Address.lcdStatus) 7 = false) (hStep : m.step = (.ok c, m₁)) :
    m₁.display.Mirrored m₁.core.memory := by
  obtain ⟨core, hCore, rfl⟩ := step_ok hStep
  have hLeft : Byte.bit (core.memory.store.get Address.lcdStatus) 7 = false := by
    have hKept := m.core.step_keeps
      (P := fun b => Byte.bit (b.store.get Address.lcdStatus) 7 = false)
      (fun b a v h => (b.bit_status_write a v (by decide)).trans h) hTop
    rw [hCore] at hKept
    exact hKept
  have hTimer := m.timer.get_advance_of_ne core.memory c (a := Address.lcdStatus) (by decide)
    (by decide) (by decide)
  rw [← hTimer] at hLeft
  exact hDisplay.mirrored_advance hLeft c

theorem Reachable.status_top_clear (h : Reachable image options m) :
    Byte.bit (m.core.read Address.lcdStatus) 7 = false := by
  induction h with
  | powerOn hImage =>
    rw [read_powerOn hImage (by decide)]
    decide
  | @step m h ih =>
    rcases hStep : m.step with ⟨e | c, m₁⟩
    · obtain ⟨rfl, -⟩ := step_eq_error_iff.mp hStep
      exact ih
    · exact (mirrored_step h.consistent.display.inPhase ih hStep).top_clear

/-- After every step that succeeds, the bytes of scanline and status and the interrupt kept by the
display agree with it and with the scanline compared with, as the bus then holds it. -/
theorem Reachable.step_mirrors (h : Reachable image options m) (hStep : m.step = (.ok c, m₁)) :
    m₁.display.Mirrored m₁.core.memory :=
  mirrored_step h.consistent.display.inPhase h.status_top_clear hStep

/-- Stores the stack pointer over the scanline and the scanline compared with. -/
def overwriteCode : List UInt8 :=
  [0x08, 0x44, 0xFF]

theorem step_mirrors_overwriteCode :
    ∃ m m₁, Reachable (programmed overwriteCode) .default m ∧
      m.core.written = [Address.lcdY, Address.lcdYCompare] ∧ m.step = (.ok 5, m₁) ∧
      m₁.core.read Address.lcdY = m₁.display.line ∧
      (Byte.bit (m₁.core.read Address.lcdStatus) 2 = true ↔
        m₁.display.line = m₁.core.read Address.lcdYCompare) := by
  obtain ⟨m, hImage⟩ : ∃ m, ofImage (programmed overwriteCode) .default = .ok m :=
    ⟨_, ofImage_programmed (by decide) (by decide +kernel)⟩
  have hReachable : Reachable (programmed overwriteCode) .default m := .powerOn hImage
  let stored := { Cpu.powerOn with regs := { Registers.powerOn with pc := 0x103 } }
  obtain ⟨m₁, hWork, hStep, -⟩ :=
    hReachable.step_code (.storeSP 0xFF44) Cpu.powerOn stored
      (fun b =>
        Memory.writeAll b ((⟨Cpu.powerOn, b⟩ : Core Bus).stores (.execute (.storeSP 0xFF44))))
      (cpu_powerOn hImage) rfl rfl (by decide)
      (Instruction.decodeAt_eq_ok_iff.mpr (by decide +kernel)) fun _ => rfl
  have hWritten : m.core.written = [Address.lcdY, Address.lcdYCompare] := by
    rw [Core.written_eq hWork]
    rfl
  obtain ⟨hLine, -, hCoincidence, -, -⟩ := hReachable.step_mirrors hStep
  exact ⟨m, m₁, hReachable, hWritten, hStep, hLine, hCoincidence⟩

end Machine
end DotMatrix
