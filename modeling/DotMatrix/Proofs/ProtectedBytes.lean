import DotMatrix.Proofs.DeviceAccess
import DotMatrix.Proofs.DisplayMirror
import DotMatrix.Proofs.DividerClock

/-!
# Bytes that no use of the bus changes

The processor, the devices and direct accesses may use one bus in any order. Each operation is taken
on a journal, which tells writes from what a device changes silently, and is then read back on the
bus. From what one operation respects follows what every history leaves.
-/

namespace DotMatrix

/-- What may be done to a bus, with whatever state the processor or the device then has. -/
inductive Operation where
  | step (cpu : Cpu)
  | write (a : UInt16) (v : UInt8)
  | update (a : UInt16) (f : UInt8 → UInt8)
  | request (i : Interrupt)
  | advanceTimer (t : Timer) (cycles : Nat)
  | advanceDisplay (d : Display) (cycles : Nat)

namespace Operation

section

variable {M N : Type} [OnBus M] [OnBus N]

def apply (op : Operation) (m : M) : M :=
  match op with
  | step cpu => (Core.mk cpu m).step.2.memory
  | write a v => Memory.write m a v
  | update a f => Memory.update m a f
  | request i => Memory.request m i
  | advanceTimer t cycles => (t.advance m cycles).2
  | advanceDisplay d cycles => (d.advance m cycles).memory

/-- The addresses that the operation writes to over the bus, in order. -/
def written (op : Operation) (m : M) : List UInt16 :=
  (op.apply (Journal.start m)).written

theorem apply_map {f : M → N} (h : OnBus.Hom f) (op : Operation) (m : M) :
    op.apply (f m) = f (op.apply m) := by
  cases op with
  | step cpu => exact congrArg (·.2.memory) (Core.step_map h.toHom ⟨cpu, m⟩)
  | write a v => exact h.write m a v
  | update a f => exact h.toHom.update m a f
  | request i => exact h.toHom.request m i
  | advanceTimer t cycles => exact congrArg Prod.snd (Timer.advance_map h t m cycles)
  | advanceDisplay d cycles => exact congrArg (·.memory) (Display.advance_map h d m cycles)

theorem apply_start (op : Operation) (m : M) : (op.apply (Journal.start m)).memory = op.apply m :=
  (apply_map Journal.onBus_memory op (Journal.start m)).symm

variable [Memory.Unwatched M]

theorem apply_keeps {P : M → Prop} {op : Operation} {m : M}
    (hWrite : ∀ m a v, P m → P (Memory.write m a v))
    (hTimer : ∀ t n, op = advanceTimer t n → Timer.Keeps P)
    (hDisplay : ∀ d n, op = advanceDisplay d n → Display.Keeps P) (h : P m) :
    P (op.apply m) := by
  cases op with
  | step cpu => exact Core.step_keeps hWrite (s := ⟨cpu, m⟩) h
  | write a v => exact hWrite m a v h
  | update a f => exact hWrite m a _ h
  | request i => exact hWrite m _ _ h
  | advanceTimer t n => exact (hTimer t n rfl).advance h t n
  | advanceDisplay d n => exact (hDisplay d n rfl).advance h d n

end

end Operation

theorem Bus.bit_status_display (b : Bus) (line bits : UInt8) {i : Nat} (hi : 3 ≤ i) :
    Byte.bit (((b.setLcdY line).setStatusLow bits).store.get Address.lcdStatus) i =
      Byte.bit (b.store.get Address.lcdStatus) i := by
  have hAbove : Byte.bit statusDisplay i = false := Byte.bit_of_lt (k := 3) (by decide) hi
  have hLine : (b.setLcdY line).store.get Address.lcdStatus = b.store.get Address.lcdStatus :=
    Store.get_set_of_ne _ _ (by decide)
  have hStatus : ((b.setLcdY line).setStatusLow bits).store.get Address.lcdStatus =
      Byte.blend ((b.setLcdY line).store.get Address.lcdStatus) statusDisplay bits :=
    Store.get_set_self _ _ _
  rw [hStatus, Byte.bit_blend_of_clear _ _ hAbove, hLine]

namespace Journal

variable {b : Bus} {j k : Journal Bus}

/-- What every operation on `b` leaves: the cartridge, the top bit of the status and, if the status
is not written, the enable bits below it. -/
structure Protects (b : Bus) (j : Journal Bus) : Prop where
  rom : ∀ a < Address.romEnd, j.memory.store.get a = b.store.get a
  top : Byte.bit (j.memory.store.get Address.lcdStatus) 7 =
    Byte.bit (b.store.get Address.lcdStatus) 7
  enables : Address.lcdStatus ∉ j.written → ∀ i, 3 ≤ i →
    Byte.bit (j.memory.store.get Address.lcdStatus) i = Byte.bit (b.store.get Address.lcdStatus) i

theorem Protects.start (b : Bus) : Protects b (Journal.start b) :=
  ⟨fun _ _ => rfl, rfl, fun _ _ _ => rfl⟩

theorem Protects.of_same (h : Protects b j) (hWritten : k.written = j.written)
    (hRom : ∀ a < Address.romEnd, k.memory.store.get a = j.memory.store.get a)
    (hStatus : ∀ i, 3 ≤ i → Byte.bit (k.memory.store.get Address.lcdStatus) i =
      Byte.bit (j.memory.store.get Address.lcdStatus) i) : Protects b k where
  rom a ha := (hRom a ha).trans (h.rom a ha)
  top := (hStatus 7 (by decide)).trans h.top
  enables hQuiet i hi := by
    rw [hWritten] at hQuiet
    exact (hStatus i hi).trans (h.enables hQuiet i hi)

theorem Protects.write (h : Protects b j) (a : UInt16) (v : UInt8) :
    Protects b (Memory.write j a v) where
  rom x hx := (j.memory.get_write_rom a v hx).trans (h.rom x hx)
  top := (j.memory.bit_status_write a v (by decide)).trans h.top
  enables hQuiet i hi := by
    obtain ⟨hBefore, hNe⟩ : Address.lcdStatus ∉ j.written ∧ Address.lcdStatus ≠ a := by
      have hWritten : Address.lcdStatus ∉ j.written ++ [a] := hQuiet
      simpa using hWritten
    have hSame := j.memory.get_write_of_ne v hNe.symm (by decide)
    exact (congrArg (Byte.bit · i) hSame).trans (h.enables hBefore i hi)

theorem ne_of_lt_romEnd {a x : UInt16} (ha : a < Address.romEnd) (hx : ¬ x < Address.romEnd) :
    x ≠ a := by
  rintro rfl
  exact hx ha

theorem timer_keeps_protects (b : Bus) : Timer.Keeps (Protects b) where
  setDivider v h := by
    refine h.of_same rfl ?_ ?_
    · intro a ha
      exact Store.get_set_of_ne _ v (ne_of_lt_romEnd ha (by decide))
    · intro i _
      exact congrArg (Byte.bit · i) (Store.get_set_of_ne _ v (by decide))
  clearReset h := ⟨h.rom, h.top, h.enables⟩
  count v h := h.write _ v
  overflow _ h := h
  request h := h.write _ _

theorem display_keeps_protects (b : Bus) : Display.Keeps (Protects b) where
  status {j} line bits h := by
    refine h.of_same rfl ?_ ?_
    · intro a ha
      have hStatus := ne_of_lt_romEnd ha (x := Address.lcdStatus) (by decide)
      have hLine := ne_of_lt_romEnd ha (x := Address.lcdY) (by decide)
      exact (Store.get_set_of_ne _ _ hStatus).trans (Store.get_set_of_ne _ line hLine)
    · intro i hi
      exact j.memory.bit_status_display line bits hi
  requested _ _ h := h
  entering h := h
  request _ h := h.write _ _

/-- The bits of the status that tell of the display are those of `b`. -/
def KeepsMode (b : Bus) (j : Journal Bus) : Prop :=
  ∀ i < 3, Byte.bit (j.memory.store.get Address.lcdStatus) i =
    Byte.bit (b.store.get Address.lcdStatus) i

theorem KeepsMode.write (h : KeepsMode b j) (a : UInt16) (v : UInt8) :
    KeepsMode b (Memory.write j a v) := by
  intro i hi
  have hReadOnly : ∀ i < 3, Byte.bit Bus.statusWritable i = false := by decide
  exact (j.memory.bit_status_write a v (hReadOnly i hi)).trans (h i hi)

theorem timer_keeps_mode (b : Bus) : Timer.Keeps (KeepsMode b) where
  setDivider v h i hi :=
    (congrArg (Byte.bit · i) (Store.get_set_of_ne _ v (by decide))).trans (h i hi)
  clearReset h := h
  count v h := h.write _ v
  overflow _ h := h
  request h := h.write _ _

theorem display_keeps_divider (b : Bus) : Display.Keeps (TellsDivider b) where
  status line bits h := by
    refine ⟨h.reset, Eq.trans ?_ h.value⟩
    exact (Store.get_set_of_ne _ _ (by decide)).trans (Store.get_set_of_ne _ line (by decide))
  requested _ _ h := h
  entering h := h
  request _ h := h.write _ _

theorem timer_keeps_unwritten :
    Timer.Keeps fun j : Journal Bus => Address.divider ∉ j.written := by
  have hWrite {j : Journal Bus} {a : UInt16} (hNe : Address.divider ≠ a)
      (h : Address.divider ∉ j.written) : Address.divider ∉ j.written ++ [a] := by
    simp [h, hNe]
  exact {
    setDivider _ h := h
    clearReset h := h
    count _ h := hWrite (by decide) h
    overflow _ h := h
    request h := hWrite (by decide) h }

end Journal

namespace Timer

/-- The divider is only ever stepped, at most once in a cycle. -/
theorem divider_ticks_le (t : Timer) (b : Bus) (n : Nat) :
    ∃ k ≤ n, (t.ticks b n).2.store.get Address.divider =
      b.store.get Address.divider + UInt8.ofNat k := by
  induction n with
  | zero => exact ⟨0, Nat.le_refl 0, (UInt8.add_zero _).symm⟩
  | succ n ih =>
    obtain ⟨k, hk, hDivider⟩ := ih
    rw [ticks_succ, divider_tick, nextDivider, hDivider]
    split
    · refine ⟨k + 1, Nat.succ_le_succ hk, ?_⟩
      rw [UInt8.ofNat_add, ← UInt8.add_assoc]
      rfl
    · exact ⟨k, Nat.le_succ_of_le hk, rfl⟩

theorem divider_advance (t : Timer) (b : Bus) (n : Nat) :
    ∃ k ≤ n, (t.advance b n).2.store.get Address.divider =
        b.store.get Address.divider + UInt8.ofNat k ∧
      (t.sinceDivider < 64 → k = ((if b.dividerReset then 0 else t.sinceDivider) + n) / 64) := by
  rw [advance_eq]
  have hStart : (if b.dividerReset then powerOn else t).sinceDivider =
      if b.dividerReset then 0 else t.sinceDivider := by
    split <;> rfl
  by_cases hBelow : (if b.dividerReset then powerOn else t).sinceDivider < 64
  · obtain ⟨-, hDivider⟩ := divider_ticks hBelow b.clearDividerReset n
    rw [hStart] at hBelow hDivider
    exact ⟨_, by omega, hDivider, fun _ => rfl⟩
  · obtain ⟨k, hk, hDivider⟩ :=
      divider_ticks_le (if b.dividerReset then powerOn else t) b.clearDividerReset n
    refine ⟨k, hk, hDivider, fun hSince => ?_⟩
    rw [hStart] at hBelow
    split at hBelow <;> omega

end Timer

namespace Operation

/-- What the operation may do to the protected bytes of `b`, where `c` is the bus behind it. -/
structure Respects (op : Operation) (b c : Bus) : Prop where
  rom : ∀ a < Address.romEnd, Memory.read c a = Memory.read b a
  top : Byte.bit (Memory.read c Address.lcdStatus) 7 = Byte.bit (Memory.read b Address.lcdStatus) 7
  mode : ∀ i < 3,
    Byte.bit (Memory.read c Address.lcdStatus) i ≠ Byte.bit (Memory.read b Address.lcdStatus) i →
      ∃ d n, op = advanceDisplay d n
  enables : ∀ i, 3 ≤ i → i < 7 →
    Byte.bit (Memory.read c Address.lcdStatus) i ≠ Byte.bit (Memory.read b Address.lcdStatus) i →
      Address.lcdStatus ∈ op.written b
  divider : Memory.read c Address.divider ≠ Memory.read b Address.divider →
    Address.divider ∈ op.written b ∨ ∃ t n, op = advanceTimer t n
  reset : Address.divider ∈ op.written b → Memory.read c Address.divider = 0
  stepped : ∀ t n, op = advanceTimer t n →
    ∃ k ≤ n, Memory.read c Address.divider = Memory.read b Address.divider + UInt8.ofNat k ∧
      (t.sinceDivider < 64 → k = ((if b.dividerReset then 0 else t.sinceDivider) + n) / 64)

variable (op : Operation) (b : Bus)

theorem protects_apply : Journal.Protects b (op.apply (Journal.start b)) :=
  apply_keeps (fun _ a v h => h.write a v) (fun _ _ _ => Journal.timer_keeps_protects b)
    (fun _ _ _ => Journal.display_keeps_protects b) (.start b)

theorem keepsMode_apply (hDisplay : ¬ ∃ d n, op = advanceDisplay d n) :
    Journal.KeepsMode b (op.apply (Journal.start b)) :=
  apply_keeps (fun _ a v h => Journal.KeepsMode.write h a v)
    (fun _ _ _ => Journal.timer_keeps_mode b) (fun d n h => absurd ⟨d, n, h⟩ hDisplay)
    fun _ _ => rfl

theorem tellsDivider_apply (hTimer : ¬ ∃ t n, op = advanceTimer t n) :
    Journal.TellsDivider b (op.apply (Journal.start b)) :=
  apply_keeps (fun _ a v h => h.write a v) (fun t n h => absurd ⟨t, n, h⟩ hTimer)
    (fun _ _ _ => Journal.display_keeps_divider b) ⟨(Bool.or_false _).symm, rfl⟩

/-- The bus behind an operation is that of its journal. -/
theorem respects_apply : op.Respects b (op.apply b) := by
  have hProtects := op.protects_apply b
  have hMode := op.keepsMode_apply b
  have hDivider := op.tellsDivider_apply b
  rw [← op.apply_start b]
  constructor
  case rom => exact hProtects.rom
  case top => exact hProtects.top
  case mode =>
    intro i hi hChanged
    by_cases hDisplay : ∃ d n, op = advanceDisplay d n
    · exact hDisplay
    · exact absurd (hMode hDisplay i hi) hChanged
  case enables =>
    intro i hi _ hChanged
    by_cases hWritten : Address.lcdStatus ∈ op.written b
    · exact hWritten
    · exact absurd (hProtects.enables hWritten i hi) hChanged
  case divider =>
    intro hChanged
    by_cases hTimer : ∃ t n, op = advanceTimer t n
    · exact .inr hTimer
    · by_cases hWritten : Address.divider ∈ op.written b
      · exact .inl hWritten
      · exact absurd ((hDivider hTimer).value.trans (if_neg hWritten)) hChanged
  case reset =>
    intro hWritten
    by_cases hTimer : ∃ t n, op = advanceTimer t n
    · obtain ⟨t, n, rfl⟩ := hTimer
      exact absurd hWritten (Journal.timer_keeps_unwritten.advance List.not_mem_nil t n)
    · exact (hDivider hTimer).value.trans (if_pos hWritten)
  case stepped =>
    rintro t n rfl
    rw [apply_start]
    exact t.divider_advance b n

def applyAll (ops : List Operation) (b : Bus) : Bus :=
  ops.foldl (fun b op => op.apply b) b

/-- What holds between all operations on a bus that an image is mapped into. -/
structure Sealed (image : List UInt8) (b : Bus) : Prop where
  rom : ∀ a < Address.romEnd, Memory.read b a = image.getD a.toNat 0
  top : Byte.bit (Memory.read b Address.lcdStatus) 7 = false

theorem sealed_ofImage (image : List UInt8) : Sealed image (Bus.ofImage image) where
  rom a ha := by
    have hBelow : a.toNat < 0x8000 := UInt16.lt_iff_toNat_lt.mp ha
    exact (Bus.get_ofImage image a).trans (if_pos hBelow)
  top := by
    have hZero : Memory.read (Bus.ofImage image) Address.lcdStatus = 0 :=
      (Bus.get_ofImage image _).trans (if_neg (by decide))
    rw [hZero]
    decide

theorem Sealed.apply {image : List UInt8} {b : Bus} (h : Sealed image b) (op : Operation) :
    Sealed image (op.apply b) where
  rom a ha := ((op.respects_apply b).rom a ha).trans (h.rom a ha)
  top := (op.respects_apply b).top.trans h.top

theorem Sealed.applyAll {image : List UInt8} {b : Bus} (h : Sealed image b)
    (ops : List Operation) : Sealed image (applyAll ops b) := by
  induction ops generalizing b with
  | nil => exact h
  | cons op ops ih => exact ih (h.apply op)

/-- Behind every history, the bus holds the image and the top bit of the status is clear, and the
next operation, whichever it is, respects the protected bytes. -/
theorem history_protected (image : List UInt8) (history : List Operation) (op : Operation) :
    Sealed image (applyAll history (Bus.ofImage image)) ∧
      op.Respects (applyAll history (Bus.ofImage image))
        (applyAll (history ++ [op]) (Bus.ofImage image)) := by
  constructor
  · exact (sealed_ofImage image).applyAll history
  · rw [applyAll, applyAll, List.foldl_append]
    exact op.respects_apply _

end Operation
end DotMatrix
