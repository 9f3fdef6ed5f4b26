import DotMatrix.Timer

/-!
# The timer, cycle by cycle

Both counts of cycles stay below the period that they are compared with, even where the control byte
selects a shorter period while cycles are counted towards a longer one.
-/

namespace DotMatrix.Timer

structure InRange (t : Timer) : Prop where
  sinceDivider_lt : t.sinceDivider < 64
  sinceCounter_lt : t.sinceCounter < 256

theorem powerOn_inRange : powerOn.InRange :=
  ⟨by decide, by decide⟩

theorem period_le (control : UInt8) : period control ≤ 256 := by
  unfold period
  split <;> decide

theorem period_pos (control : UInt8) : 0 < period control := by
  unfold period
  split <;> decide

variable {M : Type} [OnBus M] {t : Timer}

theorem InRange.advanceDivider (h : t.InRange) (m : M) : (t.advanceDivider m).1.InRange := by
  obtain ⟨hDivider, hCounter⟩ := h
  unfold Timer.advanceDivider
  split
  next => exact ⟨(by decide : 0 < 64), hCounter⟩
  next hNe =>
    have hStep : t.sinceDivider + 1 < 64 := Nat.lt_of_le_of_ne hDivider hNe
    exact ⟨hStep, hCounter⟩

theorem InRange.advanceCounter (h : t.InRange) (m : M) : (t.advanceCounter m).1.InRange := by
  obtain ⟨hDivider, hCounter⟩ := h
  have hPeriod := period_le (Memory.read m Address.timerControl)
  simp only [Timer.advanceCounter]
  split
  next =>
    split
    next => exact ⟨hDivider, (by decide : 0 < 256)⟩
    next hLt =>
      have hStep : t.sinceCounter + 1 < 256 := by omega
      exact ⟨hDivider, hStep⟩
  next => exact ⟨hDivider, hCounter⟩

theorem InRange.tick (h : t.InRange) (m : M) : (t.tick m).1.InRange :=
  (h.advanceDivider m).advanceCounter _

theorem InRange.ticks (h : t.InRange) (m : M) (n : Nat) : (t.ticks m n).1.InRange := by
  induction n generalizing t m with
  | zero => exact h
  | succ n ih => exact ih (h.tick m) _

theorem InRange.acceptReset (h : t.InRange) (m : M) : (t.acceptReset m).1.InRange := by
  unfold Timer.acceptReset
  split
  next => exact powerOn_inRange
  next => exact h

theorem InRange.advance (h : t.InRange) (m : M) (cycles : Nat) : (t.advance m cycles).1.InRange :=
  (h.acceptReset m).ticks _ cycles

end DotMatrix.Timer
