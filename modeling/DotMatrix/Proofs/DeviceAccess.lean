import DotMatrix.Display.Basic
import DotMatrix.Timer

/-!
# How the devices reach the memory

The timer and the display have a few ways to change a memory. What all of them keep, the devices
keep over any time.
-/

namespace DotMatrix

variable {M : Type} [OnBus M] {P : M → Prop} {m : M}

/-- Everything that the timer does to a memory keeps `P`. -/
structure Timer.Keeps (P : M → Prop) : Prop where
  setDivider {m : M} (v : UInt8) : P m → P (OnBus.mapBus m (·.setDivider v))
  clearReset {m : M} : P m → P (OnBus.mapBus m Bus.clearDividerReset)
  count {m : M} (v : UInt8) : P m → P (Memory.write m Address.timerCounter v)
  overflow {m : M} (reload : UInt8) : P m → P (Memory.note m (.timerOverflow reload))
  request {m : M} : P m → P (Memory.request m .timer)

/-- Everything that the display does to a memory keeps `P`. -/
structure Display.Keeps (P : M → Prop) : Prop where
  status {m : M} (line bits : UInt8) :
    P m → P (OnBus.mapBus m fun b => (b.setLcdY line).setStatusLow bits)
  requested {m : M} (line : UInt8) (phase : Phase) :
    P m → P (Memory.note m (.lcdRequested line phase))
  entering {m : M} : P m → P (Memory.note m .enteringVBlank)
  request {m : M} (i : Interrupt) : P m → P (Memory.request m i)

namespace Timer.Keeps

theorem stepCounter (h : Timer.Keeps P) (hm : P m) : P (Timer.stepCounter m) := by
  unfold Timer.stepCounter
  dsimp only
  split
  · exact h.request (h.count _ (h.overflow _ hm))
  · exact h.count _ hm

theorem advanceDivider (h : Timer.Keeps P) (hm : P m) (t : Timer) : P (t.advanceDivider m).2 := by
  unfold Timer.advanceDivider
  split
  · exact h.setDivider _ hm
  · exact hm

theorem advanceCounter (h : Timer.Keeps P) (hm : P m) (t : Timer) : P (t.advanceCounter m).2 := by
  unfold Timer.advanceCounter
  dsimp only
  split
  · split
    · exact h.stepCounter hm
    · exact hm
  · exact hm

theorem ticks (h : Timer.Keeps P) (hm : P m) (t : Timer) (n : Nat) : P (t.ticks m n).2 := by
  induction n generalizing t m with
  | zero => exact hm
  | succ n ih => exact ih (h.advanceCounter (h.advanceDivider hm t) _) _

theorem advance (h : Timer.Keeps P) (hm : P m) (t : Timer) (cycles : Nat) :
    P (t.advance m cycles).2 := by
  have hReset : P (t.acceptReset m).2 := by
    unfold acceptReset
    split
    · exact h.clearReset hm
    · exact hm
  exact h.ticks hReset _ cycles

end Timer.Keeps

namespace Display.Keeps

theorem refresh (h : Display.Keeps P) (hm : P m) (d : Display) : P (d.refresh m).2 := by
  unfold Display.refresh
  dsimp only
  split
  · exact h.request _ (h.requested _ _ (h.status _ _ hm))
  · exact h.status _ _ hm

theorem enterNext (h : Display.Keeps P) (hm : P m) (d : Display) : P (d.enterNext m).2 := by
  unfold Display.enterNext
  dsimp only
  split
  · exact h.request _ (h.entering hm)
  · exact hm

theorem spend (h : Display.Keeps P) (hm : P m) (d : Display) (dots rounds : Nat) :
    P (d.spend m dots rounds).memory := by
  induction rounds generalizing d m dots with
  | zero => exact hm
  | succ rounds ih =>
    unfold Display.spend
    dsimp only
    split
    · exact hm
    · exact ih (h.refresh (h.enterNext hm d) _) _ _

theorem advance (h : Display.Keeps P) (hm : P m) (d : Display) (cycles : Nat) :
    P (d.advance m cycles).memory :=
  h.refresh (h.spend (h.refresh hm d) _ _ _) _

end Display.Keeps
end DotMatrix
