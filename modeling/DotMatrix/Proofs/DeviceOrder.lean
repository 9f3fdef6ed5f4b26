import DotMatrix.Proofs.Requests

/-!
# The order of the devices

Timer and display share the bus, but neither reads what the other one writes, and both only add to
the interrupt flags. What the display does to the bus passes through every cycle of the timer, so it
makes no difference which of the two is moved on first.
-/

namespace DotMatrix

namespace Bus

theorem addRequests_comm (b : Bus) (x y : UInt8) :
    (b.addRequests x).addRequests y = (b.addRequests y).addRequests x := by
  rw [addRequests_addRequests, addRequests_addRequests, UInt8.or_comm]

theorem withCounts_addRequests (b : Bus) (mask divider counter : UInt8) :
    (b.addRequests mask).withCounts divider counter =
      (b.withCounts divider counter).addRequests mask := by
  refine ext_get (fun a => ?_) rfl rfl
  have hFlags (c : Bus) : (c.withCounts divider counter).store.get Address.interruptFlags =
      c.store.get Address.interruptFlags :=
    c.get_withCounts_of_ne _ _ (by decide) (by decide)
  by_cases ha : Address.interruptFlags = a
  · subst ha
    rw [hFlags, get_addRequests, get_addRequests, hFlags]
  · rw [get_addRequests, if_neg ha, get_withCounts, get_withCounts, get_addRequests, if_neg ha]

theorem statusOf_withCounts (b : Bus) (divider counter : UInt8) (s : Phase × UInt8) :
    (b.withCounts divider counter).statusOf s = b.statusOf s := by
  rw [statusOf, get_withCounts_of_ne _ _ _ (by decide) (by decide)]
  rfl

theorem withCounts_withStatus (b : Bus) (s : Phase × UInt8) (divider counter : UInt8) :
    (b.withStatus s).withCounts divider counter =
      (b.withCounts divider counter).withStatus s := by
  refine ext_get (fun a => ?_) rfl rfl
  have hStatus : (b.withCounts divider counter).store.get Address.lcdStatus =
      b.store.get Address.lcdStatus :=
    b.get_withCounts_of_ne _ _ (by decide) (by decide)
  rw [get_withStatus, statusOf_withCounts, hStatus]
  by_cases hShown : Address.lcdStatus = a ∨ Address.lcdY = a
  · have hDivider : a ≠ Address.divider := by rcases hShown with rfl | rfl <;> decide
    have hCounter : a ≠ Address.timerCounter := by rcases hShown with rfl | rfl <;> decide
    rw [get_withCounts_of_ne _ _ _ hDivider hCounter, get_withStatus,
      get_withCounts_of_ne _ _ _ hDivider hCounter]
  · rw [not_or] at hShown
    rw [if_neg hShown.1, if_neg hShown.2, get_withCounts, get_withCounts, get_withStatus,
      if_neg hShown.1, if_neg hShown.2]

end Bus

namespace Timer

/-- The bytes that the timer reads. -/
def registers : List UInt16 :=
  [Address.divider, Address.timerCounter, Address.timerModulo, Address.timerControl]

/-- A change of the bus that the timer does not notice, and that does not notice the timer: it may
as well be made behind what the timer does. -/
structure Ignores (f : Bus → Bus) : Prop where
  read (b : Bus) : ∀ a ∈ registers, (f b).store.get a = b.store.get a
  latch (b : Bus) : (f b).dividerReset = b.dividerReset
  withCounts (b : Bus) (divider counter : UInt8) :
    (f b).withCounts divider counter = f (b.withCounts divider counter)
  addRequests (b : Bus) (mask : UInt8) : (f b).addRequests mask = f (b.addRequests mask)
  clearLatch (b : Bus) : (f b).clearDividerReset = f b.clearDividerReset

theorem ignores_addRequests (mask : UInt8) : Ignores (·.addRequests mask) where
  read b a ha := by
    have hNe : a ≠ Address.interruptFlags := by
      rintro rfl
      exact absurd ha (by decide)
    exact b.get_addRequests_of_ne mask hNe
  latch _ := rfl
  withCounts b := b.withCounts_addRequests mask
  addRequests b := b.addRequests_comm mask
  clearLatch _ := rfl

theorem ignores_withStatus (s : Phase × UInt8) : Ignores (·.withStatus s) where
  read b a ha := by
    have hStatus : Address.lcdStatus ≠ a := by
      rintro rfl
      exact absurd ha (by decide)
    have hLine : Address.lcdY ≠ a := by
      rintro rfl
      exact absurd ha (by decide)
    change (b.withStatus s).store.get a = b.store.get a
    rw [Bus.get_withStatus, if_neg hStatus, if_neg hLine]
  latch _ := rfl
  withCounts b := b.withCounts_withStatus s
  addRequests b := b.addRequests_withStatus s
  clearLatch _ := rfl

namespace Ignores

variable {f g : Bus → Bus}

theorem comp (hg : Ignores g) (hf : Ignores f) : Ignores (g ∘ f) where
  read b a ha := (hg.read (f b) a ha).trans (hf.read b a ha)
  latch b := (hg.latch (f b)).trans (hf.latch b)
  withCounts b divider counter :=
    (hg.withCounts (f b) divider counter).trans (congrArg g (hf.withCounts b divider counter))
  addRequests b mask := (hg.addRequests (f b) mask).trans (congrArg g (hf.addRequests b mask))
  clearLatch b := (hg.clearLatch (f b)).trans (congrArg g (hf.clearLatch b))

theorem tick (h : Ignores f) (t : Timer) (b : Bus) :
    t.tick (f b) = ((t.tick b).1, f (t.tick b).2) := by
  have hDivider := h.read b Address.divider (by decide)
  have hCounter := h.read b Address.timerCounter (by decide)
  have hModulo := h.read b Address.timerModulo (by decide)
  have hControl := h.read b Address.timerControl (by decide)
  have hDue : t.counterDue (f b) = t.counterDue b := by
    rw [Timer.counterDue, hControl]
    rfl
  have hOverflows : t.overflows (f b) = t.overflows b := by
    rw [Timer.overflows, hDue, hCounter]
    rfl
  have hNextTimer : t.nextTimer (f b) = t.nextTimer b := by
    rw [Timer.nextTimer, hDue, hControl]
    rfl
  have hNextDivider : t.nextDivider (f b) = t.nextDivider b := by
    rw [Timer.nextDivider, hDivider]
    rfl
  have hNextCounter : t.nextCounter (f b) = t.nextCounter b := by
    rw [Timer.nextCounter, hOverflows, hDue, hModulo, hCounter]
    rfl
  rw [tick_eq, tick_eq, hNextTimer, hNextDivider, hNextCounter, hOverflows, h.withCounts,
    h.addRequests]

theorem ticks (h : Ignores f) (t : Timer) (b : Bus) (n : Nat) :
    t.ticks (f b) n = ((t.ticks b n).1, f (t.ticks b n).2) := by
  induction n with
  | zero => rfl
  | succ n ih => rw [ticks_succ, ticks_succ, ih, h.tick]

theorem advance (h : Ignores f) (t : Timer) (b : Bus) (cycles : Nat) :
    t.advance (f b) cycles = ((t.advance b cycles).1, f (t.advance b cycles).2) := by
  rw [advance_eq, advance_eq, h.latch, h.clearLatch, h.ticks]

end Ignores
end Timer

namespace Display

/-- The levels of the display interrupt stay as they are while the timer counts. -/
theorem levelOn_advance (t : Timer) (b : Bus) (cycles : Nat) :
    levelOn (t.advance b cycles).2 = levelOn b := by
  have hKept {a : UInt16} := t.get_advance_of_ne b cycles (a := a)
  funext s
  rw [levelOn, hKept (by decide) (by decide) (by decide), hKept (by decide) (by decide) (by decide)]
  rfl

theorem upToDate_advance (d : Display) (t : Timer) (b : Bus) (cycles : Nat) :
    d.upToDate (t.advance b cycles).2 = d.upToDate b := by
  rw [upToDate, levelOn_advance]
  rfl

/-- Whether the timer or the display is moved on first, and by how many cycles each, the bus, the
timer, the display and whether the vertical blank was entered are the same in the end. What the
display does to the bus depends on levels that the timer keeps. -/
theorem advance_timer_comm {d : Display} (h : d.InPhase) (t : Timer) (b : Bus)
    (timerCycles displayCycles : Nat) :
    let timerFirst := t.advance b timerCycles
    let displaySecond := d.advance timerFirst.2 displayCycles
    let displayFirst := d.advance b displayCycles
    let timerSecond := t.advance displayFirst.memory timerCycles
    displaySecond.memory = timerSecond.2 ∧ timerFirst.1 = timerSecond.1 ∧
      displaySecond.display = displayFirst.display ∧
      displaySecond.enteredVBlank = displayFirst.enteredVBlank := by
  intro timerFirst displaySecond displayFirst timerSecond
  let rising := rises d.raised ((d.shown :: d.entered (4 * displayCycles)).map (levelOn b))
  let mask := requests rising (decide (d.EntersVBlank (4 * displayCycles)))
  let shown := (d.afterDots (4 * displayCycles)).shown
  have hDisplayFirst : displayFirst.memory = (b.addRequests mask).withStatus shown :=
    congrArg Progress.memory (h.advance_eq b displayCycles)
  have hSecond := h.advance_eq timerFirst.2 displayCycles
  rw [levelOn_advance, upToDate_advance] at hSecond
  have hTimer := ((Timer.ignores_withStatus shown).comp (Timer.ignores_addRequests mask)).advance
    t b timerCycles
  have hTimerSecond : timerSecond =
      (timerFirst.1, (timerFirst.2.addRequests mask).withStatus shown) :=
    (congrArg (t.advance · timerCycles) hDisplayFirst).trans hTimer
  rw [hTimerSecond]
  refine ⟨congrArg Progress.memory hSecond, rfl, ?_, ?_⟩
  · exact (congrArg Progress.display hSecond).trans
      (congrArg Progress.display (h.advance_eq b displayCycles)).symm
  · exact (congrArg Progress.enteredVBlank hSecond).trans
      (congrArg Progress.enteredVBlank (h.advance_eq b displayCycles)).symm

/-- The timer overflows in the cycle in which the vertical blank is entered: both requests are made,
whoever is first. -/
theorem advance_timer_comm_both_request :
    let t : Timer := ⟨0, 3⟩
    let d : Display := ⟨.hblank, 200, 143, false⟩
    let b : Bus := { Bus.empty with
      store := (Store.zero.set Address.timerControl 5).set Address.timerCounter 0xFF }
    let left := (t.advance (d.advance b 1).memory 1).2
    d.InPhase ∧ left = (d.advance (t.advance b 1).2 1).memory ∧
      Byte.bit (left.store.get Address.interruptFlags) 0 = true ∧
      Byte.bit (left.store.get Address.interruptFlags) 2 = true := by
  intro t d b left
  have hPhase : d.InPhase := ⟨by decide, by decide⟩
  obtain ⟨hBus, -⟩ := advance_timer_comm hPhase t b 1 1
  have hLeft : (d.advance (t.advance b 1).2 1).memory = left := hBus
  have hControl : b.store.get Address.timerControl = 5 :=
    (Store.get_set_of_ne _ _ (by decide)).trans (Store.get_set_self _ _ _)
  have hCounter : b.store.get Address.timerCounter = 0xFF := Store.get_set_self _ _ _
  have hOverflows : t.overflows b = true := by
    rw [Timer.overflows, Timer.counterDue, hControl, hCounter]
    decide
  have hTimer : Byte.bit ((t.advance b 1).2.store.get Address.interruptFlags) 2 = true :=
    (t.bit_flags_advance b 1 2).mpr (.inr ⟨rfl, 0, Nat.one_pos, hOverflows⟩)
  rw [← hLeft]
  refine ⟨hPhase, rfl, ?_, ?_⟩
  · exact (hPhase.bit_flags_advance _ 1 0).mpr (.inr (.inr ⟨rfl, by decide⟩))
  · exact (hPhase.bit_flags_advance _ 1 2).mpr (.inl hTimer)

end Display
end DotMatrix
