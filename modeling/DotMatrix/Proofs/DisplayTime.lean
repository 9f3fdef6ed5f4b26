import DotMatrix.Proofs.DotClock

/-!
# The display keeps time

The display spends many dots in one round of a loop. It ends where the clock of single dots ends,
however its cycles are cut into calls, and no round is missing.
-/

namespace DotMatrix.Display

variable {M : Type} [OnBus M]

theorem enterNext_display (d : Display) (m : M) : (d.enterNext m).1 = d.nextPhase := rfl

theorem refresh_display (d : Display) (m : M) :
    (d.refresh m).1 = { d with raised := (d.refresh m).1.raised } := rfl

/-- Spending dots ends where the clock ends after them, if there are enough rounds. Those suffice
that outnumber the dots, since a round that leaves its phase spends at least one. -/
theorem spend_display {d : Display} {m : M} {dots rounds : Nat} (h : d.dots < d.phase.budget)
    (hRounds : dots < rounds) :
    (d.spend m dots rounds).display =
      { d.afterDots dots with raised := (d.spend m dots rounds).display.raised } := by
  induction rounds generalizing d m dots with
  | zero => exact absurd hRounds (Nat.not_lt_zero _)
  | succ rounds ih =>
    rw [spend]
    split
    next hDots => rw [(afterDots_of_lt (by omega)).1]
    next hDots =>
      rw [(afterDots_of_le h (by omega)).1]
      refine (ih ?_ ?_).trans ?_
      · exact d.dots_lt_nextPhase
      · omega
      · rw [refresh_display, afterDots_raised, enterNext_display]
        rfl

theorem InPhase.spend_enteredVBlank {d : Display} (h : d.InPhase) {m : M} {dots rounds : Nat}
    (hRounds : dots < rounds) :
    (d.spend m dots rounds).enteredVBlank = true ↔ d.EntersVBlank dots := by
  induction rounds generalizing d m dots with
  | zero => exact absurd hRounds (Nat.not_lt_zero _)
  | succ rounds ih =>
    have hBudget := h.dots_lt
    rw [spend]
    split
    next => exact iff_of_false Bool.false_ne_true (not_entersVBlank_of_lt (by omega))
    next =>
      rw [Bool.or_eq_true, h.entersVBlank_of_le (by omega), enterNext_display, refresh_display]
      refine or_congr_right ((ih ?_ (by omega)).trans (entersVBlank_raised _ _ _))
      exact ⟨h.nextPhase.dots_lt, h.nextPhase.vblank_iff⟩

/-- Time passes for the display as for the clock, four dots in a machine cycle. -/
theorem advance_display {d : Display} (h : d.dots < d.phase.budget) (m : M) (cycles : Nat) :
    (d.advance m cycles).display =
      { d.afterDots (4 * cycles) with raised := (d.advance m cycles).display.raised } := by
  have hSpend := spend_display (d := (d.refresh m).1) (m := (d.refresh m).2) h
    (Nat.lt_add_of_pos_right (n := cycles * dotsPerCycle) (k := 2) (by decide))
  rw [refresh_display d m, afterDots_raised] at hSpend
  rw [Nat.mul_comm 4 cycles]
  exact congrArg (fun e : Display => { e with raised := (d.advance m cycles).display.raised })
    hSpend

theorem InPhase.advance_enteredVBlank {d : Display} (h : d.InPhase) (m : M) (cycles : Nat) :
    (d.advance m cycles).enteredVBlank = true ↔ d.EntersVBlank (4 * cycles) := by
  have hStart : (d.refresh m).1.InPhase := ⟨h.dots_lt, h.vblank_iff⟩
  refine (hStart.spend_enteredVBlank (by omega)).trans ?_
  rw [refresh_display, entersVBlank_raised, Nat.mul_comm cycles]
  rfl

theorem InRange.advance {d : Display} (h : d.InRange) (m : M) (cycles : Nat) :
    (d.advance m cycles).display.InRange := by
  rw [advance_display h.dots_lt]
  have hAfter := h.afterDots (4 * cycles)
  exact ⟨hAfter.dots_lt, hAfter.line_le, hAfter.vblank_iff⟩

theorem InRange.position_advance {d : Display} (h : d.InRange) (m : M) (cycles : Nat) :
    (d.advance m cycles).display.position = (d.position + 4 * cycles) % 70224 := by
  rw [advance_display h.dots_lt]
  exact h.position_afterDots (4 * cycles)

end DotMatrix.Display
