import DotMatrix.Proofs.DisplayRequests

/-!
# Splitting a stretch of time

The display does not notice where its time is cut into calls. A cut brings the status up to date
once more, but what the bus holds then is what the display stored, so that nothing rises there.
-/

namespace DotMatrix

theorem successive_append {α : Type} (a : α) (l k : List α) :
    successive a (l ++ k) = successive a l ++ successive (l.getLast?.getD a) k := by
  induction l generalizing a with
  | nil => rfl
  | cons b l ih =>
    rw [List.cons_append, successive_cons, ih, successive_cons, List.cons_append,
      List.getLast?_cons]
    rfl

namespace Display

theorem rises_append (raised : Bool) (l k : List Bool) :
    rises raised (l ++ k) = (rises raised l || rises (l.getLast?.getD raised) k) := by
  rw [Bool.eq_iff_iff, Bool.or_eq_true]
  simp only [rises_eq_true_iff, successive_append, List.mem_append]

/-- A level that is stored already does not rise again. -/
theorem rises_cons_self (level : Bool) (levels : List Bool) :
    rises level (level :: levels) = rises level levels := by
  rw [rises, Bool.and_not_self, Bool.false_or]

/-- What rises along all phases of two stretches rises along the first or along the second. -/
theorem rises_entered_add (b : Bus) (d : Display) (n k : Nat) :
    rises d.raised ((d.shown :: d.entered (n + k)).map (levelOn b)) =
      (rises d.raised ((d.shown :: d.entered n).map (levelOn b)) ||
        rises (levelOn b (d.afterDots n).shown)
          (((d.afterDots n).shown :: (d.afterDots n).entered k).map (levelOn b))) := by
  have hLast : ((d.shown :: d.entered n).map (levelOn b)).getLast? =
      some (levelOn b (d.afterDots n).shown) := by
    rw [List.getLast?_map, getLast?_entered]
    rfl
  rw [entered_add, ← List.cons_append, List.map_append, rises_append, hLast, Option.getD_some,
    List.map_cons (l := (d.afterDots n).entered k), rises_cons_self]

theorem entersVBlank_add (d : Display) (n k : Nat) :
    d.EntersVBlank (n + k) ↔ d.EntersVBlank n ∨ (d.afterDots n).EntersVBlank k := by
  have hLines : (d.line :: (d.entered n).map Prod.snd).getLast? = some (d.afterDots n).line := by
    have hShown := congrArg (Option.map Prod.snd) (getLast?_entered d n)
    rw [← List.getLast?_map] at hShown
    exact hShown
  have hLast : ((d.entered n).map Prod.snd).getLast?.getD d.line = (d.afterDots n).line := by
    rw [List.getLast?_cons] at hLines
    exact Option.some.inj hLines
  rw [EntersVBlank, entered_add, List.map_append, successive_append, List.mem_append, hLast]
  rfl

theorem decide_entersVBlank_add (d : Display) (n k : Nat) :
    decide (d.EntersVBlank (n + k)) =
      (decide (d.EntersVBlank n) || decide ((d.afterDots n).EntersVBlank k)) := by
  rw [Bool.eq_iff_iff, Bool.or_eq_true]
  simp only [decide_eq_true_eq]
  exact d.entersVBlank_add n k

/-- Moving on a display whose status is up to date. -/
theorem InPhase.advance_upToDate {d : Display} (h : d.InPhase) (b : Bus) (cycles : Nat) :
    (d.upToDate b).advance (b.withStatus d.shown) cycles =
      { display := (d.afterDots (4 * cycles)).upToDate b
        memory :=
          (b.addRequests (requests
            (rises (levelOn b d.shown) ((d.shown :: d.entered (4 * cycles)).map (levelOn b)))
            (decide (d.EntersVBlank (4 * cycles))))).withStatus (d.afterDots (4 * cycles)).shown
        enteredVBlank := decide (d.EntersVBlank (4 * cycles)) } := by
  have hPhase : (d.upToDate b).InPhase := ⟨h.dots_lt, h.vblank_iff⟩
  have hBlank : decide ((d.upToDate b).EntersVBlank (4 * cycles)) =
      decide (d.EntersVBlank (4 * cycles)) :=
    decide_eq_decide.mpr (entersVBlank_raised d _ _)
  have hAfter : (d.upToDate b).afterDots (4 * cycles) =
      { d.afterDots (4 * cycles) with raised := levelOn b d.shown } := afterDots_raised d _ _
  have hEntered : (d.upToDate b).entered (4 * cycles) = d.entered (4 * cycles) :=
    entered_raised d _ _
  rw [hPhase.advance_eq, hBlank, hAfter, hEntered, upToDate_withStatus, levelOn_withStatus,
    Bus.addRequests_withStatus, Bus.withStatus_withStatus]
  rfl

/-- Moving the display on twice is moving it on once by all the cycles: display, bus and what is
returned agree, wherever the cut lies in a phase. -/
theorem advance_add {d : Display} (h : d.InPhase) (b : Bus) (n k : Nat) :
    let first := d.advance b n
    let second := first.display.advance first.memory k
    d.advance b (n + k) =
      { display := second.display
        memory := second.memory
        enteredVBlank := first.enteredVBlank || second.enteredVBlank } := by
  intro first second
  have hSecond (mask : UInt8) := (h.afterDots (4 * n)).advance_upToDate (b.addRequests mask) k
  simp only [upToDate_addRequests, levelOn_addRequests, Bus.addRequests_addRequests] at hSecond
  simp only [second, first, h.advance_eq b n, hSecond, requests_or]
  rw [h.advance_eq, Nat.mul_add, afterDots_add, rises_entered_add, decide_entersVBlank_add]

/-- A cut two cycles before the vertical blank and one cycle before it. -/
theorem advance_add_line_143 :
    let d : Display := ⟨.hblank, 196, 143, false⟩
    let first := d.advance Bus.empty 1
    let second := first.display.advance first.memory 1
    d.InPhase ∧ first.enteredVBlank = false ∧ second.enteredVBlank = true ∧
      d.advance Bus.empty (1 + 1) =
        { display := second.display
          memory := second.memory
          enteredVBlank := first.enteredVBlank || second.enteredVBlank } := by
  intro d first second
  have hPhase : d.InPhase := ⟨by decide, by decide⟩
  have hSplit : d.advance Bus.empty (1 + 1) = ⟨second.display, second.memory,
      first.enteredVBlank || second.enteredVBlank⟩ := advance_add hPhase Bus.empty 1 1
  have hFirst : first.enteredVBlank = false :=
    eq_false_of_ne_true (mt (hPhase.advance_enteredVBlank _ _).mp (by decide))
  have hWhole : (d.advance Bus.empty (1 + 1)).enteredVBlank = true :=
    (hPhase.advance_enteredVBlank _ _).mpr (by decide)
  simp only [hSplit, hFirst, Bool.false_or] at hWhole
  exact ⟨hPhase, hFirst, hWhole, hSplit⟩

end Display
end DotMatrix
