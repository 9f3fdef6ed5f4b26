import DotMatrix.Display.Basic

/-!
# The display, dot by dot

A clock lets a single dot pass at a time and tells which phases are entered. Position in the frame
advances by one with every dot and starts over behind the last one, and the vertical blank is
entered at one position only.
-/

namespace DotMatrix

/-- Each entry together with the one before it, where `a` stands before the first. -/
def successive {α : Type} (a : α) (l : List α) : List (α × α) :=
  (a :: l).zip l

theorem successive_cons {α : Type} (a b : α) (l : List α) :
    successive a (b :: l) = (a, b) :: successive b l := rfl

namespace Display

/-- Where the display stands between two steps, whatever its scanline is. -/
structure InPhase (d : Display) : Prop where
  dots_lt : d.dots < d.phase.budget
  vblank_iff : d.phase = .vblank ↔ 144 ≤ d.line.toNat ∧ d.line.toNat ≤ 153

/-- Where the display stands in a run from power-on. -/
structure InRange (d : Display) : Prop where
  dots_lt : d.dots < d.phase.budget
  line_le : d.line.toNat ≤ 153
  vblank_iff : d.phase = .vblank ↔ 144 ≤ d.line.toNat

theorem InRange.inPhase {d : Display} (h : d.InRange) : d.InPhase :=
  ⟨h.dots_lt, h.vblank_iff.trans ⟨fun hLine => ⟨hLine, h.line_le⟩, And.left⟩⟩

theorem powerOn_inRange : powerOn.InRange :=
  ⟨by decide, by decide, by decide⟩

def shown (d : Display) : Phase × UInt8 :=
  (d.phase, d.line)

/-- The beginning of the phase that follows. -/
def nextPhase (d : Display) : Display :=
  { d with phase := d.next.1, dots := 0, line := d.next.2 }

/-- One dot passes. -/
def dot (d : Display) : Display :=
  if d.dots + 1 < d.phase.budget then { d with dots := d.dots + 1 } else d.nextPhase

def afterDots (d : Display) : Nat → Display
  | 0 => d
  | n + 1 => d.dot.afterDots n

/-- The phases that are entered while dots pass, each with its scanline, in order. -/
def entered (d : Display) : Nat → List (Phase × UInt8)
  | 0 => []
  | n + 1 =>
    if d.dots + 1 < d.phase.budget then d.dot.entered n else d.next :: d.dot.entered n

@[simp] theorem shown_nextPhase (d : Display) : d.nextPhase.shown = d.next := rfl

theorem dots_lt_nextPhase (d : Display) : d.nextPhase.dots < d.nextPhase.phase.budget :=
  Phase.budget_pos _

theorem afterDots_add (d : Display) (n k : Nat) :
    d.afterDots (n + k) = (d.afterDots n).afterDots k := by
  induction n generalizing d with
  | zero => rw [Nat.zero_add]; rfl
  | succ n ih => rw [Nat.succ_add]; exact ih d.dot

theorem entered_add (d : Display) (n k : Nat) :
    d.entered (n + k) = d.entered n ++ (d.afterDots n).entered k := by
  induction n generalizing d with
  | zero => rw [Nat.zero_add]; rfl
  | succ n ih =>
    rw [Nat.succ_add]
    simp only [entered, afterDots, ih]
    split <;> simp

theorem afterDots_raised (d : Display) (r : Bool) (n : Nat) :
    { d with raised := r }.afterDots n = { d.afterDots n with raised := r } := by
  induction n generalizing d with
  | zero => rfl
  | succ n ih =>
    have hDot : { d with raised := r }.dot = { d.dot with raised := r } := by
      unfold dot
      split <;> rfl
    rw [afterDots, hDot, ih]
    rfl

theorem entered_raised (d : Display) (r : Bool) (n : Nat) :
    { d with raised := r }.entered n = d.entered n := by
  induction n generalizing d with
  | zero => rfl
  | succ n ih =>
    have hDot : { d with raised := r }.dot = { d.dot with raised := r } := by
      unfold dot
      split <;> rfl
    simp only [entered, hDot, ih]
    rfl

theorem afterDots_of_lt {d : Display} {n : Nat} (h : d.dots + n < d.phase.budget) :
    d.afterDots n = { d with dots := d.dots + n } ∧ d.entered n = [] := by
  induction n generalizing d with
  | zero => exact ⟨rfl, rfl⟩
  | succ n ih =>
    have hDot : d.dot = { d with dots := d.dots + 1 } := if_pos (by omega)
    have hRest : d.dot.dots + n < d.dot.phase.budget := by
      rw [hDot]
      change d.dots + 1 + n < d.phase.budget
      omega
    obtain ⟨hAfter, hEntered⟩ := ih hRest
    constructor
    · rw [afterDots, hAfter, hDot]
      simp only [Nat.add_assoc, Nat.add_comm 1 n]
    · rw [entered, if_pos (by omega), hEntered]

/-- The dots that are left of a phase lead to the next one. -/
theorem afterDots_remaining {d : Display} (h : d.dots < d.phase.budget) :
    d.afterDots (d.phase.budget - d.dots) = d.nextPhase ∧
      d.entered (d.phase.budget - d.dots) = [d.next] := by
  obtain ⟨n, hn⟩ : ∃ n, d.phase.budget - d.dots = n + 1 := ⟨d.phase.budget - d.dots - 1, by omega⟩
  obtain ⟨hAfter, hEntered⟩ := afterDots_of_lt (d := d) (n := n) (by omega)
  have hLast : ¬ d.dots + n + 1 < d.phase.budget := by omega
  rw [hn, afterDots_add, entered_add, hAfter, hEntered]
  constructor
  · exact if_neg hLast
  · exact if_neg hLast

theorem afterDots_of_le {d : Display} {n : Nat} (h : d.dots < d.phase.budget)
    (hn : d.phase.budget - d.dots ≤ n) :
    d.afterDots n = d.nextPhase.afterDots (n - (d.phase.budget - d.dots)) ∧
      d.entered n = d.next :: d.nextPhase.entered (n - (d.phase.budget - d.dots)) := by
  obtain ⟨k, rfl⟩ := Nat.exists_eq_add_of_le hn
  obtain ⟨hAfter, hEntered⟩ := afterDots_remaining h
  rw [afterDots_add, entered_add, hAfter, hEntered, Nat.add_sub_cancel_left]
  exact ⟨rfl, rfl⟩

theorem getLast?_entered (d : Display) (n : Nat) :
    (d.shown :: d.entered n).getLast? = some (d.afterDots n).shown := by
  induction n generalizing d with
  | zero => rfl
  | succ n ih =>
    rw [entered, afterDots, ← ih]
    split
    next h =>
      have hShown : d.dot.shown = d.shown := by rw [dot, if_pos h]; rfl
      rw [hShown]
    next h =>
      have hShown : d.dot.shown = d.next := by rw [dot, if_neg h, shown_nextPhase]
      rw [hShown, List.getLast?_cons_cons]

theorem next_cases (d : Display) :
    (d.phase = .oamScan ∧ d.next = (.drawing, d.line)) ∨
    (d.phase = .drawing ∧ d.next = (.hblank, d.line)) ∨
    (d.phase = .hblank ∧ d.line.toNat = 143 ∧ d.next = (.vblank, 144)) ∨
    (d.phase = .hblank ∧ d.line.toNat ≠ 143 ∧ d.next = (.oamScan, d.line + 1)) ∨
    (d.phase = .vblank ∧ d.line.toNat = 153 ∧ d.next = (.oamScan, 0)) ∨
    (d.phase = .vblank ∧ d.line.toNat ≠ 153 ∧ d.next = (.vblank, d.line + 1)) := by
  obtain ⟨phase, dots, line, raised⟩ := d
  have hLine (n : UInt8) : line = n ↔ line.toNat = n.toNat := UInt8.toNat_inj.symm
  cases phase with
  | oamScan => exact .inl ⟨rfl, rfl⟩
  | drawing => exact .inr (.inl ⟨rfl, rfl⟩)
  | hblank =>
    by_cases h : line = 143
    · subst h
      exact .inr (.inr (.inl ⟨rfl, rfl, rfl⟩))
    · exact .inr (.inr (.inr (.inl ⟨rfl, mt (hLine 143).mpr h, if_neg h⟩)))
  | vblank =>
    by_cases h : line = 153
    · subst h
      exact .inr (.inr (.inr (.inr (.inl ⟨rfl, rfl, rfl⟩))))
    · exact .inr (.inr (.inr (.inr (.inr ⟨rfl, mt (hLine 153).mpr h, if_neg h⟩))))

theorem toNat_line_succ (line : UInt8) : (line + 1).toNat = (line.toNat + 1) % 256 :=
  UInt8.toNat_add line 1

theorem InPhase.nextPhase {d : Display} (h : d.InPhase) : d.nextPhase.InPhase := by
  refine ⟨d.dots_lt_nextPhase, ?_⟩
  have hBlank := h.vblank_iff
  have hByte := d.line.toNat_lt
  change d.next.1 = .vblank ↔ 144 ≤ d.next.2.toNat ∧ d.next.2.toNat ≤ 153
  rcases next_cases d with ⟨hPhase, hNext⟩ | ⟨hPhase, hNext⟩ | ⟨hPhase, -, hNext⟩ |
    ⟨hPhase, hLine, hNext⟩ | ⟨hPhase, -, hNext⟩ | ⟨hPhase, hLine, hNext⟩
  all_goals
    simp only [hPhase, reduceCtorEq, true_iff, false_iff] at hBlank
    simp only [hNext, reduceCtorEq, true_iff, false_iff, toNat_line_succ]
  · exact hBlank
  · exact hBlank
  · decide
  · omega
  · decide
  · omega

theorem InRange.nextPhase {d : Display} (h : d.InRange) : d.nextPhase.InRange := by
  have hBlank := h.vblank_iff
  have hPhase := h.inPhase.nextPhase
  have hNext : d.nextPhase.line.toNat ≤ 153 := by
    have hLine := h.line_le
    change d.next.2.toNat ≤ 153
    rcases next_cases d with ⟨_, hNext⟩ | ⟨_, hNext⟩ | ⟨_, _, hNext⟩ | ⟨hPhase, _, hNext⟩ |
      ⟨_, _, hNext⟩ | ⟨_, _, hNext⟩
    all_goals rw [hNext]
    · exact hLine
    · exact hLine
    · decide
    · simp only [hPhase, reduceCtorEq, false_iff] at hBlank
      rw [toNat_line_succ]
      omega
    · decide
    · rw [toNat_line_succ]
      omega
  exact ⟨hPhase.dots_lt, hNext, hPhase.vblank_iff.trans ⟨And.left, fun h => ⟨h, hNext⟩⟩⟩

theorem InPhase.dot {d : Display} (h : d.InPhase) : d.dot.InPhase := by
  unfold Display.dot
  split
  next hDots => exact ⟨hDots, h.vblank_iff⟩
  next => exact h.nextPhase

theorem InRange.dot {d : Display} (h : d.InRange) : d.dot.InRange := by
  unfold Display.dot
  split
  next hDots => exact ⟨hDots, h.line_le, h.vblank_iff⟩
  next => exact h.nextPhase

theorem InPhase.afterDots {d : Display} (h : d.InPhase) (n : Nat) : (d.afterDots n).InPhase := by
  induction n generalizing d with
  | zero => exact h
  | succ n ih => exact ih h.dot

theorem InRange.afterDots {d : Display} (h : d.InRange) (n : Nat) : (d.afterDots n).InRange := by
  induction n generalizing d with
  | zero => exact h
  | succ n ih => exact ih h.dot

theorem InRange.position_lt {d : Display} (h : d.InRange) : d.position < 70224 := by
  obtain ⟨hDots, hLine, -⟩ := h
  have hStart : phaseStart d.phase + d.phase.budget ≤ 456 := by
    cases d.phase <;> decide
  simp only [position, dotsPerLine]
  omega

/-- A phase begins where the one before it ends. Only behind the last line does the position
drop. -/
theorem InRange.position_nextPhase {d : Display} (h : d.InRange) :
    d.nextPhase.position = (d.position + (d.phase.budget - d.dots)) % 70224 := by
  obtain ⟨hDots, hLine, hBlank⟩ := h
  have hNextPhase : d.nextPhase.position =
      456 * d.next.2.toNat + phaseStart d.next.1 := rfl
  rw [hNextPhase]
  simp only [position, dotsPerLine]
  rcases next_cases d with ⟨hPhase, hNext⟩ | ⟨hPhase, hNext⟩ | ⟨hPhase, hLast, hNext⟩ |
    ⟨hPhase, hLast, hNext⟩ | ⟨hPhase, hLast, hNext⟩ | ⟨hPhase, hLast, hNext⟩
  all_goals
    simp only [hPhase, reduceCtorEq, true_iff, false_iff, Phase.budget] at hBlank hDots
    simp only [hPhase, hNext, phaseStart, Phase.budget, toNat_line_succ]
  · omega
  · omega
  · rw [hLast]
    change 456 * 144 + 0 = _
    omega
  · omega
  · rw [hLast]
    change 456 * 0 + 0 = _
    omega
  · omega

theorem InRange.position_dot {d : Display} (h : d.InRange) :
    d.dot.position = (d.position + 1) % 70224 := by
  have hBudget := h.dots_lt
  rcases Nat.lt_or_ge (d.dots + 1) d.phase.budget with hDots | hDots
  · have hDot : d.dot = { d with dots := d.dots + 1 } := if_pos hDots
    have hLt := h.dot.position_lt
    have hPosition : d.dot.position = d.position + 1 := by rw [hDot]; rfl
    rw [Nat.mod_eq_of_lt (by omega), hPosition]
  · have hDot : d.dot = d.nextPhase := if_neg (Nat.not_lt_of_le hDots)
    have hLast : d.phase.budget - d.dots = 1 := by omega
    rw [hDot, h.position_nextPhase, hLast]

theorem InRange.position_afterDots {d : Display} (h : d.InRange) (n : Nat) :
    (d.afterDots n).position = (d.position + n) % 70224 := by
  induction n generalizing d with
  | zero => exact (Nat.mod_eq_of_lt h.position_lt).symm
  | succ n ih =>
    rw [Display.afterDots, ih h.dot, h.position_dot, Nat.mod_add_mod, Nat.add_assoc,
      Nat.add_comm 1 n]

/-- Whether line 144 is entered from line 143 while dots pass. -/
def EntersVBlank (d : Display) (n : Nat) : Prop :=
  (143, 144) ∈ successive d.line ((d.entered n).map Prod.snd)

instance (d : Display) (n : Nat) : Decidable (d.EntersVBlank n) :=
  inferInstanceAs (Decidable (_ ∈ _))

theorem entersVBlank_raised (d : Display) (r : Bool) (n : Nat) :
    { d with raised := r }.EntersVBlank n ↔ d.EntersVBlank n := by
  unfold EntersVBlank
  rw [entered_raised]

theorem not_entersVBlank_of_lt {d : Display} {n : Nat} (h : d.dots + n < d.phase.budget) :
    ¬ d.EntersVBlank n := by
  rw [EntersVBlank, (afterDots_of_lt h).2]
  exact List.not_mem_nil

theorem InPhase.beforeVBlank_iff {d : Display} (h : d.InPhase) :
    d.beforeVBlank = true ↔ d.line = 143 ∧ d.next.2 = 144 := by
  have hBlank := h.vblank_iff
  have hLine (n : UInt8) : d.line = n ↔ d.line.toNat = n.toNat := UInt8.toNat_inj.symm
  have h143 : (143 : UInt8).toNat = 143 := rfl
  simp only [beforeVBlank, visibleLines, Bool.and_eq_true, beq_iff_eq]
  change d.phase = .hblank ∧ d.line = 143 ↔ _
  constructor
  · rintro ⟨hPhase, hLast⟩
    refine ⟨hLast, ?_⟩
    simp [next, hPhase, hLast, visibleLines]
  · rintro ⟨hLast, hNext⟩
    refine ⟨?_, hLast⟩
    rw [hLast, h143] at hBlank
    rcases next_cases d with ⟨_, hEq⟩ | ⟨_, hEq⟩ | ⟨hPhase, _⟩ | ⟨hPhase, _⟩ | ⟨hPhase, _⟩ |
      ⟨hPhase, _⟩
    · rw [hEq, hLast] at hNext
      exact absurd hNext (by decide)
    · rw [hEq, hLast] at hNext
      exact absurd hNext (by decide)
    · exact hPhase
    · exact hPhase
    · exact absurd (hBlank.mp hPhase) (by decide)
    · exact absurd (hBlank.mp hPhase) (by decide)

theorem InPhase.entersVBlank_of_le {d : Display} (h : d.InPhase) {n : Nat}
    (hn : d.phase.budget - d.dots ≤ n) :
    d.EntersVBlank n ↔ d.beforeVBlank = true ∨
      d.nextPhase.EntersVBlank (n - (d.phase.budget - d.dots)) := by
  rw [EntersVBlank, (afterDots_of_le h.dots_lt hn).2, h.beforeVBlank_iff]
  simp only [List.map_cons, successive_cons, List.mem_cons, Prod.mk.injEq]
  exact or_congr_left ⟨fun ⟨a, b⟩ => ⟨a.symm, b.symm⟩, fun ⟨a, b⟩ => ⟨a.symm, b.symm⟩⟩

theorem beforeVBlank_eq_true_iff (d : Display) :
    d.beforeVBlank = true ↔ d.phase = .hblank ∧ d.line.toNat = 143 := by
  have hLine : d.line = 143 ↔ d.line.toNat = 143 := UInt8.toNat_inj.symm
  rw [← hLine, beforeVBlank, Bool.and_eq_true, beq_iff_eq, beq_iff_eq]
  rfl

theorem InPhase.entersVBlank_succ {d : Display} (h : d.InPhase) (n : Nat) :
    d.EntersVBlank (n + 1) ↔
      (d.dots + 1 = d.phase.budget ∧ d.beforeVBlank = true) ∨ d.dot.EntersVBlank n := by
  have hBudget := h.dots_lt
  rcases Nat.lt_or_ge (d.dots + 1) d.phase.budget with hDots | hDots
  · have hDot : d.dot.line = d.line := by rw [Display.dot, if_pos hDots]
    rw [EntersVBlank, EntersVBlank, entered, if_pos hDots, hDot]
    exact ⟨.inr, fun hOr => hOr.resolve_left fun hLast => by omega⟩
  · have hDot : d.dot = d.nextPhase := if_neg (Nat.not_lt_of_le hDots)
    rw [h.entersVBlank_of_le (by omega), hDot]
    have hLast : d.dots + 1 = d.phase.budget := by omega
    have hRest : n + 1 - (d.phase.budget - d.dots) = n := by omega
    rw [hRest]
    exact or_congr_left ⟨fun hBlank => ⟨hLast, hBlank⟩, And.right⟩

theorem InRange.last_dot_iff {d : Display} (h : d.InRange) :
    (d.dots + 1 = d.phase.budget ∧ d.beforeVBlank = true) ↔ (d.position + 1) % 70224 = 65664 := by
  have hLt := h.position_lt
  obtain ⟨hDots, hLine, hBlank⟩ := h
  rw [beforeVBlank_eq_true_iff]
  obtain ⟨phase, dots, line, raised⟩ := d
  simp only [position, dotsPerLine] at hLt ⊢
  cases phase with
  | hblank =>
    simp only [phaseStart, Phase.budget, reduceCtorEq, false_iff, true_and] at *
    omega
  | vblank =>
    simp only [phaseStart, Phase.budget, reduceCtorEq, true_iff, false_and, and_false,
      false_iff] at *
    omega
  | oamScan =>
    simp only [phaseStart, Phase.budget, reduceCtorEq, false_iff, false_and, and_false] at *
    omega
  | drawing =>
    simp only [phaseStart, Phase.budget, reduceCtorEq, false_iff, false_and, and_false] at *
    omega

/-- The vertical blank is entered when the position passes the end of line 143: by the first dot, or
by a later one that is counted from the second one on. -/
theorem InRange.entersVBlank_iff {d : Display} (h : d.InRange) (n : Nat) :
    d.EntersVBlank n ↔ ∃ j, 0 < j ∧ j ≤ n ∧ (d.position + j) % 70224 = 65664 := by
  induction n generalizing d with
  | zero =>
    refine iff_of_false List.not_mem_nil ?_
    rintro ⟨j, hPos, hLe, -⟩
    omega
  | succ n ih =>
    rw [h.inPhase.entersVBlank_succ, h.last_dot_iff, ih h.dot, h.position_dot]
    constructor
    · rintro (hFirst | ⟨j, -, hLe, hLater⟩)
      · exact ⟨1, by decide, by omega, hFirst⟩
      · refine ⟨j + 1, by omega, by omega, ?_⟩
        rwa [Nat.mod_add_mod, Nat.add_assoc, Nat.add_comm 1 j] at hLater
    · rintro ⟨j, hPos, hLe, hLater⟩
      by_cases hFirst : j = 1
      · exact .inl (hFirst ▸ hLater)
      · refine .inr ⟨j - 1, by omega, by omega, ?_⟩
        rw [Nat.mod_add_mod, Nat.add_assoc, show 1 + (j - 1) = j by omega]
        exact hLater

end Display
end DotMatrix
