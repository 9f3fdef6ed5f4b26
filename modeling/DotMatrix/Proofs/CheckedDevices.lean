import DotMatrix.Proofs.CheckedBus

/-!
# Checked devices

Display and timer once more, with every sum, difference and product checked against the width of the
word that holds it. In range, the checks do not fail.
-/

namespace DotMatrix

variable {M : Type} [OnBus M]

namespace Display

open Width

/-- The phase and the scanline that follow, where the scanline is a word of eight bits. -/
def next? (d : Display) : Option (Phase × UInt8) :=
  match d.phase with
  | .oamScan => some (.drawing, d.line)
  | .drawing => some (.hblank, d.line)
  | .hblank => do
    let line ← add? 8 d.line.toNat 1
    some (if d.line = visibleLines - 1 then .vblank else .oamScan, UInt8.ofNat line)
  | .vblank =>
    if d.line = lastLine then some (.oamScan, 0)
    else do
      let line ← add? 8 d.line.toNat 1
      some (.vblank, UInt8.ofNat line)

def enterNext? (d : Display) (m : M) : Option (Display × M) := do
  let following ← d.next?
  let m :=
    if d.beforeVBlank then Memory.request (Memory.note m .enteringVBlank) .vblank else m
  some ({ d with phase := following.1, dots := 0, line := following.2 }, m)

/-- There is no result if the rounds do not suffice. -/
def spend? (d : Display) (m : M) (dots : Nat) : Nat → Option (Progress M)
  | 0 => none
  | rounds + 1 => do
    let remaining ← sub? d.phase.budget d.dots
    if dots < remaining then
      let elapsed ← add? 16 d.dots dots
      some ⟨{ d with dots := elapsed }, m, false⟩
    else
      let dots ← sub? dots remaining
      let entered := d.beforeVBlank
      let (d, m) ← d.enterNext? m
      let (d, m) := d.refresh m
      let rest ← d.spend? m dots rounds
      some { rest with enteredVBlank := entered || rest.enteredVBlank }

def advance? (d : Display) (m : M) (cycles : Nat) : Option (Progress M) := do
  let (d, m) := d.refresh m
  let dots ← mul? 16 cycles dotsPerCycle
  let p ← d.spend? m dots (dots + 2)
  let (d, m) := p.display.refresh p.memory
  some ⟨d, m, p.enteredVBlank⟩

theorem InRange.next?_eq {d : Display} (h : d.InRange) : d.next? = some d.next := by
  have hLine := h.line_le
  have hAdd : add? 8 d.line.toNat 1 = some (d.line.toNat + 1) := add?_eq (by omega)
  have hSucc : UInt8.ofNat (d.line.toNat + 1) = d.line + 1 := by
    rw [UInt8.ofNat_add, UInt8.ofNat_toNat]
    rfl
  obtain ⟨phase, dots, line, raised⟩ := d
  cases phase with
  | oamScan => rfl
  | drawing => rfl
  | hblank =>
    simp only [next?, next, hAdd, hSucc, Option.bind_eq_bind, Option.bind_some]
    split <;> rfl
  | vblank =>
    simp only [next?, next, hAdd, hSucc, Option.bind_eq_bind, Option.bind_some]
    split <;> rfl

theorem InRange.enterNext?_eq {d : Display} (h : d.InRange) (m : M) :
    d.enterNext? m = some (d.enterNext m) := by
  rw [enterNext?, h.next?_eq]
  rfl

theorem InRange.refresh {d : Display} (h : d.InRange) (m : M) : (d.refresh m).1.InRange :=
  ⟨h.dots_lt, h.line_le, h.vblank_iff⟩

/-- A round that leaves its phase spends at least one dot, so the rounds outlast the dots. -/
theorem InRange.spend?_eq {d : Display} (h : d.InRange) {m : M} {dots rounds : Nat}
    (hRounds : dots < rounds) (hWord : dots ≤ 1024) :
    d.spend? m dots rounds = some (d.spend m dots rounds) := by
  induction rounds generalizing d m dots with
  | zero => exact absurd hRounds (Nat.not_lt_zero _)
  | succ rounds ih =>
    have hDots := h.dots_lt
    have hBudget : d.phase.budget ≤ 456 := by cases d.phase <;> decide
    rw [spend?, spend, sub?_eq (Nat.le_of_lt hDots), Option.bind_eq_bind, Option.bind_some]
    rcases Nat.lt_or_ge dots (d.phase.budget - d.dots) with hLt | hGe
    · rw [if_pos hLt, if_pos hLt, add?_eq (by omega)]
      rfl
    · have hNext : (d.enterNext m).1.InRange := h.nextPhase
      have hLess : dots - (d.phase.budget - d.dots) < rounds := by omega
      have hRest (m₁ : M) := ih (hNext.refresh (d.enterNext m).2) (m := m₁) hLess (by omega)
      simp only [if_neg (Nat.not_lt_of_le hGe), sub?_eq hGe, h.enterNext?_eq, Option.bind_eq_bind,
        Option.bind_some, hRest]

/-- No word of the display overflows in as many cycles as a byte can count. -/
theorem InRange.advance?_eq {d : Display} (h : d.InRange) (m : M) {cycles : Nat}
    (hCycles : cycles < 256) : d.advance? m cycles = some (d.advance m cycles) := by
  have hMul : mul? 16 cycles dotsPerCycle = some (cycles * dotsPerCycle) :=
    mul?_eq (by change cycles * 4 < 65536; omega)
  have hSpend := (h.refresh m).spend?_eq (m := (d.refresh m).2)
    (Nat.lt_add_of_pos_right (n := cycles * dotsPerCycle) (k := 2) (by decide))
    (by change cycles * 4 ≤ 1024; omega)
  simp only [advance?, Display.advance, hMul, hSpend, Option.bind_eq_bind, Option.bind_some]

end Display

namespace Timer

open Width

def advanceDivider? (t : Timer) (m : M) : Option (Timer × M) := do
  let count ← add? 8 t.sinceDivider 1
  if count = dividerPeriod then
    let v := Memory.read m Address.divider + 1
    some ({ t with sinceDivider := 0 }, OnBus.mapBus m (·.setDivider v))
  else some ({ t with sinceDivider := count }, m)

def advanceCounter? (t : Timer) (m : M) : Option (Timer × M) :=
  let control := Memory.read m Address.timerControl
  if enabled control then do
    let count ← add? 16 t.sinceCounter 1
    if period control ≤ count then some ({ t with sinceCounter := 0 }, stepCounter m)
    else some ({ t with sinceCounter := count }, m)
  else some (t, m)

def tick? (t : Timer) (m : M) : Option (Timer × M) := do
  let (t, m) ← t.advanceDivider? m
  t.advanceCounter? m

def ticks? (t : Timer) (m : M) : Nat → Option (Timer × M)
  | 0 => some (t, m)
  | n + 1 => do
    let (t, m) ← t.tick? m
    t.ticks? m n

def advance? (t : Timer) (m : M) (cycles : Nat) : Option (Timer × M) :=
  let (t, m) := t.acceptReset m
  t.ticks? m cycles

variable {t : Timer}

theorem InRange.advanceDivider?_eq (h : t.InRange) (m : M) :
    t.advanceDivider? m = some (t.advanceDivider m) := by
  have hDivider := h.sinceDivider_lt
  rw [advanceDivider?, Timer.advanceDivider, add?_eq (by omega), Option.bind_eq_bind,
    Option.bind_some]
  split <;> rfl

theorem InRange.advanceCounter?_eq (h : t.InRange) (m : M) :
    t.advanceCounter? m = some (t.advanceCounter m) := by
  have hCounter := h.sinceCounter_lt
  simp only [advanceCounter?, Timer.advanceCounter]
  split
  next =>
    rw [add?_eq (by omega), Option.bind_eq_bind, Option.bind_some]
    split <;> rfl
  next => rfl

theorem InRange.tick?_eq (h : t.InRange) (m : M) : t.tick? m = some (t.tick m) := by
  rw [tick?, h.advanceDivider?_eq, Option.bind_eq_bind, Option.bind_some]
  exact (h.advanceDivider m).advanceCounter?_eq _

theorem InRange.ticks?_eq (h : t.InRange) (m : M) (n : Nat) :
    t.ticks? m n = some (t.ticks m n) := by
  induction n generalizing t m with
  | zero => rfl
  | succ n ih =>
    rw [ticks?, h.tick?_eq, Option.bind_eq_bind, Option.bind_some]
    exact ih (h.tick m) _

theorem InRange.advance?_eq (h : t.InRange) (m : M) (cycles : Nat) :
    t.advance? m cycles = some (t.advance m cycles) :=
  (h.acceptReset m).ticks?_eq _ cycles

end Timer
end DotMatrix
