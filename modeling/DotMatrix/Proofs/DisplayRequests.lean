import DotMatrix.Proofs.DeviceWrites
import DotMatrix.Proofs.DisplayTime

/-!
# The requests of the display

`advance_eq` states in closed form what a call does: the bus shows the last phase that was entered,
and the requests are those of all phases on the way. The enable bits and the scanline compared with
are read from the bus as the call finds it, since the call changes neither.
-/

namespace DotMatrix.Display

/-- The combined interrupt of a phase and its scanline, an OR of four sources that the status
enables one by one. -/
def level (lineCompared status : UInt8) (s : Phase × UInt8) : Bool :=
  (decide (s.2 = lineCompared) && Byte.bit status 6) ||
    (decide (s.1 = .hblank) && Byte.bit status 3) ||
    (decide (s.1 = .vblank) && Byte.bit status 4) ||
    (decide (s.1 = .oamScan) && Byte.bit status 5)

theorem signal_eq_level (s : Phase × UInt8) (lineCompared status : UInt8) :
    signal s.1 (s.2 == lineCompared) status = level lineCompared status s := by
  obtain ⟨phase, line⟩ := s
  have hLine : (line == lineCompared) = decide (line = lineCompared) := rfl
  cases phase <;> simp [signal, level, Phase.raises, hLine]

/-- The level under what the bus holds. -/
def levelOn (b : Bus) (s : Phase × UInt8) : Bool :=
  level (b.store.get Address.lcdYCompare) (b.store.get Address.lcdStatus) s

theorem level_blend (lineCompared status bits : UInt8) (s : Phase × UInt8) :
    level lineCompared (Byte.blend status Bus.statusDisplay bits) s =
      level lineCompared status s := by
  have hBit (i : Nat) (h : 3 ≤ i) :
      Byte.bit (Byte.blend status Bus.statusDisplay bits) i = Byte.bit status i :=
    Byte.bit_blend_of_clear _ _ (Byte.bit_of_lt (k := 3) (by decide) h)
  simp only [level, hBit 3 (by decide), hBit 4 (by decide), hBit 5 (by decide), hBit 6 (by decide)]

@[simp] theorem levelOn_withStatus (b : Bus) (s : Phase × UInt8) :
    levelOn (b.withStatus s) = levelOn b := by
  funext t
  rw [levelOn, Bus.get_withStatus, Bus.get_withStatus, if_neg (by decide), if_neg (by decide),
    if_pos rfl, level_blend]
  rfl

@[simp] theorem levelOn_addRequests (b : Bus) (mask : UInt8) :
    levelOn (b.addRequests mask) = levelOn b := by
  funext t
  rw [levelOn, Bus.get_addRequests, Bus.get_addRequests, if_neg (by decide), if_neg (by decide)]
  rfl

/-- Whether one of the levels is high behind a low one. -/
def rises (raised : Bool) : List Bool → Bool
  | [] => false
  | level :: levels => (level && !raised) || rises level levels

theorem rises_eq_true_iff (raised : Bool) (levels : List Bool) :
    rises raised levels = true ↔ (false, true) ∈ successive raised levels := by
  induction levels generalizing raised with
  | nil => exact iff_of_false Bool.false_ne_true List.not_mem_nil
  | cons level levels ih =>
    rw [rises, Bool.or_eq_true, ih, successive_cons, List.mem_cons]
    cases raised <;> cases level <;> simp

/-- The requests that come with a rising interrupt and with the vertical blank. -/
def requests (rising blank : Bool) : UInt8 :=
  (if rising then Interrupt.lcd.mask else 0) ||| (if blank then Interrupt.vblank.mask else 0)

theorem requests_or (a b c d : Bool) :
    requests a c ||| requests b d = requests (a || b) (c || d) := by
  cases a <;> cases b <;> cases c <;> cases d <;> decide

/-- The display with its interrupt as the bus has it. -/
def upToDate (d : Display) (b : Bus) : Display :=
  { d with raised := levelOn b d.shown }

@[simp] theorem upToDate_withStatus (d : Display) (b : Bus) (s : Phase × UInt8) :
    d.upToDate (b.withStatus s) = d.upToDate b := by
  rw [upToDate, levelOn_withStatus]
  rfl

@[simp] theorem upToDate_addRequests (d : Display) (b : Bus) (mask : UInt8) :
    d.upToDate (b.addRequests mask) = d.upToDate b := by
  rw [upToDate, levelOn_addRequests]
  rfl

theorem refresh_eq (d : Display) (b : Bus) :
    d.refresh b = (d.upToDate b,
      (b.addRequests (requests (levelOn b d.shown && !d.raised) false)).withStatus d.shown) := by
  have hLevel : signal d.phase (d.line == b.store.get Address.lcdYCompare)
      ((b.withStatus d.shown).store.get Address.lcdStatus) = levelOn b d.shown := by
    have hCompared : (b.withStatus d.shown).store.get Address.lcdYCompare =
        b.store.get Address.lcdYCompare := by
      rw [Bus.get_withStatus, if_neg (by decide), if_neg (by decide)]
    rw [← levelOn_withStatus b d.shown, levelOn, hCompared]
    exact signal_eq_level d.shown _ _
  have hRefresh : d.refresh b = (d.upToDate b,
      if levelOn b d.shown && !d.raised then Memory.request (b.withStatus d.shown) .lcd
      else b.withStatus d.shown) := by
    rw [upToDate, ← hLevel]
    rfl
  rw [hRefresh, ← Bus.addRequests_withStatus]
  cases levelOn b d.shown && !d.raised with
  | false => exact congrArg (Prod.mk _) (Bus.addRequests_zero _).symm
  | true => exact congrArg (Prod.mk _) (Bus.request_eq _ .lcd)

theorem refresh_upToDate (d : Display) (b : Bus) :
    (d.upToDate b).refresh (b.withStatus d.shown) = (d.upToDate b, b.withStatus d.shown) := by
  have hNone : requests (levelOn b d.shown && !levelOn b d.shown) false = 0 := by
    rw [Bool.and_not_self]
    decide
  rw [refresh_eq, upToDate_withStatus, levelOn_withStatus]
  change (d.upToDate b, ((b.withStatus d.shown).addRequests
    (requests (levelOn b d.shown && !levelOn b d.shown) false)).withStatus d.shown) = _
  rw [hNone, Bus.addRequests_zero, Bus.withStatus_withStatus]

theorem enterNext_eq (d : Display) (b : Bus) :
    d.enterNext b = (d.nextPhase, b.addRequests (requests false d.beforeVBlank)) := by
  have hEnter : d.enterNext b =
      (d.nextPhase, if d.beforeVBlank then Memory.request b .vblank else b) := rfl
  rw [hEnter]
  cases d.beforeVBlank with
  | false => exact congrArg (Prod.mk _) b.addRequests_zero.symm
  | true => exact congrArg (Prod.mk _) (b.request_eq .vblank)

theorem InPhase.decide_entersVBlank {d : Display} (h : d.InPhase) {n : Nat}
    (hn : d.phase.budget - d.dots ≤ n) :
    decide (d.EntersVBlank n) =
      (d.beforeVBlank || decide (d.nextPhase.EntersVBlank (n - (d.phase.budget - d.dots)))) := by
  rw [Bool.eq_iff_iff, decide_eq_true_iff, h.entersVBlank_of_le hn, Bool.or_eq_true,
    decide_eq_true_iff]

/-- What the bus gains when the display leaves its phase. -/
def leaving (d : Display) (b : Bus) : UInt8 :=
  requests (levelOn b d.next && !levelOn b d.shown) d.beforeVBlank

theorem spend_of_lt {d : Display} {b : Bus} {dots rounds : Nat}
    (hDots : dots < d.phase.budget - d.dots) :
    (d.upToDate b).spend (b.withStatus d.shown) dots (rounds + 1) =
      ⟨{ d with dots := d.dots + dots }.upToDate b, b.withStatus d.shown, false⟩ :=
  if_pos hDots

theorem spend_of_not_lt {d : Display} {b : Bus} {dots rounds : Nat}
    (hDots : ¬ dots < d.phase.budget - d.dots) :
    (d.upToDate b).spend (b.withStatus d.shown) dots (rounds + 1) =
      let rest := (d.nextPhase.upToDate b).spend
        ((b.addRequests (d.leaving b)).withStatus d.next) (dots - (d.phase.budget - d.dots)) rounds
      { rest with enteredVBlank := d.beforeVBlank || rest.enteredVBlank } := by
  have hEnter : (d.upToDate b).enterNext (b.withStatus d.shown) =
      ((d.upToDate b).nextPhase,
        (b.addRequests (requests false d.beforeVBlank)).withStatus d.shown) := by
    rw [enterNext_eq, Bus.addRequests_withStatus]
    rfl
  have hRequests : requests false d.beforeVBlank |||
      requests (levelOn b d.next && !levelOn b d.shown) false = d.leaving b := by
    rw [requests_or, Bool.false_or, Bool.or_false]
    rfl
  have hRefresh : (d.upToDate b).nextPhase.refresh
      ((b.addRequests (requests false d.beforeVBlank)).withStatus d.shown) =
        (d.nextPhase.upToDate b, (b.addRequests (d.leaving b)).withStatus d.next) := by
    rw [refresh_eq, upToDate_withStatus, upToDate_addRequests, levelOn_withStatus,
      levelOn_addRequests, Bus.addRequests_withStatus, Bus.withStatus_withStatus,
      Bus.addRequests_addRequests, ← hRequests]
    rfl
  have hBudget : ¬ dots < (d.upToDate b).phase.budget - (d.upToDate b).dots := hDots
  rw [spend, if_neg hBudget, hEnter]
  simp only [hRefresh]
  rfl

/-- Spending dots from an up to date status leaves it up to date, and adds the requests of every
phase that is entered. Between two rounds interrupt and status are up to date with the phase that
was entered last. -/
theorem InPhase.spend_eq {d : Display} (h : d.InPhase) (b : Bus) {dots rounds : Nat}
    (hRounds : dots < rounds) :
    (d.upToDate b).spend (b.withStatus d.shown) dots rounds =
      { display := (d.afterDots dots).upToDate b
        memory :=
          (b.addRequests (requests (rises (levelOn b d.shown) ((d.entered dots).map (levelOn b)))
            (decide (d.EntersVBlank dots)))).withStatus (d.afterDots dots).shown
        enteredVBlank := decide (d.EntersVBlank dots) } := by
  induction rounds generalizing d b dots with
  | zero => exact absurd hRounds (Nat.not_lt_zero _)
  | succ rounds ih =>
    have hBudget := h.dots_lt
    rcases Nat.lt_or_ge dots (d.phase.budget - d.dots) with hDots | hDots
    · obtain ⟨hAfter, hEntered⟩ := afterDots_of_lt (d := d) (n := dots) (by omega)
      have hBlank : decide (d.EntersVBlank dots) = false :=
        decide_eq_false (not_entersVBlank_of_lt (by omega))
      have hNone : requests (rises (levelOn b d.shown) []) false = 0 :=
        (by decide : requests false false = 0)
      rw [spend_of_lt hDots, hAfter, hEntered, hBlank, List.map_nil, hNone, Bus.addRequests_zero]
      rfl
    · obtain ⟨hAfter, hEntered⟩ := afterDots_of_le hBudget hDots
      have hRest := ih h.nextPhase (b.addRequests (d.leaving b))
        (show dots - (d.phase.budget - d.dots) < rounds by omega)
      rw [upToDate_addRequests, upToDate_addRequests, levelOn_addRequests,
        Bus.addRequests_addRequests, leaving, requests_or, shown_nextPhase] at hRest
      rw [spend_of_not_lt (Nat.not_lt_of_le hDots), hAfter, hEntered, List.map_cons, rises,
        h.decide_entersVBlank hDots]
      exact congrArg (fun p : Progress Bus =>
        { p with enteredVBlank := d.beforeVBlank || p.enteredVBlank }) hRest

/-- Moving the display on, in closed form. -/
theorem InPhase.advance_eq {d : Display} (h : d.InPhase) (b : Bus) (cycles : Nat) :
    d.advance b cycles =
      { display := (d.afterDots (4 * cycles)).upToDate b
        memory :=
          (b.addRequests (requests
            (rises d.raised ((d.shown :: d.entered (4 * cycles)).map (levelOn b)))
            (decide (d.EntersVBlank (4 * cycles))))).withStatus (d.afterDots (4 * cycles)).shown
        enteredVBlank := decide (d.EntersVBlank (4 * cycles)) } := by
  have hDots : cycles * dotsPerCycle = 4 * cycles := Nat.mul_comm _ _
  have hSpend := h.spend_eq (b.addRequests (requests (levelOn b d.shown && !d.raised) false))
    (show 4 * cycles < 4 * cycles + 2 by omega)
  rw [upToDate_addRequests, upToDate_addRequests, levelOn_addRequests,
    Bus.addRequests_addRequests, requests_or, Bool.false_or] at hSpend
  have hLast (mask : UInt8) := refresh_upToDate (d.afterDots (4 * cycles)) (b.addRequests mask)
  simp only [upToDate_addRequests] at hLast
  simp only [advance, refresh_eq d b, hDots, hSpend, hLast]
  rfl

theorem bit_requests_lcd (rising blank : Bool) : Byte.bit (requests rising blank) 1 = rising := by
  cases rising <;> cases blank <;> decide

theorem bit_requests_vblank (rising blank : Bool) : Byte.bit (requests rising blank) 0 = blank := by
  cases rising <;> cases blank <;> decide

theorem bit_requests_of_le (rising blank : Bool) {i : Nat} (h : 2 ≤ i) :
    Byte.bit (requests rising blank) i = false := by
  refine Byte.bit_of_lt (k := 2) ?_ h
  cases rising <;> cases blank <;> decide

/-- Moving the display on requests its interrupt where the level rises, from the interrupt stored to
the phase shown and from one phase entered to the next, and the vertical blank where line 144 is
entered from line 143. The level of the last phase is stored. No other bit of the requests changes,
of the status only the three low bits, and otherwise only the scanline. -/
theorem advance_requests_rising {d : Display} (h : d.InPhase) (b : Bus) (cycles : Nat) :
    let p := d.advance b cycles
    let states := d.shown :: d.entered (4 * cycles)
    let levels := states.map
      (level (Memory.read b Address.lcdYCompare) (Memory.read b Address.lcdStatus))
    (Byte.bit (Memory.read p.memory Address.interruptFlags) 1 = true ↔
      Byte.bit (Memory.read b Address.interruptFlags) 1 = true ∨
        (false, true) ∈ successive d.raised levels) ∧
    (Byte.bit (Memory.read p.memory Address.interruptFlags) 0 = true ↔
      Byte.bit (Memory.read b Address.interruptFlags) 0 = true ∨
        (143, 144) ∈ successive d.line ((d.entered (4 * cycles)).map Prod.snd)) ∧
    (p.enteredVBlank = true ↔
      (143, 144) ∈ successive d.line ((d.entered (4 * cycles)).map Prod.snd)) ∧
    levels.getLast? = some p.display.raised ∧
    states.getLast? = some p.display.shown ∧
    (∀ i, 2 ≤ i → Byte.bit (Memory.read p.memory Address.interruptFlags) i =
      Byte.bit (Memory.read b Address.interruptFlags) i) ∧
    (∀ i, 3 ≤ i → Byte.bit (Memory.read p.memory Address.lcdStatus) i =
      Byte.bit (Memory.read b Address.lcdStatus) i) ∧
    (∀ a, a ≠ Address.lcdY → a ≠ Address.lcdStatus → a ≠ Address.interruptFlags →
      Memory.read p.memory a = Memory.read b a) ∧
    p.memory.dividerReset = b.dividerReset ∧
    p.memory.reportsRomWrites = b.reportsRomWrites := by
  intro p states levels
  have hEq := h.advance_eq b cycles
  have hMemory : p.memory = _ := congrArg Progress.memory hEq
  have hDisplay : p.display = _ := congrArg Progress.display hEq
  have hStates : states.getLast? = some (d.afterDots (4 * cycles)).shown :=
    getLast?_entered d _
  have hFlags : Memory.read p.memory Address.interruptFlags =
      Memory.read b Address.interruptFlags |||
        requests (rises d.raised levels) (decide (d.EntersVBlank (4 * cycles))) := by
    change p.memory.store.get _ = _
    rw [hMemory, Bus.get_withStatus, if_neg (by decide), if_neg (by decide), Bus.get_addRequests,
      if_pos rfl]
    rfl
  have hStatus : Memory.read p.memory Address.lcdStatus =
      Byte.blend (Memory.read b Address.lcdStatus) Bus.statusDisplay
        (b.statusOf (d.afterDots (4 * cycles)).shown) := by
    change p.memory.store.get _ = _
    rw [hMemory, Bus.get_withStatus, if_pos rfl, Bus.statusOf_addRequests, Bus.get_addRequests,
      if_neg (by decide)]
    rfl
  refine ⟨?_, ?_, h.advance_enteredVBlank b cycles, ?_, ?_, ?_, ?_, ?_, ?_, ?_⟩
  · rw [hFlags, Byte.bit_or, bit_requests_lcd, Bool.or_eq_true, rises_eq_true_iff]
  · rw [hFlags, Byte.bit_or, bit_requests_vblank, Bool.or_eq_true, decide_eq_true_iff]
    rfl
  · rw [List.getLast?_map, hStates, hDisplay]
    rfl
  · rw [hStates, hDisplay]
    rfl
  · intro i hi
    rw [hFlags, Byte.bit_or, bit_requests_of_le _ _ hi, Bool.or_false]
  · intro i hi
    rw [hStatus, Byte.bit_blend_of_clear _ _ (Byte.bit_of_lt (k := 3) (by decide) hi)]
  · intro a hLine hStatus hFlags
    change p.memory.store.get a = b.store.get a
    rw [hMemory, Bus.get_withStatus, if_neg hStatus.symm, if_neg hLine.symm, Bus.get_addRequests,
      if_neg hFlags.symm]
  · rw [hMemory, Bus.dividerReset_withStatus, Bus.dividerReset_addRequests]
  · rw [hMemory, Bus.reportsRomWrites_withStatus, Bus.reportsRomWrites_addRequests]

/-- The last dots of line 143, with the interrupt of the vertical blank enabled. -/
theorem advance_requests_rising_line_143 :
    let d : Display := ⟨.hblank, 200, 143, false⟩
    let b : Bus := { Bus.empty with store := Store.zero.set Address.lcdStatus 0x10 }
    d.InPhase ∧ (d.advance b 1).enteredVBlank = true ∧ (d.advance b 1).display.raised = true ∧
      Byte.bit (Memory.read (d.advance b 1).memory Address.interruptFlags) 0 = true ∧
      Byte.bit (Memory.read (d.advance b 1).memory Address.interruptFlags) 1 = true := by
  intro d b
  have hPhase : d.InPhase := ⟨by decide, by decide⟩
  have hCompared : Memory.read b Address.lcdYCompare = 0 :=
    (Store.get_set_of_ne _ _ (by decide)).trans (Store.get_zero _)
  have hStatus : Memory.read b Address.lcdStatus = 0x10 := Store.get_set_self _ _ _
  obtain ⟨hRising, hBlank, hEntered, hRaised, -⟩ := advance_requests_rising hPhase b 1
  rw [hCompared, hStatus] at hRising hRaised
  refine ⟨hPhase, hEntered.mpr (by decide), ?_, hBlank.mpr (.inr (by decide)),
    hRising.mpr (.inr (by decide))⟩
  exact Option.some.inj (hRaised.symm.trans (by decide))

end DotMatrix.Display
