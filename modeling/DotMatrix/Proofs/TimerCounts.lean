import Mathlib.Algebra.Ring.Nat
import DotMatrix.Proofs.DeviceWrites
import DotMatrix.Proofs.TimerTicks

/-!
# What the timer counts

A cycle of the timer in one equation, and from it the counts after any number of cycles, however
these are cut into calls. The counter runs in laps: behind 255 it starts over from the modulo.
-/

namespace DotMatrix.Timer

theorem succ_mod_div {period : Nat} (h : 0 < period) (x : Nat) :
    (x + 1) % period = (if period ≤ x % period + 1 then 0 else x % period + 1) ∧
      (x + 1) / period = (if period ≤ x % period + 1 then x / period + 1 else x / period) := by
  have hLt := Nat.mod_lt x h
  have hSplit : x + 1 = x % period + 1 + period * (x / period) := by
    rw [Nat.add_right_comm, Nat.mod_add_div]
  split
  next hLast =>
    have hFull : x % period + 1 = period := by omega
    rw [hSplit, Nat.add_mul_mod_self_left, Nat.add_mul_div_left _ _ h, hFull, Nat.mod_self,
      Nat.div_self h, Nat.add_comm]
    exact ⟨rfl, rfl⟩
  next hMore =>
    have hShort : x % period + 1 < period := by omega
    rw [hSplit, Nat.add_mul_mod_self_left, Nat.add_mul_div_left _ _ h, Nat.mod_eq_of_lt hShort,
      Nat.div_eq_of_lt hShort, Nat.zero_add]
    exact ⟨rfl, rfl⟩

/-- Where a count stands after some steps if it starts over from `modulo` behind 255. -/
def countAfter (count modulo steps : Nat) : Nat :=
  if count + steps ≤ 255 then count + steps
  else modulo + (count + steps - 256) % (256 - modulo)

theorem countAfter_succ {count modulo : Nat} (hModulo : modulo ≤ 255) (steps : Nat) :
    countAfter count modulo (steps + 1) =
      if countAfter count modulo steps = 255 then modulo
      else countAfter count modulo steps + 1 := by
  have hLap : 0 < 256 - modulo := by omega
  rcases Nat.lt_trichotomy (count + steps) 255 with hLow | hLast | hHigh
  · have hNow : countAfter count modulo steps = count + steps := if_pos (by omega)
    have hNext : countAfter count modulo (steps + 1) = count + (steps + 1) := if_pos (by omega)
    rw [hNow, hNext, if_neg (by omega), Nat.add_assoc]
  · have hNow : countAfter count modulo steps = count + steps := if_pos (by omega)
    have hNext : countAfter count modulo (steps + 1) =
        modulo + (count + (steps + 1) - 256) % (256 - modulo) := if_neg (by omega)
    have hFirst : count + (steps + 1) - 256 = 0 := by omega
    rw [hNow, hNext, if_pos hLast, hFirst, Nat.zero_mod, Nat.add_zero]
  · obtain ⟨lap, hSteps⟩ : ∃ lap, count + steps = 256 + lap := ⟨count + steps - 256, by omega⟩
    have hNow : countAfter count modulo steps = modulo + lap % (256 - modulo) := by
      rw [countAfter, if_neg (by omega), hSteps, Nat.add_sub_cancel_left]
    have hNext : countAfter count modulo (steps + 1) = modulo + (lap + 1) % (256 - modulo) := by
      rw [countAfter, if_neg (by omega), ← Nat.add_assoc, hSteps, Nat.add_assoc,
        Nat.add_sub_cancel_left]
    have hLt := Nat.mod_lt lap hLap
    rw [hNow, hNext, (succ_mod_div hLap lap).1]
    split <;> split <;> omega

theorem countAfter_le {count modulo : Nat} (hModulo : modulo ≤ 255) (steps : Nat) :
    countAfter count modulo steps ≤ 255 := by
  have hLt := Nat.mod_lt (count + steps - 256) (show 0 < 256 - modulo by omega)
  unfold countAfter
  split <;> omega

/-- The counter after some steps. -/
def countByte (count modulo : UInt8) (steps : Nat) : UInt8 :=
  UInt8.ofNat (countAfter count.toNat modulo.toNat steps)

theorem toNat_countByte (count modulo : UInt8) (steps : Nat) :
    (countByte count modulo steps).toNat = countAfter count.toNat modulo.toNat steps := by
  have hModulo : modulo.toNat ≤ 255 := Nat.le_of_lt_succ modulo.toNat_lt
  exact UInt8.toNat_ofNat_of_lt' (Nat.lt_succ_of_le (countAfter_le hModulo steps))

@[simp] theorem countByte_zero (count modulo : UInt8) : countByte count modulo 0 = count := by
  have hCount : count.toNat + 0 ≤ 255 := Nat.le_of_lt_succ count.toNat_lt
  rw [countByte, countAfter, if_pos hCount, Nat.add_zero, UInt8.ofNat_toNat]

theorem countByte_eq_last_iff {count modulo : UInt8} {steps : Nat} :
    countByte count modulo steps = 0xFF ↔ countAfter count.toNat modulo.toNat steps = 255 := by
  rw [← UInt8.toNat_inj, toNat_countByte]
  rfl

theorem countByte_succ (count modulo : UInt8) (steps : Nat) :
    countByte count modulo (steps + 1) =
      if countByte count modulo steps = 0xFF then modulo
      else countByte count modulo steps + 1 := by
  have hModulo : modulo.toNat ≤ 255 := Nat.le_of_lt_succ modulo.toNat_lt
  simp only [countByte_eq_last_iff]
  rw [countByte, countAfter_succ hModulo]
  split
  · exact UInt8.ofNat_toNat
  · exact UInt8.ofNat_add _ 1

/-- The counter passes its last value with the next step or has passed it before. -/
theorem decide_passes_succ (count modulo : UInt8) (steps : Nat) :
    decide (256 ≤ count.toNat + (steps + 1)) =
      (decide (256 ≤ count.toNat + steps) || countByte count modulo steps == 0xFF) := by
  rw [Bool.eq_iff_iff, Bool.or_eq_true, decide_eq_true_iff, decide_eq_true_iff, beq_iff_eq,
    countByte_eq_last_iff]
  rcases Nat.lt_or_ge (count.toNat + steps) 256 with hNot | hBefore
  · have hNow : countAfter count.toNat modulo.toNat steps = count.toNat + steps :=
      if_pos (by omega)
    omega
  · omega

variable {t : Timer} {b : Bus}

/-- The next cycle steps the counter. -/
def counterDue (t : Timer) (b : Bus) : Bool :=
  enabled (b.store.get Address.timerControl) &&
    decide (period (b.store.get Address.timerControl) ≤ t.sinceCounter + 1)

/-- The next cycle steps the counter past its last value. -/
def overflows (t : Timer) (b : Bus) : Bool :=
  t.counterDue b && b.store.get Address.timerCounter == 0xFF

def nextDivider (t : Timer) (b : Bus) : UInt8 :=
  if t.sinceDivider + 1 = 64 then b.store.get Address.divider + 1
  else b.store.get Address.divider

def nextCounter (t : Timer) (b : Bus) : UInt8 :=
  if t.overflows b then b.store.get Address.timerModulo
  else if t.counterDue b then b.store.get Address.timerCounter + 1
  else b.store.get Address.timerCounter

def requestIf (overflow : Bool) : UInt8 :=
  if overflow then Interrupt.timer.mask else 0

def nextTimer (t : Timer) (b : Bus) : Timer where
  sinceDivider := if t.sinceDivider + 1 = 64 then 0 else t.sinceDivider + 1
  sinceCounter :=
    if t.counterDue b then 0
    else if enabled (b.store.get Address.timerControl) then t.sinceCounter + 1
    else t.sinceCounter

theorem advanceDivider_eq (t : Timer) (b : Bus) :
    t.advanceDivider b = ({ t with sinceDivider := (t.nextTimer b).sinceDivider },
      b.withCounts (t.nextDivider b) (b.store.get Address.timerCounter)) := by
  unfold advanceDivider nextTimer nextDivider
  by_cases hLast : t.sinceDivider + 1 = 64
  · rw [if_pos hLast, if_pos hLast, ← Bus.setDivider_eq]
    exact if_pos hLast
  · rw [if_neg hLast, if_neg hLast, Bus.withCounts_self]
    exact if_neg hLast

theorem stepCounter_eq (b : Bus) :
    stepCounter b =
      if b.store.get Address.timerCounter = 0xFF then
        (b.withCounts (b.store.get Address.divider) (b.store.get Address.timerModulo)).addRequests
          Interrupt.timer.mask
      else b.withCounts (b.store.get Address.divider) (b.store.get Address.timerCounter + 1) := by
  rw [← Bus.write_counter_eq, ← Bus.write_counter_eq, ← Bus.request_eq]
  rfl

theorem advanceCounter_cases (t : Timer) (b : Bus) :
    t.advanceCounter b =
      if t.counterDue b then ({ t with sinceCounter := 0 }, stepCounter b)
      else ({ t with sinceCounter := (t.nextTimer b).sinceCounter }, b) := by
  have hUnfold : t.advanceCounter b =
      if enabled (b.store.get Address.timerControl) then
        if period (b.store.get Address.timerControl) ≤ t.sinceCounter + 1 then
          ({ t with sinceCounter := 0 }, stepCounter b)
        else ({ t with sinceCounter := t.sinceCounter + 1 }, b)
      else (t, b) := rfl
  rw [hUnfold]
  unfold nextTimer counterDue
  cases hOn : enabled (b.store.get Address.timerControl) with
  | false => rfl
  | true =>
    by_cases hDue : period (b.store.get Address.timerControl) ≤ t.sinceCounter + 1
    · simp only [hDue, if_true, Bool.true_and, decide_true]
    · simp only [hDue, if_true, if_false, Bool.true_and, decide_false, Bool.false_eq_true]

theorem advanceCounter_eq (t : Timer) (b : Bus) :
    t.advanceCounter b = ({ t with sinceCounter := (t.nextTimer b).sinceCounter },
      (b.withCounts (b.store.get Address.divider) (t.nextCounter b)).addRequests
        (requestIf (t.overflows b))) := by
  rw [advanceCounter_cases]
  cases hDue : t.counterDue b with
  | false =>
    have hCount : t.nextCounter b = b.store.get Address.timerCounter := by
      simp [nextCounter, overflows, hDue]
    have hNone : requestIf (t.overflows b) = 0 := by
      simp [requestIf, overflows, hDue]
    rw [hCount, hNone, Bus.withCounts_self, Bus.addRequests_zero]
    rfl
  | true =>
    have hRestart : (t.nextTimer b).sinceCounter = 0 := if_pos hDue
    rw [if_pos rfl, hRestart, stepCounter_eq]
    by_cases hFull : b.store.get Address.timerCounter = 0xFF
    · have hCount : t.nextCounter b = b.store.get Address.timerModulo := by
        simp [nextCounter, overflows, hDue, hFull]
      have hRequest : requestIf (t.overflows b) = Interrupt.timer.mask := by
        simp [requestIf, overflows, hDue, hFull]
      rw [if_pos hFull, hCount, hRequest]
    · have hCount : t.nextCounter b = b.store.get Address.timerCounter + 1 := by
        simp [nextCounter, overflows, hDue, hFull]
      have hNone : requestIf (t.overflows b) = 0 := by
        simp [requestIf, overflows, hDue, hFull]
      rw [if_neg hFull, hCount, hNone, Bus.addRequests_zero]

theorem tick_eq (t : Timer) (b : Bus) :
    t.tick b = (t.nextTimer b,
      (b.withCounts (t.nextDivider b) (t.nextCounter b)).addRequests
        (requestIf (t.overflows b))) := by
  have hCounter (divider counter : UInt8) :
      (b.withCounts divider counter).store.get Address.timerCounter = counter := by
    rw [Bus.get_withCounts, if_pos rfl]
  have hDivider (divider counter : UInt8) :
      (b.withCounts divider counter).store.get Address.divider = divider := by
    rw [Bus.get_withCounts, if_neg (by decide), if_pos rfl]
  have hControl (divider counter : UInt8) :
      (b.withCounts divider counter).store.get Address.timerControl =
        b.store.get Address.timerControl :=
    b.get_withCounts_of_ne _ _ (by decide) (by decide)
  have hModulo (divider counter : UInt8) :
      (b.withCounts divider counter).store.get Address.timerModulo =
        b.store.get Address.timerModulo :=
    b.get_withCounts_of_ne _ _ (by decide) (by decide)
  rw [tick, advanceDivider_eq]
  change Timer.advanceCounter _ _ = _
  rw [advanceCounter_eq, Bus.withCounts_withCounts, hDivider]
  simp only [nextTimer, nextCounter, overflows, counterDue, hControl, hModulo, hCounter]
  rfl

section

variable (t : Timer) (b : Bus)

@[simp] theorem divider_tick :
    (t.tick b).2.store.get Address.divider = t.nextDivider b := by
  rw [tick_eq, Bus.get_addRequests_of_ne _ _ (by decide), Bus.get_withCounts, if_neg (by decide),
    if_pos rfl]

@[simp] theorem counter_tick :
    (t.tick b).2.store.get Address.timerCounter = t.nextCounter b := by
  rw [tick_eq, Bus.get_addRequests_of_ne _ _ (by decide), Bus.get_withCounts, if_pos rfl]

@[simp] theorem flags_tick :
    (t.tick b).2.store.get Address.interruptFlags =
      b.store.get Address.interruptFlags ||| requestIf (t.overflows b) := by
  rw [tick_eq, Bus.get_addRequests, if_pos rfl, Bus.get_withCounts_of_ne _ _ _ (by decide)
    (by decide)]

theorem get_tick_of_ne {a : UInt16} (hDivider : a ≠ Address.divider)
    (hCounter : a ≠ Address.timerCounter) (hFlags : a ≠ Address.interruptFlags) :
    (t.tick b).2.store.get a = b.store.get a := by
  rw [tick_eq, Bus.get_addRequests_of_ne _ _ hFlags, Bus.get_withCounts_of_ne _ _ _ hDivider
    hCounter]

end

theorem ticks_add {M : Type} [OnBus M] (t : Timer) (m : M) (n k : Nat) :
    t.ticks m (n + k) = (t.ticks m n).1.ticks (t.ticks m n).2 k := by
  induction n generalizing t m with
  | zero => rw [Nat.zero_add]; rfl
  | succ n ih => rw [Nat.succ_add]; exact ih _ _

theorem ticks_succ {M : Type} [OnBus M] (t : Timer) (m : M) (n : Nat) :
    t.ticks m (n + 1) = (t.ticks m n).1.tick (t.ticks m n).2 :=
  t.ticks_add m n 1

theorem requestIf_or (p q : Bool) : requestIf p ||| requestIf q = requestIf (p || q) := by
  cases p <;> cases q <;> decide

theorem nextDivider_eq {divider : UInt8} {since : Nat} (hSince : t.sinceDivider = since % 64)
    (hDivider : b.store.get Address.divider = divider + UInt8.ofNat (since / 64)) :
    (t.nextTimer b).sinceDivider = (since + 1) % 64 ∧
      t.nextDivider b = divider + UInt8.ofNat ((since + 1) / 64) := by
  constructor
  · change (if t.sinceDivider + 1 = 64 then 0 else t.sinceDivider + 1) = _
    rw [hSince]
    split <;> omega
  · rw [nextDivider, hSince, hDivider]
    split
    next hLast =>
      have hSteps : (since + 1) / 64 = since / 64 + 1 := by omega
      rw [hSteps, UInt8.ofNat_add, ← UInt8.add_assoc]
      rfl
    next hMore =>
      have hSteps : (since + 1) / 64 = since / 64 := by omega
      rw [hSteps]

theorem nextCounter_eq {control count modulo : UInt8} {since : Nat}
    (hOn : enabled control = true)
    (hControl : b.store.get Address.timerControl = control)
    (hModulo : b.store.get Address.timerModulo = modulo)
    (hSince : t.sinceCounter = since % period control)
    (hCounter : b.store.get Address.timerCounter =
      countByte count modulo (since / period control)) :
    (t.nextTimer b).sinceCounter = (since + 1) % period control ∧
      t.nextCounter b = countByte count modulo ((since + 1) / period control) ∧
      decide (256 ≤ count.toNat + (since + 1) / period control) =
        (decide (256 ≤ count.toNat + since / period control) || t.overflows b) := by
  obtain ⟨hMod, hDiv⟩ := succ_mod_div (period_pos control) since
  have hDue : t.counterDue b = decide (period control ≤ since % period control + 1) := by
    rw [counterDue, hControl, hOn, hSince, Bool.true_and]
  rw [hMod, hDiv, nextTimer, nextCounter, overflows, hDue, hControl, hModulo, hCounter, hOn, hSince]
  by_cases hLast : period control ≤ since % period control + 1
  · simp only [hLast, decide_true, if_true, Bool.true_and, beq_iff_eq, countByte_succ]
    exact ⟨trivial, trivial, decide_passes_succ _ _ _⟩
  · simp only [hLast, decide_false, if_true, if_false, Bool.false_and, Bool.false_eq_true,
      Bool.or_false]
    exact ⟨trivial, trivial, trivial⟩

theorem divider_ticks (h : t.sinceDivider < 64) (b : Bus) (n : Nat) :
    (t.ticks b n).1.sinceDivider = (t.sinceDivider + n) % 64 ∧
      (t.ticks b n).2.store.get Address.divider =
        b.store.get Address.divider + UInt8.ofNat ((t.sinceDivider + n) / 64) := by
  induction n with
  | zero =>
    rw [Nat.add_zero, Nat.mod_eq_of_lt h, Nat.div_eq_of_lt h]
    exact ⟨rfl, (UInt8.add_zero _).symm⟩
  | succ n ih =>
    obtain ⟨hSince, hDivider⟩ := ih
    rw [ticks_succ, divider_tick, tick_eq]
    exact nextDivider_eq hSince hDivider

theorem get_ticks_of_ne (t : Timer) (b : Bus) {a : UInt16} (hDivider : a ≠ Address.divider)
    (hCounter : a ≠ Address.timerCounter) (hFlags : a ≠ Address.interruptFlags) (n : Nat) :
    (t.ticks b n).2.store.get a = b.store.get a := by
  induction n with
  | zero => rfl
  | succ n ih => rw [ticks_succ, get_tick_of_ne _ _ hDivider hCounter hFlags, ih]

theorem latches_ticks (t : Timer) (b : Bus) (n : Nat) :
    (t.ticks b n).2.dividerReset = b.dividerReset ∧
      (t.ticks b n).2.reportsRomWrites = b.reportsRomWrites := by
  induction n with
  | zero => exact ⟨rfl, rfl⟩
  | succ n ih =>
    rw [ticks_succ, tick_eq]
    exact ih

/-- The counter after some cycles, from a count below its period. -/
theorem counter_ticks {control count modulo : UInt8}
    (hControl : b.store.get Address.timerControl = control)
    (hCount : b.store.get Address.timerCounter = count)
    (hModulo : b.store.get Address.timerModulo = modulo) (hOn : enabled control = true)
    (h : t.sinceCounter < period control) (n : Nat) :
    (t.ticks b n).1.sinceCounter = (t.sinceCounter + n) % period control ∧
      (t.ticks b n).2.store.get Address.timerCounter =
        countByte count modulo ((t.sinceCounter + n) / period control) ∧
      (t.ticks b n).2.store.get Address.interruptFlags =
        b.store.get Address.interruptFlags |||
          requestIf (decide (256 ≤ count.toNat + (t.sinceCounter + n) / period control)) := by
  induction n with
  | zero =>
    have hNone : decide (256 ≤ count.toNat + 0) = false :=
      decide_eq_false (Nat.not_le_of_lt count.toNat_lt)
    rw [Nat.add_zero, Nat.mod_eq_of_lt h, Nat.div_eq_of_lt h, countByte_zero, hNone]
    exact ⟨rfl, hCount, UInt8.or_zero.symm⟩
  | succ n ih =>
    obtain ⟨hSince, hCounter, hFlags⟩ := ih
    have hNow (a : UInt16) := t.get_ticks_of_ne b (a := a) (n := n)
    obtain ⟨hNextSince, hNextCounter, hPasses⟩ := nextCounter_eq hOn
      ((hNow _ (by decide) (by decide) (by decide)).trans hControl)
      ((hNow _ (by decide) (by decide) (by decide)).trans hModulo) hSince hCounter
    rw [ticks_succ, counter_tick, flags_tick, hFlags, UInt8.or_assoc, requestIf_or, hNextCounter,
      ← Nat.add_assoc, tick_eq, hPasses]
    exact ⟨hNextSince, rfl, rfl⟩

theorem counter_ticks_of_disabled
    (hOff : enabled (b.store.get Address.timerControl) = false) (t : Timer) (n : Nat) :
    (t.ticks b n).1.sinceCounter = t.sinceCounter ∧
      (t.ticks b n).2.store.get Address.timerCounter = b.store.get Address.timerCounter ∧
      (t.ticks b n).2.store.get Address.interruptFlags =
        b.store.get Address.interruptFlags := by
  induction n with
  | zero => exact ⟨rfl, rfl, rfl⟩
  | succ n ih =>
    obtain ⟨hSince, hCounter, hFlags⟩ := ih
    have hControl : enabled ((t.ticks b n).2.store.get Address.timerControl) = false := by
      rw [get_ticks_of_ne _ _ (by decide) (by decide) (by decide), hOff]
    have hDue : (t.ticks b n).1.counterDue (t.ticks b n).2 = false := by
      rw [counterDue, hControl, Bool.false_and]
    rw [ticks_succ, counter_tick, flags_tick, tick_eq, nextTimer, nextCounter, overflows, hDue,
      hControl, hCounter, hFlags]
    exact ⟨hSince, rfl, UInt8.or_zero⟩

/-- A count that a longer period has left above the one selected now acts like the last count below
it. -/
theorem tick_min (hOn : enabled (b.store.get Address.timerControl) = true) (t : Timer) :
    (Timer.mk t.sinceDivider
      (min t.sinceCounter (period (b.store.get Address.timerControl) - 1))).tick b = t.tick b := by
  have hPos := period_pos (b.store.get Address.timerControl)
  rcases Nat.lt_or_ge (t.sinceCounter + 1) (period (b.store.get Address.timerControl)) with
    hMore | hLast
  · rw [Nat.min_eq_left (by omega)]
  · have hDue (s : Nat) (hs : period (b.store.get Address.timerControl) ≤ s + 1) :
        (Timer.mk t.sinceDivider s).counterDue b = true := by
      rw [counterDue, hOn, decide_eq_true hs]
      rfl
    have hMin : period (b.store.get Address.timerControl) ≤
        min t.sinceCounter (period (b.store.get Address.timerControl) - 1) + 1 := by omega
    rw [tick_eq, tick_eq]
    simp only [nextTimer, nextDivider, nextCounter, overflows, hDue _ hMin]
    have hNow : t.counterDue b = true := hDue t.sinceCounter hLast
    simp only [hNow, if_true]

theorem counter_ticks_min {control count modulo : UInt8}
    (hControl : b.store.get Address.timerControl = control)
    (hCount : b.store.get Address.timerCounter = count)
    (hModulo : b.store.get Address.timerModulo = modulo) (hOn : enabled control = true)
    (t : Timer) {n : Nat} (hn : 1 ≤ n) :
    let since := min t.sinceCounter (period control - 1)
    (t.ticks b n).1.sinceCounter = (since + n) % period control ∧
      (t.ticks b n).2.store.get Address.timerCounter =
        countByte count modulo ((since + n) / period control) ∧
      (t.ticks b n).2.store.get Address.interruptFlags =
        b.store.get Address.interruptFlags |||
          requestIf (decide (256 ≤ count.toNat + (since + n) / period control)) := by
  intro since
  have hPos := period_pos control
  have hLt : since < period control := by omega
  have hFirst : (Timer.mk t.sinceDivider since).tick b = t.tick b := by
    subst hControl
    exact tick_min hOn t
  have hTicks : t.ticks b n = (Timer.mk t.sinceDivider since).ticks b n := by
    obtain ⟨k, rfl⟩ := Nat.exists_eq_add_of_le' hn
    rw [ticks, ticks, hFirst]
  rw [hTicks]
  exact counter_ticks hControl hCount hModulo hOn hLt n

/-- Several calls one after the other. -/
def advances {M : Type} [OnBus M] (t : Timer) (m : M) : List Nat → Timer × M
  | [] => (t, m)
  | cycles :: rest =>
    let (t, m) := t.advance m cycles
    t.advances m rest

theorem clearDividerReset_eq_self (h : b.dividerReset = false) : b.clearDividerReset = b :=
  Bus.ext_get (fun _ => rfl) h.symm rfl

theorem advance_eq (t : Timer) (b : Bus) (cycles : Nat) :
    t.advance b cycles =
      (if b.dividerReset then powerOn else t).ticks b.clearDividerReset cycles := by
  have hReset : t.acceptReset b =
      if b.dividerReset then (powerOn, b.clearDividerReset) else (t, b) := rfl
  rw [advance, hReset]
  cases h : b.dividerReset with
  | true => rfl
  | false => rw [clearDividerReset_eq_self h]; rfl

theorem advances_of_clear (h : b.dividerReset = false) (t : Timer) (calls : List Nat) :
    t.advances b calls = t.ticks b calls.sum := by
  induction calls generalizing t b with
  | nil => rfl
  | cons cycles calls ih =>
    have hFirst : t.advance b cycles = t.ticks b cycles := by
      rw [advance_eq, h, clearDividerReset_eq_self h]
      rfl
    have hClear : (t.ticks b cycles).2.dividerReset = false := (t.latches_ticks b cycles).1.trans h
    change (t.advance b cycles).1.advances (t.advance b cycles).2 calls = _
    rw [hFirst, ih hClear, List.sum_cons, ticks_add]

/-- Cutting time into calls makes no difference: the first call accepts the reset, and the cycles of
all calls are those of one. -/
theorem advances_cons (t : Timer) (b : Bus) (cycles : Nat) (calls : List Nat) :
    t.advances b (cycles :: calls) = t.advance b (cycles + calls.sum) := by
  have hClear : (t.advance b cycles).2.dividerReset = false := by
    rw [advance_eq, (latches_ticks _ _ _).1]
    rfl
  change (t.advance b cycles).1.advances (t.advance b cycles).2 calls = _
  rw [advances_of_clear hClear, advance_eq, advance_eq, ticks_add]

theorem advances_eq_ticks (t : Timer) (b : Bus) (calls : List Nat) :
    ∃ c : Bus, c.store = b.store ∧ c.reportsRomWrites = b.reportsRomWrites ∧
      c.dividerReset = (b.dividerReset && calls.isEmpty) ∧
      t.advances b calls =
        (if b.dividerReset = true ∧ calls ≠ [] then powerOn else t).ticks c calls.sum := by
  cases calls with
  | nil => exact ⟨b, rfl, rfl, (Bool.and_true _).symm, by rw [if_neg (fun h => h.2 rfl)]; rfl⟩
  | cons cycles calls =>
    refine ⟨b.clearDividerReset, rfl, rfl, (Bool.and_false _).symm, ?_⟩
    rw [advances_cons, advance_eq, List.sum_cons]
    simp

theorem bit_requestIf (p : Bool) (i : Nat) :
    Byte.bit (requestIf p) i = (p && decide (i = 2)) := by
  by_cases hi : i < 8
  · have hAll (p : Bool) (i : Fin 8) : Byte.bit (requestIf p) i = (p && decide (i.val = 2)) := by
      revert p i
      decide
    exact hAll p ⟨i, hi⟩
  · rw [Byte.bit_of_le _ (by omega), decide_eq_false (by omega), Bool.and_false]

/-- What the timer has counted after any number of calls in a row. Divider and cycles since its last
step are one count of 16384. The counter takes a step each period and starts over from the modulo
behind 255, where the interrupt is requested. No other byte changes. -/
theorem advances_counts {t : Timer} (h : t.InRange) (b : Bus) (calls : List Nat) :
    let p := t.advances b calls
    let start := if b.dividerReset = true ∧ calls ≠ [] then powerOn else t
    let n := calls.sum
    let control := Memory.read b Address.timerControl
    let count := (Memory.read b Address.timerCounter).toNat
    let modulo := (Memory.read b Address.timerModulo).toNat
    let since := min start.sinceCounter (period control - 1)
    let steps := (since + n) / period control
    (64 * (Memory.read p.2 Address.divider).toNat + p.1.sinceDivider =
        (64 * (Memory.read b Address.divider).toNat + start.sinceDivider + n) % 16384 ∧
      p.1.sinceDivider < 64) ∧
    (enabled control = false →
      Memory.read p.2 Address.timerCounter = Memory.read b Address.timerCounter ∧
      p.1.sinceCounter = start.sinceCounter ∧
      Memory.read p.2 Address.interruptFlags = Memory.read b Address.interruptFlags) ∧
    (enabled control = true → 1 ≤ n →
      p.1.sinceCounter = (since + n) % period control ∧
      (Memory.read p.2 Address.timerCounter).toNat =
        (if count + steps ≤ 255 then count + steps
          else modulo + (count + steps - 256) % (256 - modulo)) ∧
      ∀ i, Byte.bit (Memory.read p.2 Address.interruptFlags) i = true ↔
        Byte.bit (Memory.read b Address.interruptFlags) i = true ∨
          i = Interrupt.timer.index ∧ 256 ≤ count + steps) ∧
    (∀ a, a ≠ Address.divider → a ≠ Address.timerCounter → a ≠ Address.interruptFlags →
      Memory.read p.2 a = Memory.read b a) ∧
    p.2.dividerReset = (b.dividerReset && calls.isEmpty) ∧
    p.2.reportsRomWrites = b.reportsRomWrites := by
  intro p start n control count modulo since steps
  obtain ⟨c, hStore, hReports, hReset, hTicks⟩ := t.advances_eq_ticks b calls
  change p = start.ticks c n at hTicks
  have hStart : start.InRange := by
    change Timer.InRange (if b.dividerReset = true ∧ calls ≠ [] then powerOn else t)
    split
    · exact powerOn_inRange
    · exact h
  have hRead (a : UInt16) : c.store.get a = Memory.read b a := by rw [hStore]; rfl
  refine ⟨?_, ?_, ?_, ?_, ?_, ?_⟩
  · obtain ⟨hSince, hDivider⟩ := divider_ticks hStart.sinceDivider_lt c n
    rw [hRead] at hDivider
    change 64 * (p.2.store.get Address.divider).toNat + p.1.sinceDivider = _ ∧ _
    rw [hTicks, hSince, hDivider, UInt8.toNat_add, UInt8.toNat_ofNat']
    omega
  · intro hOff
    have hOffNow : enabled (c.store.get Address.timerControl) = false := by
      rw [hRead]
      exact hOff
    obtain ⟨hSince, hCounter, hFlags⟩ := counter_ticks_of_disabled hOffNow start n
    rw [hTicks]
    exact ⟨hCounter.trans (hRead _), hSince, hFlags.trans (hRead _)⟩
  · intro hOn hPos
    obtain ⟨hSince, hCounter, hFlags⟩ :=
      counter_ticks_min (hRead _) (hRead _) (hRead _) hOn start hPos
    rw [hTicks]
    refine ⟨hSince, ?_, ?_⟩
    · exact (congrArg UInt8.toNat hCounter).trans (toNat_countByte _ _ _)
    · intro i
      have hBit := congrArg (Byte.bit · i) hFlags
      rw [hRead] at hBit
      simp only [Byte.bit_or, bit_requestIf] at hBit
      rw [Bool.eq_iff_iff, Bool.or_eq_true, Bool.and_eq_true, decide_eq_true_iff,
        decide_eq_true_iff, and_comm] at hBit
      exact hBit
  · intro a hDivider hCounter hFlags
    rw [hTicks]
    exact (get_ticks_of_ne _ _ hDivider hCounter hFlags n).trans (hRead a)
  · rw [hTicks, (latches_ticks _ _ _).1, hReset]
  · rw [hTicks, (latches_ticks _ _ _).2, hReports]

/-- A counter at 254 that starts over from 252, with more cycles counted than its period of four. It
is stepped eight times in 29 cycles and passes 255 twice. -/
theorem advances_counts_two_laps :
    let t : Timer := ⟨0, 100⟩
    let b : Bus := ⟨((Store.zero.set Address.timerControl 5).set Address.timerCounter 254).set
      Address.timerModulo 252, false, true⟩
    let p := t.advances b [1, 28]
    t.InRange ∧ 64 * (Memory.read p.2 Address.divider).toNat + p.1.sinceDivider = 29 ∧
      p.1.sinceCounter = 0 ∧ (Memory.read p.2 Address.timerCounter).toNat = 254 ∧
      Byte.bit (Memory.read p.2 Address.interruptFlags) 2 = true := by
  intro t b p
  have hRange : t.InRange := ⟨by decide, by decide⟩
  have hRead (a : UInt16) : Memory.read b a = if Address.timerModulo = a then 252
      else if Address.timerCounter = a then 254
      else if Address.timerControl = a then 5 else 0 := by
    change (((Store.zero.set Address.timerControl 5).set Address.timerCounter 254).set
      Address.timerModulo 252).get a = _
    simp only [Store.get_set, Store.get_zero]
  have hZero : Memory.read b Address.divider = 0 := (hRead _).trans (by decide)
  have hControl : Memory.read b Address.timerControl = 5 := (hRead _).trans (by decide)
  have hCount : Memory.read b Address.timerCounter = 254 := (hRead _).trans (by decide)
  have hModulo : Memory.read b Address.timerModulo = 252 := (hRead _).trans (by decide)
  obtain ⟨⟨hDivider, -⟩, -, hCounts, -⟩ := advances_counts hRange b [1, 28]
  have hStart : (if b.dividerReset = true ∧ [1, 28] ≠ [] then powerOn else t) = t :=
    if_neg fun hReset => Bool.false_ne_true hReset.1
  rw [hZero, hStart] at hDivider
  have hTotal : min t.sinceCounter (period 5 - 1) + [1, 28].sum = 32 := rfl
  rw [hControl, hCount, hModulo, hStart, hTotal] at hCounts
  obtain ⟨hSince, hCounter, hFlags⟩ := hCounts (by decide) (by decide)
  exact ⟨hRange, hDivider, hSince.trans (by decide), hCounter.trans (by decide),
    (hFlags 2).mpr (.inr ⟨rfl, by decide⟩)⟩

end DotMatrix.Timer
