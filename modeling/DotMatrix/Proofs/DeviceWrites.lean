import DotMatrix.Memory.Bus
import DotMatrix.Display.Phase

/-!
# What the devices do to the bus

Devices change the bus in three ways: they add interrupt requests, the display brings scanline and
status up to date, and the timer keeps divider and counter. The laws here are all that is used of
them: what a read sees afterwards, that requests commute with the status, and that the last status
and the last counts are those that stay.
-/

namespace DotMatrix.Bus

theorem ext_get {b c : Bus} (hGet : ∀ a, b.store.get a = c.store.get a)
    (hReset : b.dividerReset = c.dividerReset)
    (hReports : b.reportsRomWrites = c.reportsRomWrites) : b = c := by
  obtain ⟨s, r, p⟩ := b
  obtain ⟨t, r', p'⟩ := c
  obtain rfl : s = t := Store.ext_get hGet
  obtain rfl : r = r' := hReset
  obtain rfl : p = p' := hReports
  rfl

/-- The bus with more interrupts requested. -/
def addRequests (b : Bus) (mask : UInt8) : Bus :=
  { b with
    store := b.store.set Address.interruptFlags (b.store.get Address.interruptFlags ||| mask) }

/-- The bits of the status that tell of a phase and of its scanline. -/
def statusOf (b : Bus) (s : Phase × UInt8) : UInt8 :=
  s.1.code ||| (s.2 == b.store.get Address.lcdYCompare).toUInt8 <<< 2

/-- The bus with scanline and status up to date. -/
def withStatus (b : Bus) (s : Phase × UInt8) : Bus :=
  (b.setLcdY s.2).setStatusLow (b.statusOf s)

@[simp] theorem dividerReset_addRequests (b : Bus) (mask : UInt8) :
    (b.addRequests mask).dividerReset = b.dividerReset := rfl

@[simp] theorem reportsRomWrites_addRequests (b : Bus) (mask : UInt8) :
    (b.addRequests mask).reportsRomWrites = b.reportsRomWrites := rfl

@[simp] theorem dividerReset_withStatus (b : Bus) (s : Phase × UInt8) :
    (b.withStatus s).dividerReset = b.dividerReset := rfl

@[simp] theorem reportsRomWrites_withStatus (b : Bus) (s : Phase × UInt8) :
    (b.withStatus s).reportsRomWrites = b.reportsRomWrites := rfl

theorem get_addRequests (b : Bus) (mask : UInt8) (a : UInt16) :
    (b.addRequests mask).store.get a =
      if Address.interruptFlags = a then b.store.get Address.interruptFlags ||| mask
      else b.store.get a :=
  Store.get_set _ _ _ _

theorem get_withStatus (b : Bus) (s : Phase × UInt8) (a : UInt16) :
    (b.withStatus s).store.get a =
      if Address.lcdStatus = a then
        Byte.blend (b.store.get Address.lcdStatus) statusDisplay (b.statusOf s)
      else if Address.lcdY = a then s.2
      else b.store.get a := by
  have hStatus : (b.setLcdY s.2).store.get Address.lcdStatus = b.store.get Address.lcdStatus :=
    Store.get_set_of_ne _ _ (by decide)
  have hLine : (b.setLcdY s.2).store.get a = if Address.lcdY = a then s.2 else b.store.get a :=
    Store.get_set _ _ _ _
  simp only [withStatus, setStatusLow, hStatus, Store.get_set, hLine]

theorem write_plain (b : Bus) {a : UInt16} (v : UInt8) (hRom : ¬ a < Address.romEnd)
    (hDivider : a ≠ Address.divider) (hStatus : a ≠ Address.lcdStatus)
    (hDma : a ≠ Address.oamDma) : b.write a v = { b with store := b.store.set a v } := by
  rw [write, if_neg hRom, if_neg hDivider, if_neg hStatus, if_neg hDma]

theorem request_eq (b : Bus) (i : Interrupt) : Memory.request b i = b.addRequests i.mask := by
  change b.write Address.interruptFlags _ = _
  rw [b.write_plain _ (by decide) (by decide) (by decide) (by decide)]
  rfl

@[simp] theorem addRequests_zero (b : Bus) : b.addRequests 0 = b := by
  refine ext_get (fun a => ?_) rfl rfl
  rw [get_addRequests]
  split
  next h => rw [← h, UInt8.or_zero]
  next => rfl

theorem addRequests_addRequests (b : Bus) (x y : UInt8) :
    (b.addRequests x).addRequests y = b.addRequests (x ||| y) := by
  refine ext_get (fun a => ?_) rfl rfl
  simp only [get_addRequests, if_true, UInt8.or_assoc]
  split <;> rfl

@[simp] theorem statusOf_addRequests (b : Bus) (mask : UInt8) (s : Phase × UInt8) :
    (b.addRequests mask).statusOf s = b.statusOf s := by
  rw [statusOf, get_addRequests, if_neg (by decide)]
  rfl

@[simp] theorem statusOf_withStatus (b : Bus) (s t : Phase × UInt8) :
    (b.withStatus s).statusOf t = b.statusOf t := by
  rw [statusOf, get_withStatus, if_neg (by decide), if_neg (by decide)]
  rfl

theorem withStatus_withStatus (b : Bus) (s t : Phase × UInt8) :
    (b.withStatus s).withStatus t = b.withStatus t := by
  refine ext_get (fun a => ?_) rfl rfl
  simp only [get_withStatus, statusOf_withStatus, if_true, Byte.blend_blend]
  split
  next => rfl
  next => split <;> rfl

theorem addRequests_withStatus (b : Bus) (s : Phase × UInt8) (mask : UInt8) :
    (b.withStatus s).addRequests mask = (b.addRequests mask).withStatus s := by
  refine ext_get (fun a => ?_) rfl rfl
  have hStatus : Address.interruptFlags ≠ Address.lcdStatus := by decide
  have hLine : Address.interruptFlags ≠ Address.lcdY := by decide
  simp only [get_withStatus, get_addRequests, statusOf_addRequests, if_neg hStatus.symm,
    if_neg hLine.symm, if_neg hStatus]
  by_cases ha : Address.interruptFlags = a
  · subst ha
    simp only [if_true, if_neg hStatus.symm, if_neg hLine.symm]
  · simp only [if_neg ha]

/-- The bus with the divider and the timer counter as they are counted. -/
def withCounts (b : Bus) (divider counter : UInt8) : Bus :=
  { b with store := (b.store.set Address.divider divider).set Address.timerCounter counter }

theorem get_withCounts (b : Bus) (divider counter : UInt8) (a : UInt16) :
    (b.withCounts divider counter).store.get a =
      if Address.timerCounter = a then counter
      else if Address.divider = a then divider
      else b.store.get a := by
  simp only [withCounts, Store.get_set]

theorem get_withCounts_of_ne (b : Bus) (divider counter : UInt8) {a : UInt16}
    (hDivider : a ≠ Address.divider) (hCounter : a ≠ Address.timerCounter) :
    (b.withCounts divider counter).store.get a = b.store.get a := by
  rw [get_withCounts, if_neg hCounter.symm, if_neg hDivider.symm]

theorem get_addRequests_of_ne (b : Bus) (mask : UInt8) {a : UInt16}
    (h : a ≠ Address.interruptFlags) : (b.addRequests mask).store.get a = b.store.get a := by
  rw [get_addRequests, if_neg h.symm]

theorem withCounts_self (b : Bus) :
    b.withCounts (b.store.get Address.divider) (b.store.get Address.timerCounter) = b := by
  refine ext_get (fun a => ?_) rfl rfl
  rw [get_withCounts]
  split
  next h => rw [h]
  next =>
    split
    next h => rw [h]
    next => rfl

theorem setDivider_eq (b : Bus) (v : UInt8) :
    b.setDivider v = b.withCounts v (b.store.get Address.timerCounter) := by
  refine ext_get (fun a => ?_) rfl rfl
  have hGet : (b.setDivider v).store.get a = if Address.divider = a then v else b.store.get a :=
    Store.get_set _ _ _ _
  rw [hGet, get_withCounts]
  by_cases ha : Address.timerCounter = a
  · rw [if_pos ha, if_neg (ha ▸ by decide), ha]
  · rw [if_neg ha]

theorem write_counter_eq (b : Bus) (v : UInt8) :
    Memory.write b Address.timerCounter v = b.withCounts (b.store.get Address.divider) v := by
  change b.write Address.timerCounter v = _
  rw [b.write_plain v (by decide) (by decide) (by decide) (by decide)]
  refine ext_get (fun a => ?_) rfl rfl
  rw [get_withCounts, Store.get_set]
  split
  next => rfl
  next =>
    split
    next h => rw [h]
    next => rfl

theorem withCounts_withCounts (b : Bus) (d c divider counter : UInt8) :
    (b.withCounts d c).withCounts divider counter = b.withCounts divider counter := by
  refine ext_get (fun a => ?_) rfl rfl
  simp only [get_withCounts]
  split
  next => rfl
  next => split <;> rfl

end DotMatrix.Bus
