import DotMatrix.Proofs.MachineRuns

/-!
# Maps between memories

A map that keeps what is read and commutes with writes commutes with every step of a core and of a
machine.
-/

namespace DotMatrix

structure Memory.Hom {M N : Type} [Memory M] [Memory N] (f : M → N) : Prop where
  read (m : M) (a : UInt16) : Memory.read (f m) a = Memory.read m a
  write (m : M) (a : UInt16) (v : UInt8) : Memory.write (f m) a v = f (Memory.write m a v)
  note (m : M) (e : Event) : Memory.note (f m) e = f (Memory.note m e)

structure OnBus.Hom {M N : Type} [OnBus M] [OnBus N] (f : M → N) : Prop extends Memory.Hom f where
  bus (m : M) : OnBus.bus (f m) = OnBus.bus m
  mapBus (m : M) (g : Bus → Bus) : OnBus.mapBus (f m) g = f (OnBus.mapBus m g)

namespace Memory.Hom

variable {M N : Type} [Memory M] [Memory N] {f : M → N}

theorem update (h : Hom f) (m : M) (a : UInt16) (g : UInt8 → UInt8) :
    Memory.update (f m) a g = f (Memory.update m a g) := by
  rw [Memory.update, h.read, h.write]
  rfl

theorem request (h : Hom f) (m : M) (i : Interrupt) :
    Memory.request (f m) i = f (Memory.request m i) :=
  h.update m _ _

theorem pending (h : Hom f) (m : M) : Memory.pending (f m) = Memory.pending m := by
  rw [Memory.pending, h.read, h.read]
  rfl

theorem fetch (h : Hom f) (m : M) (pc : UInt16) : Memory.fetch (f m) pc = Memory.fetch m pc := by
  have hRead : Memory.read (f m) = Memory.read m := funext (h.read m)
  rw [Memory.fetch, hRead]
  rfl

end Memory.Hom

namespace Core

section

variable {M N : Type} {f : M → N}

def map (f : M → N) (s : Core M) : Core N :=
  ⟨s.cpu, f s.memory⟩

@[simp] theorem cpu_map (f : M → N) (s : Core M) : (s.map f).cpu = s.cpu := rfl

@[simp] theorem memory_map (f : M → N) (s : Core M) : (s.map f).memory = f s.memory := rfl

@[simp] theorem setFlags_map (f : M → N) (s : Core M) (x : Flags) :
    (s.map f).setFlags x = (s.setFlags x).map f := rfl

@[simp] theorem setRegs_map (f : M → N) (s : Core M) (r : Registers) :
    (s.map f).setRegs r = (s.setRegs r).map f := rfl

@[simp] theorem setA_map (f : M → N) (s : Core M) (v : UInt8) :
    (s.map f).setA v = (s.setA v).map f := rfl

@[simp] theorem setPC_map (f : M → N) (s : Core M) (pc : UInt16) :
    (s.map f).setPC pc = (s.setPC pc).map f := rfl

@[simp] theorem setActivity_map (f : M → N) (s : Core M) (a : Activity) :
    (s.map f).setActivity a = (s.setActivity a).map f := rfl

@[simp] theorem setInterrupts_map (f : M → N) (s : Core M) (c : InterruptControl) :
    (s.map f).setInterrupts c = (s.setInterrupts c).map f := rfl

theorem pointee_map (s : Core M) (p : Pointer) : (s.map f).pointee p = s.pointee p := by
  cases p <;> rfl

theorem movePointer_map (s : Core M) (p : Pointer) :
    (s.map f).movePointer p = (s.movePointer p).map f := by
  cases p <;> rfl

theorem drop_map (s : Core M) : (s.map f).drop = s.drop.map f := rfl

theorem prepare_map (s : Core M) (i : Instruction) :
    (s.map f).prepare i = (s.prepare i).map f := rfl

theorem finish_map (s : Core M) (enable : Bool) :
    (s.map f).finish enable = (s.finish enable).map f := by
  cases enable <;> rfl

theorem guarded_map (s : Core M) (condition : Option Condition) (g : Core M → Core M)
    (k : Core N → Core N) (h : k (s.map f) = (g s).map f) :
    (s.map f).guarded condition k = (s.guarded condition g).map f := by
  unfold guarded
  rw [cpu_map, h]
  split <;> rfl

end

variable {M N : Type} [Memory M] [Memory N] {f : M → N}

theorem read_map (h : Memory.Hom f) (s : Core M) (a : UInt16) : (s.map f).read a = s.read a :=
  h.read s.memory a

theorem write_map (h : Memory.Hom f) (s : Core M) (a : UInt16) (v : UInt8) :
    (s.map f).write a v = (s.write a v).map f :=
  congrArg (Core.mk s.cpu) (h.write s.memory a v)

theorem note_map (h : Memory.Hom f) (s : Core M) (e : Event) :
    (s.map f).note e = (s.note e).map f :=
  congrArg (Core.mk s.cpu) (h.note s.memory e)

theorem readOperand_map (h : Memory.Hom f) (s : Core M) (o : Operand) :
    (s.map f).readOperand o = s.readOperand o := by
  cases o with
  | reg r => rfl
  | atHL => exact read_map h s _

theorem writeOperand_map (h : Memory.Hom f) (s : Core M) (o : Operand) (v : UInt8) :
    (s.map f).writeOperand o v = (s.writeOperand o v).map f := by
  cases o with
  | reg r => rfl
  | atHL => exact write_map h s _ v

theorem readSource_map (h : Memory.Hom f) (s : Core M) (source : Source) :
    (s.map f).readSource source = s.readSource source := by
  cases source with
  | operand o => exact readOperand_map h s o
  | immediate n => rfl

theorem push_map (h : Memory.Hom f) (s : Core M) (w : UInt16) :
    (s.map f).push w = (s.push w).map f := by
  simp only [push, write_map h]
  rfl

theorem top_map (h : Memory.Hom f) (s : Core M) : (s.map f).top = s.top := by
  simp only [top, read_map h, cpu_map]

theorem call_map (h : Memory.Hom f) (s : Core M) (a : UInt16) :
    (s.map f).call a = (s.call a).map f := by
  rw [call, push_map h]
  rfl

theorem ret_map (h : Memory.Hom f) (s : Core M) : (s.map f).ret = s.ret.map f := by
  rw [ret, top_map h]
  rfl

theorem modify_map (h : Memory.Hom f) (s : Core M) (o : Operand) (g : UInt8 → UInt8 × Flags) :
    (s.map f).modify o g = (s.modify o g).map f := by
  simp only [modify, readOperand_map h, setFlags_map, writeOperand_map h]

/-- What an instruction does, it does to both memories. A conditional one runs a function of the
core, which commutes by itself. -/
theorem execute_map (h : Memory.Hom f) (s : Core M) (i : Instruction) :
    (s.map f).execute i = (s.execute i).map f := by
  cases i
  case bit op index o =>
    cases op <;> simp only [execute, cpu_map, setFlags_map, readOperand_map h, writeOperand_map h]
  case jumpBy condition offset =>
    exact guarded_map s condition (·.jumpBy offset) (·.jumpBy offset) rfl
  case jump condition address =>
    exact guarded_map s condition (·.setPC address) (·.setPC address) rfl
  case call condition address =>
    exact guarded_map s condition (·.call address) (·.call address) (call_map h s address)
  case ret condition =>
    exact guarded_map s condition (·.ret) (·.ret) (ret_map h s)
  all_goals
    simp only [execute, cpu_map, setFlags_map, setRegs_map, setA_map, setPC_map, setActivity_map,
      setInterrupts_map, read_map h, write_map h, readOperand_map h, writeOperand_map h,
      readSource_map h, pointee_map, movePointer_map, push_map h, top_map h, drop_map, call_map h,
      ret_map h, modify_map h]
  all_goals rfl

theorem acknowledge_map (h : Memory.Hom f) (s : Core M) (i : Interrupt) :
    (s.map f).acknowledge i = (s.acknowledge i).map f :=
  congrArg (Core.mk s.cpu) (h.update s.memory _ _)

theorem enterHandler_map (h : Memory.Hom f) (s : Core M) (i : Interrupt) :
    (s.map f).enterHandler i = (s.enterHandler i).map f := by
  rw [enterHandler_eq, enterHandler_eq, note_map h, acknowledge_map h, cpu_map, push_map h,
    setPC_map, setInterrupts_map]

theorem wake_map (h : Memory.Hom f) (s : Core M) : (s.map f).wake = s.wake.map f := by
  unfold wake
  rw [cpu_map]
  split
  next => rfl
  next => rw [note_map h]; rfl

theorem dispatchable_map (h : Memory.Hom f) (s : Core M) :
    (s.map f).dispatchable? = s.dispatchable? := by
  rw [dispatchable?, memory_map, h.pending]
  rfl

theorem run_map (h : Memory.Hom f) (s : Core M) (i : Instruction) :
    (s.map f).run i = (s.run i).map f := by
  rw [run_eq, run_eq, prepare_map, execute_map h, finish_map, cpu_map]

theorem step_map (h : Memory.Hom f) (s : Core M) :
    (s.map f).step = (s.step.1, s.step.2.map f) := by
  unfold step
  rw [cpu_map, memory_map, h.pending, dispatchable_map h, h.fetch]
  split
  next => rfl
  next =>
    split
    next => rw [enterHandler_map h, wake_map h]
    next =>
      split
      next => rfl
      next => rw [wake_map h, run_map h]

end Core

section Devices

variable {M N : Type} [OnBus M] [OnBus N] {f : M → N}

def Display.Progress.map (f : M → N) (p : Display.Progress M) : Display.Progress N :=
  ⟨p.display, f p.memory, p.enteredVBlank⟩

namespace Display

theorem refresh_map (h : OnBus.Hom f) (d : Display) (m : M) :
    d.refresh (f m) = ((d.refresh m).1, f (d.refresh m).2) := by
  simp only [refresh, h.read, h.mapBus, h.note, h.toHom.request]
  split <;> rfl

theorem enterNext_map (h : OnBus.Hom f) (d : Display) (m : M) :
    d.enterNext (f m) = ((d.enterNext m).1, f (d.enterNext m).2) := by
  simp only [enterNext, h.note, h.toHom.request]
  split <;> rfl

theorem spend_map (h : OnBus.Hom f) (d : Display) (m : M) (dots rounds : Nat) :
    d.spend (f m) dots rounds = (d.spend m dots rounds).map f := by
  induction rounds generalizing d m dots with
  | zero => rfl
  | succ rounds ih =>
    simp only [spend, enterNext_map h, refresh_map h, ih]
    split <;> rfl

theorem advance_map (h : OnBus.Hom f) (d : Display) (m : M) (cycles : Nat) :
    d.advance (f m) cycles = (d.advance m cycles).map f := by
  simp only [advance, refresh_map h, spend_map h, Progress.map]

end Display

namespace Timer

theorem stepCounter_map (h : OnBus.Hom f) (m : M) : stepCounter (f m) = f (stepCounter m) := by
  simp only [stepCounter, h.read, h.note, h.write, h.toHom.request]
  split <;> rfl

theorem advanceDivider_map (h : OnBus.Hom f) (t : Timer) (m : M) :
    t.advanceDivider (f m) = ((t.advanceDivider m).1, f (t.advanceDivider m).2) := by
  simp only [advanceDivider, h.read, h.mapBus]
  split <;> rfl

theorem advanceCounter_map (h : OnBus.Hom f) (t : Timer) (m : M) :
    t.advanceCounter (f m) = ((t.advanceCounter m).1, f (t.advanceCounter m).2) := by
  simp only [advanceCounter, h.read, stepCounter_map h]
  split
  next => split <;> rfl
  next => rfl

theorem tick_map (h : OnBus.Hom f) (t : Timer) (m : M) :
    t.tick (f m) = ((t.tick m).1, f (t.tick m).2) := by
  simp only [tick, advanceDivider_map h, advanceCounter_map h]

theorem ticks_map (h : OnBus.Hom f) (t : Timer) (m : M) (n : Nat) :
    t.ticks (f m) n = ((t.ticks m n).1, f (t.ticks m n).2) := by
  induction n generalizing t m with
  | zero => rfl
  | succ n ih => simp only [ticks, tick_map h, ih]

theorem advance_map (h : OnBus.Hom f) (t : Timer) (m : M) (cycles : Nat) :
    t.advance (f m) cycles = ((t.advance m cycles).1, f (t.advance m cycles).2) := by
  have hReset : t.acceptReset (f m) = ((t.acceptReset m).1, f (t.acceptReset m).2) := by
    simp only [acceptReset, h.bus, h.mapBus]
    split <;> rfl
  simp only [advance, hReset, ticks_map h]

end Timer

namespace Machine

def map (f : M → N) (m : Machine M) : Machine N where
  core := m.core.map f
  display := m.display
  timer := m.timer
  header := m.header
  options := m.options
  trail := m.trail
  cycles := m.cycles

theorem announce_map (h : OnBus.Hom f) (m : Machine M) :
    (m.map f).announce = m.announce.map f := by
  simp only [announce, map, Core.cpu_map, Core.memory_map, h.toHom.fetch, Core.note_map h.toHom]
  split
  next => split <;> rfl
  next => rfl

theorem advanceDevices_map (h : OnBus.Hom f) (m : Machine M) (c : Nat) :
    (m.map f).advanceDevices c = ((m.advanceDevices c).1, (m.advanceDevices c).2.map f) := by
  simp only [advanceDevices, map, Core.map, Timer.advance_map h, Display.advance_map h]
  rfl

/-- A step costs the same on both memories and shows the same of the display. -/
theorem tick_map (h : OnBus.Hom f) (m : Machine M) :
    (m.map f).tick = (m.tick.1, m.tick.2.map f) := by
  have hAnnounce := announce_map h m
  have hStep : (m.map f).announce.core.step =
      (m.announce.core.step.1, m.announce.core.step.2.map f) := by
    rw [hAnnounce]
    exact Core.step_map h.toHom m.announce.core
  rcases hCore : m.announce.core.step with ⟨e | c, core⟩
  · rw [hCore] at hStep
    rw [tick_of_error hCore, tick_of_error hStep, hAnnounce, Core.note_map h.toHom]
    rfl
  · rw [hCore] at hStep
    have hAdvance := advanceDevices_map h (m.announce.stepped core) c
    rw [tick_of_ok hCore, tick_of_ok hStep, hAnnounce]
    exact congrArg (fun r => (Except.ok (Tick.mk c r.1), r.2)) hAdvance

end Machine
end Devices
end DotMatrix
