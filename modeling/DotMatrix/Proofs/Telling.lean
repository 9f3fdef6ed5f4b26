import DotMatrix.Proofs.Calls
import DotMatrix.Proofs.CoreStores
import DotMatrix.Proofs.DeviceAccess
import DotMatrix.Proofs.MemoryMaps

/-!
# What a watcher is told

Of all that a machine does, only the announcement in front of a step tells of an instruction: the
processor and the devices tell of other events. Leaving the watcher out of a machine leaves its run
as it is.
-/

namespace DotMatrix

/-- The instruction that the event tells of, with its address. -/
def Event.instruction? : Event → Option (UInt16 × Instruction)
  | executing pc i => some (pc, i)
  | _ => none

/-- The line that tells of an instruction. -/
def Event.lineOf (p : UInt16 × Instruction) : String :=
  Level.trace.text ++ " " ++ (Hex.word p.1 ++ ": " ++ p.2.text)

theorem Event.line_of_instruction? {e : Event} {p : UInt16 × Instruction}
    (h : e.instruction? = some p) : e.line = lineOf p := by
  cases e
  case executing pc i =>
    cases h
    rfl
  all_goals cases h

namespace Observed

/-- The instructions that the watcher was told of, in order. -/
def told {M : Type} (o : Observed M) : List (UInt16 × Instruction) :=
  o.events.toList.filterMap Event.instruction?

/-- The lines that tell of instructions. -/
def lines {M : Type} (o : Observed M) : List String :=
  (o.events.toList.filter (·.instruction?.isSome)).map Event.line

theorem lines_eq {M : Type} (o : Observed M) : o.lines = o.told.map Event.lineOf := by
  unfold lines told
  induction o.events.toList with
  | nil => rfl
  | cons e events ih =>
    cases hInstruction : e.instruction? with
    | none =>
      rw [List.filter_cons_of_neg (by simp [hInstruction]), List.filterMap_cons_none hInstruction]
      exact ih
    | some p =>
      rw [List.filter_cons_of_pos (by simp [hInstruction]), List.filterMap_cons_some hInstruction,
        List.map_cons, List.map_cons, Event.line_of_instruction? hInstruction, ih]

variable (o : Observed Bus)

theorem told_note (e : Event) : (Memory.note o e).told = o.told ++ e.instruction?.toList := by
  change (o.events.push e).toList.filterMap _ = _
  rw [Array.toList_push, List.filterMap_append]
  cases e <;> rfl

theorem told_note_of_none {e : Event} (h : e.instruction? = none) :
    (Memory.note o e).told = o.told := by
  rw [told_note, h]
  exact List.append_nil _

theorem told_write (a : UInt16) (v : UInt8) : (Memory.write o a v).told = o.told := by
  have hSilent : (o.memory.writeEvents a v).filterMap Event.instruction? = [] := by
    unfold Bus.writeEvents
    split
    next => split <;> rfl
    next => split <;> rfl
  change (o.events ++ o.memory.writeEvents a v).toList.filterMap _ = _
  rw [Array.toList_appendList, List.filterMap_append, hSilent]
  exact List.append_nil _

theorem told_request (i : Interrupt) : (Memory.request o i).told = o.told :=
  o.told_write _ _

theorem told_writeAll (stores : List (UInt16 × UInt8)) :
    (Memory.writeAll o stores).told = o.told := by
  refine Memory.writeAll_keeps (P := fun q : Observed Bus => q.told = o.told) ?_ rfl
  intro q p _ hSame
  exact (q.told_write p.1 p.2).trans hSame

end Observed

namespace Core

variable (s : Core (Observed Bus))

theorem told_wake : s.wake.memory.told = s.memory.told := by
  unfold wake
  split
  next => rfl
  next => exact Observed.told_note_of_none _ rfl

theorem told_enterHandler (i : Interrupt) : (s.enterHandler i).memory.told = s.memory.told := by
  rw [enterHandler_eq]
  change ((s.note _).acknowledge i |>.push s.cpu.regs.pc).memory.told = _
  rw [memory_push, Observed.told_writeAll]
  exact (Observed.told_write _ _ _).trans (Observed.told_note_of_none _ rfl)

/-- A step of the processor tells of no instruction. -/
theorem told_step : s.step.2.memory.told = s.memory.told := by
  rcases s.step_cases with ⟨-, hStep⟩ | ⟨-, i, -, hStep⟩ | ⟨-, -, i, -, hStep⟩ | ⟨-, -, e, -, hStep⟩
  · rw [hStep]
  · rw [hStep]
    exact (told_wake _).trans (s.told_enterHandler i)
  · rw [hStep]
    change (s.wake.run i).memory.told = _
    rw [memory_run, Observed.told_writeAll]
    exact s.told_wake
  · rw [hStep]

end Core

theorem Display.told_advance (d : Display) (o : Observed Bus) (cycles : Nat) :
    (d.advance o cycles).memory.told = o.told := by
  have hKeeps : Display.Keeps fun p : Observed Bus => p.told = o.told := {
    status _ _ h := h
    requested _ _ h := (Observed.told_note_of_none _ rfl).trans h
    entering h := (Observed.told_note_of_none _ rfl).trans h
    request _ h := (Observed.told_request _ _).trans h }
  exact hKeeps.advance rfl d cycles

theorem Timer.told_advance (t : Timer) (o : Observed Bus) (cycles : Nat) :
    (t.advance o cycles).2.told = o.told := by
  have hKeeps : Timer.Keeps fun p : Observed Bus => p.told = o.told := {
    setDivider _ h := h
    clearReset h := h
    count _ h := (Observed.told_write _ _ _).trans h
    overflow _ h := (Observed.told_note_of_none _ rfl).trans h
    request h := (Observed.told_request _ _).trans h }
  exact hKeeps.advance rfl t cycles

namespace Machine

section

variable {M N : Type} [OnBus M] [OnBus N] {f : M → N}

/-- The instruction that the watcher is told of before the next step. -/
def announced? (m : Machine M) : Option (UInt16 × Instruction) :=
  if m.core.cpu.activity == .running && m.options.traceInstructions then
    match Memory.fetch m.core.memory m.core.cpu.regs.pc with
    | .ok i => some (m.core.cpu.regs.pc, i)
    | .error _ => none
  else none

theorem announced?_map (h : OnBus.Hom f) (m : Machine M) : (m.map f).announced? = m.announced? := by
  unfold announced?
  simp only [map, Core.cpu_map, Core.memory_map, h.toHom.fetch]

theorem afterTicks_map (h : OnBus.Hom f) (m : Machine M) (n : Nat) :
    (m.map f).afterTicks n = (m.afterTicks n).map f := by
  induction n generalizing m with
  | zero => rfl
  | succ n ih => rw [afterTicks, tick_map h, ih, afterTicks]

end

theorem told_announce (m : Machine (Observed Bus)) :
    m.announce.core.memory.told = m.core.memory.told ++ m.announced?.toList := by
  unfold announce announced?
  split
  next =>
    cases Memory.fetch m.core.memory m.core.cpu.regs.pc with
    | ok i => exact Observed.told_note _ _
    | error e => exact (List.append_nil _).symm
  next => exact (List.append_nil _).symm

/-- A step tells of the instruction that is announced and of no other. -/
theorem told_tick (m : Machine (Observed Bus)) :
    m.tick.2.core.memory.told = m.core.memory.told ++ m.announced?.toList := by
  have hSilent := m.announce.core.told_step
  rw [told_announce] at hSilent
  rcases hCore : m.announce.core.step with ⟨e | c, core⟩
  · rw [hCore] at hSilent
    rw [tick_of_error hCore, ← hSilent]
    exact Observed.told_note_of_none _ rfl
  · rw [hCore] at hSilent
    rw [tick_of_ok hCore, ← hSilent]
    exact (Display.told_advance _ _ c).trans (Timer.told_advance _ _ c)

theorem hom_memory : OnBus.Hom (Observed.memory : Observed Bus → Bus) where
  read _ _ := rfl
  write _ _ _ := rfl
  note _ _ := rfl
  bus _ := rfl
  mapBus _ _ := rfl

theorem afterTicks_observe (m : Machine Bus) (n : Nat) :
    (m.observe.afterTicks n).map Observed.memory = m.afterTicks n :=
  (afterTicks_map hom_memory m.observe n).symm

end Machine
end DotMatrix
