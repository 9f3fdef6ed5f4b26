import DotMatrix.Proofs.CoreStores
import DotMatrix.Proofs.MemoryMaps

/-!
# What a step writes

A journal keeps the addresses that are written to, in order, and is otherwise the memory that it is
kept of: what a step writes to is read off the step itself. An instruction reads before it writes,
so `written_eq` tells the same before the step, and two cores with the same processor and the same
bytes write the same and leave the same processor, whatever memories they run on.
-/

namespace DotMatrix

structure Journal (M : Type) where
  memory : M
  written : List UInt16

namespace Journal

def start {M : Type} (m : M) : Journal M :=
  ⟨m, []⟩

variable {M : Type} [Memory M]

instance : Memory (Journal M) where
  read j := Memory.read j.memory
  write j a v := ⟨Memory.write j.memory a v, j.written ++ [a]⟩
  writeEvents j := Memory.writeEvents j.memory
  note j e := ⟨Memory.note j.memory e, j.written⟩

instance [Memory.Unwatched M] : Memory.Unwatched (Journal M) where
  note_eq j e := congrArg (Journal.mk · j.written) (Memory.Unwatched.note_eq j.memory e)

theorem hom_memory : Memory.Hom (memory (M := M)) :=
  ⟨fun _ _ => rfl, fun _ _ _ => rfl, fun _ _ => rfl⟩

/-- What the devices change silently is not written. -/
instance {M : Type} [OnBus M] : OnBus (Journal M) where
  bus j := OnBus.bus j.memory
  mapBus j f := ⟨OnBus.mapBus j.memory f, j.written⟩

theorem onBus_memory {M : Type} [OnBus M] : OnBus.Hom (memory (M := M)) where
  toHom := hom_memory
  bus _ := rfl
  mapBus _ _ := rfl

theorem written_writeAll (j : Journal M) (stores : List (UInt16 × UInt8)) :
    (Memory.writeAll j stores).written = j.written ++ stores.map Prod.fst := by
  induction stores generalizing j with
  | nil => exact (List.append_nil _).symm
  | cons p stores ih =>
    change (Memory.writeAll (Memory.write j p.1 p.2) stores).written = _
    rw [ih, List.map_cons]
    exact List.append_assoc j.written [p.1] _

end Journal

namespace Core

section

variable {M N : Type} {s : Core M} {t : Core N}

theorem cpu_guarded (h : s.cpu = t.cpu) (condition : Option Condition) {f : Core M → Core M}
    {g : Core N → Core N} (hRun : (f s).cpu = (g t).cpu) :
    (s.guarded condition f).cpu = (t.guarded condition g).cpu := by
  unfold guarded
  rw [h]
  split
  · exact hRun
  · exact h

theorem cpu_movePointer (h : s.cpu = t.cpu) (p : Pointer) :
    (s.movePointer p).cpu = (t.movePointer p).cpu := by
  cases p
  all_goals simp only [movePointer, setRegs, h]

theorem cpu_finish (h : s.cpu = t.cpu) (enable : Bool) :
    (s.finish enable).cpu = (t.finish enable).cpu := by
  cases enable with
  | false => exact h
  | true => exact congrArg (fun c => { c with interrupts.ime := true }) h

end

section

variable {M : Type} [Memory M] {s : Core M} {w : Work}

/-- The addresses that the next step writes to, in order. -/
def written (s : Core M) : List UInt16 :=
  (s.map Journal.start).step.2.memory.written

/-- What every write keeps, a step keeps. -/
theorem step_keeps [Memory.Unwatched M] {P : M → Prop}
    (hWrite : ∀ m a v, P m → P (Memory.write m a v)) (h : P s.memory) : P s.step.2.memory := by
  rw [step_eq]
  cases s.work with
  | error e => exact h
  | ok w =>
    change P (s.perform w).2.memory
    rw [memory_perform_eq]
    exact Memory.writeAll_keeps (fun m p _ => hWrite m p.1 p.2) h

end

/-- The same processor and the same bytes. -/
structure Agree {M N : Type} [Memory M] [Memory N] (s : Core M) (t : Core N) : Prop where
  cpu : s.cpu = t.cpu
  read : Memory.read s.memory = Memory.read t.memory

namespace Agree

variable {M N : Type} [Memory M] [Memory N] {s : Core M} {t : Core N}

theorem pending (h : Agree s t) : Memory.pending s.memory = Memory.pending t.memory := by
  rw [Memory.pending, h.read]
  rfl

theorem dispatchable (h : Agree s t) : s.dispatchable? = t.dispatchable? := by
  rw [dispatchable?, h.cpu, h.pending]
  rfl

theorem work (h : Agree s t) : s.work = t.work := by
  rw [Core.work, Memory.fetch, h.cpu, h.pending, h.dispatchable, h.read]
  rfl

theorem readOperand (h : Agree s t) (o : Operand) : s.readOperand o = t.readOperand o := by
  cases o with
  | reg r => exact congrArg (·.regs.get r) h.cpu
  | atHL =>
    change Memory.read s.memory s.cpu.regs.hl = _
    rw [h.read, h.cpu]
    rfl

theorem readSource (h : Agree s t) (source : Source) :
    s.readSource source = t.readSource source := by
  cases source with
  | operand o => exact h.readOperand o
  | immediate n => rfl

theorem pointee (h : Agree s t) (p : Pointer) : s.pointee p = t.pointee p := by
  unfold Core.pointee
  rw [h.cpu]

theorem top (h : Agree s t) : s.top = t.top := by
  change Word.ofBytes (Memory.read s.memory _) (Memory.read s.memory _) = _
  rw [h.read, h.cpu]
  rfl

theorem storesExecuting (h : Agree s t) (i : Instruction) :
    s.storesExecuting i = t.storesExecuting i := by
  have hOperand (o : Operand) (v : UInt8) : s.storesOperand o v = t.storesOperand o v := by
    cases o with
    | reg r => rfl
    | atHL => exact congrArg (fun c => [(c.regs.hl, v)]) h.cpu
  have hPushed (v : UInt16) : s.storesPushed v = t.storesPushed v := by
    rw [storesPushed, h.cpu]
    rfl
  unfold Core.storesExecuting
  cases i
  case bit op index o => cases op <;> simp only [hOperand, h.readOperand]
  all_goals simp only [hOperand, hPushed, h.pointee, h.readOperand, h.cpu]

theorem prepare (h : Agree s t) (i : Instruction) : Agree (s.prepare i) (t.prepare i) := by
  refine ⟨?_, h.read⟩
  rw [Core.prepare, h.cpu]
  rfl

theorem wake [Memory.Unwatched M] [Memory.Unwatched N] (h : Agree s t) : Agree s.wake t.wake := by
  rw [wake_eq, wake_eq]
  exact ⟨congrArg (fun c => { c with activity := .running }) h.cpu, h.read⟩

theorem cpu_writeOperand (h : s.cpu = t.cpu) (o : Operand) (v : UInt8) :
    (s.writeOperand o v).cpu = (t.writeOperand o v).cpu := by
  cases o with
  | reg r => exact congrArg (fun c => { c with regs := c.regs.set r v }) h
  | atHL => exact h

theorem cpu_modify (h : Agree s t) (o : Operand) {f g : UInt8 → UInt8 × Flags} (hSame : f = g) :
    (s.modify o f).cpu = (t.modify o g).cpu := by
  subst hSame
  rw [modify, modify, h.readOperand]
  refine cpu_writeOperand ?_ o _
  exact congrArg (fun c => { c with regs.f := (f (t.readOperand o)).2 }) h.cpu

/-- What an instruction does to the processor is decided by what it reads, and it reads nothing
behind a write. -/
theorem cpu_execute (h : Agree s t) (i : Instruction) : (s.execute i).cpu = (t.execute i).cpu := by
  have hCpu := h.cpu
  cases i
  case load dest source =>
    simp only [execute, h.readOperand]
    exact cpu_writeOperand hCpu dest _
  case loadByte dest n => exact cpu_writeOperand hCpu dest n
  case loadA source =>
    have hRead : s.read (s.pointee source) = t.read (t.pointee source) := by
      rw [Core.read, h.read, h.pointee]
      rfl
    simp only [execute, setA, cpu_movePointer hCpu, hRead]
  case storeA dest => exact cpu_movePointer hCpu dest
  case inc o => exact h.cpu_modify o (by rw [hCpu])
  case dec o => exact h.cpu_modify o (by rw [hCpu])
  case shift op o => exact h.cpu_modify o (by rw [hCpu])
  case bit op index o =>
    cases op
    case test => simp only [execute, setFlags, h.readOperand, hCpu]
    all_goals
      simp only [execute, h.readOperand]
      exact cpu_writeOperand hCpu o _
  case jumpBy condition offset =>
    refine cpu_guarded hCpu condition ?_
    simp only [Core.jumpBy, setPC, hCpu]
  case jump condition address =>
    refine cpu_guarded hCpu condition ?_
    simp only [setPC, hCpu]
  case call condition address =>
    refine cpu_guarded hCpu condition ?_
    simp only [Core.call, Core.push, Core.write, setPC, hCpu]
  case ret condition =>
    refine cpu_guarded hCpu condition ?_
    simp only [Core.ret, Core.drop, setPC, h.top, hCpu]
  all_goals
    simp only [execute, setActivity, setRegs, setFlags, setA, setPC, setInterrupts, Core.write,
      Core.push, Core.drop, Core.call, Core.ret, Core.read, h.top, h.readSource, h.read, hCpu]

variable [Memory.Unwatched M] [Memory.Unwatched N]

theorem writes (h : Agree s t) (w : Work) : s.writes w = t.writes w := by
  cases w with
  | idle => rfl
  | execute i => exact (h.wake.prepare i).storesExecuting i
  | dispatch i => simp only [Core.writes, stores, storesPushed, Core.read, h.read, h.cpu]

theorem perform (h : Agree s t) (w : Work) :
    (s.perform w).1 = (t.perform w).1 ∧ (s.perform w).2.cpu = (t.perform w).2.cpu := by
  cases w with
  | idle => exact ⟨rfl, h.cpu⟩
  | dispatch i =>
    refine ⟨rfl, ?_⟩
    simp only [Core.perform, wake_eq, enterHandler, setActivity, setInterrupts, setPC, Core.push,
      Core.write, note, h.cpu]
  | execute i =>
    have hRun := (h.wake.prepare i).cpu_execute i
    constructor
    · simp only [Core.perform, h.cpu]
    · simp only [Core.perform, run_eq, h.wake.cpu]
      exact cpu_finish hRun _

end Agree

section

variable {M : Type} [Memory M] {s : Core M} {w : Work}

theorem agree_journal (s : Core M) : Agree (s.map Journal.start) s :=
  ⟨rfl, rfl⟩

theorem written_of_error {e : DecodeError} (h : s.work = .error e) : s.written = [] := by
  have hWork := s.agree_journal.work.trans h
  rw [written, step_eq, hWork]
  rfl

theorem written_eq [Memory.Unwatched M] (h : s.work = .ok w) :
    s.written = (s.writes w).map Prod.fst := by
  have hWork := s.agree_journal.work.trans h
  rw [written, step_eq, hWork]
  change ((s.map Journal.start).perform w).2.memory.written = _
  rw [memory_perform_eq, Journal.written_writeAll, s.agree_journal.writes]
  rfl

end
end Core
end DotMatrix
