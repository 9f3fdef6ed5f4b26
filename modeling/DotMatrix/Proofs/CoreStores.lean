import DotMatrix.Proofs.CoreWork
import DotMatrix.Proofs.DeviceWrites

/-!
# What a step stores

The stores of a step are named before it runs, in the order in which the processor makes them. On
the bus a byte changes only if it is stored to, apart from the page that a store to the DMA register
copies; and the interrupt flags lose the request that a dispatch serves.
-/

namespace DotMatrix

/-- Stores bytes one after the other. -/
def Memory.writeAll {M : Type} [Memory M] (m : M) (stores : List (UInt16 × UInt8)) : M :=
  stores.foldl (fun m p => Memory.write m p.1 p.2) m

/-- What every write keeps, writing one byte after the other keeps. -/
theorem Memory.writeAll_keeps {M : Type} [Memory M] {P : M → Prop} {stores : List (UInt16 × UInt8)}
    (hWrite : ∀ m, ∀ p ∈ stores, P m → P (Memory.write m p.1 p.2)) {m : M} (h : P m) :
    P (Memory.writeAll m stores) := by
  induction stores generalizing m with
  | nil => exact h
  | cons p stores ih =>
    refine ih ?_ (hWrite m p List.mem_cons_self h)
    intro m' q hq
    exact hWrite m' q (List.mem_cons_of_mem p hq)

/-- A memory without a watcher: what it is told leaves it as it is. -/
class Memory.Unwatched (M : Type) [Memory M] : Prop where
  note_eq (m : M) (e : Event) : Memory.note m e = m

instance : Memory.Unwatched Store :=
  ⟨fun _ _ => rfl⟩

instance : Memory.Unwatched Bus :=
  ⟨fun _ _ => rfl⟩

namespace Core

variable {M : Type}

@[simp] theorem memory_movePointer (s : Core M) (p : Pointer) :
    (s.movePointer p).memory = s.memory := by
  cases p <;> rfl

theorem memory_finish (s : Core M) (enable : Bool) : (s.finish enable).memory = s.memory := by
  cases enable <;> rfl

variable [Memory M]

def storesOperand (s : Core M) (o : Operand) (v : UInt8) : List (UInt16 × UInt8) :=
  match o with
  | .reg _ => []
  | .atHL => [(s.cpu.regs.hl, v)]

def storesPushed (s : Core M) (w : UInt16) : List (UInt16 × UInt8) :=
  [(s.cpu.regs.sp - 1, Word.high w), (s.cpu.regs.sp - 2, Word.low w)]

def storesExecuting (s : Core M) (i : Instruction) : List (UInt16 × UInt8) :=
  match i with
  | .stop _ => [(Address.divider, 0)]
  | .load dest source => s.storesOperand dest (s.readOperand source)
  | .loadByte dest n => s.storesOperand dest n
  | .storeA dest => [(s.pointee dest, s.cpu.regs.a)]
  | .storeAAt address => [(address, s.cpu.regs.a)]
  | .storeAHigh offset => [(Address.high offset, s.cpu.regs.a)]
  | .storeAHighC => [(Address.high s.cpu.regs.c, s.cpu.regs.a)]
  | .storeSP address =>
    [(address, Word.low s.cpu.regs.sp), (address + 1, Word.high s.cpu.regs.sp)]
  | .push pair => s.storesPushed (s.cpu.regs.getPair pair)
  | .inc o => s.storesOperand o (Alu.inc (s.readOperand o) s.cpu.regs.f).1
  | .dec o => s.storesOperand o (Alu.dec (s.readOperand o) s.cpu.regs.f).1
  | .shift op o => s.storesOperand o (Alu.shift op (s.readOperand o) s.cpu.regs.f.carry).1
  | .bit .reset index o => s.storesOperand o (s.readOperand o &&& ~~~Byte.single index)
  | .bit .set index o => s.storesOperand o (s.readOperand o ||| Byte.single index)
  | .call condition _ =>
    if Condition.allows condition s.cpu.regs.f then s.storesPushed s.cpu.regs.pc else []
  | .restart _ => s.storesPushed s.cpu.regs.pc
  | _ => []

/-- What the work stores, besides taking back the request that a dispatch serves. -/
def stores (s : Core M) : Work → List (UInt16 × UInt8)
  | .idle => []
  | .dispatch _ => s.storesPushed s.cpu.regs.pc
  | .execute i => (s.wake.prepare i).storesExecuting i

/-- What the work writes. A dispatch takes its request back first. -/
def writes (s : Core M) (w : Work) : List (UInt16 × UInt8) :=
  match w with
  | .dispatch i =>
    (Address.interruptFlags, s.read Address.interruptFlags &&& ~~~i.mask) :: s.stores w
  | _ => s.stores w

theorem memory_writeOperand (s : Core M) (o : Operand) (v : UInt8) :
    (s.writeOperand o v).memory = Memory.writeAll s.memory (s.storesOperand o v) := by
  cases o <;> rfl

theorem memory_modify (s : Core M) (o : Operand) (f : UInt8 → UInt8 × Flags) :
    (s.modify o f).memory =
      Memory.writeAll s.memory (s.storesOperand o (f (s.readOperand o)).1) := by
  cases o <;> rfl

theorem memory_push (s : Core M) (w : UInt16) :
    (s.push w).memory = Memory.writeAll s.memory (s.storesPushed w) := rfl

theorem memory_call (s : Core M) (condition : Option Condition) (address : UInt16) :
    (s.guarded condition (·.call address)).memory =
      Memory.writeAll s.memory
        (if Condition.allows condition s.cpu.regs.f then s.storesPushed s.cpu.regs.pc else []) := by
  unfold guarded
  split
  next => exact s.memory_push _
  next => rfl

theorem memory_execute (s : Core M) (i : Instruction) :
    (s.execute i).memory = Memory.writeAll s.memory (s.storesExecuting i) := by
  cases i
  case load dest source => exact s.memory_writeOperand dest _
  case loadByte dest n => exact s.memory_writeOperand dest n
  case loadA source => exact s.memory_movePointer source
  case storeA dest => exact congrArg (Memory.write · _ _) (s.memory_movePointer dest)
  case inc o => exact s.memory_modify o _
  case dec o => exact s.memory_modify o _
  case shift op o => exact s.memory_modify o _
  case bit op index o =>
    cases op with
    | test => rfl
    | reset => exact s.memory_writeOperand o _
    | set => exact s.memory_writeOperand o _
  case jumpBy condition offset => exact apply_guarded (·.memory) s condition rfl
  case jump condition address => exact apply_guarded (·.memory) s condition rfl
  case call condition address => exact s.memory_call condition address
  case ret condition => exact apply_guarded (·.memory) s condition rfl
  all_goals rfl

theorem memory_run (s : Core M) (i : Instruction) :
    (s.run i).memory = Memory.writeAll s.memory ((s.prepare i).storesExecuting i) := by
  rw [run_eq, memory_finish, memory_execute]
  rfl

theorem wake_eq [Memory.Unwatched M] (s : Core M) : s.wake = s.setActivity .running := by
  obtain ⟨⟨regs, interrupts, activity⟩, memory⟩ := s
  have hNote (e : Event) : Memory.note memory e = memory := Memory.Unwatched.note_eq memory e
  cases activity with
  | running => rfl
  | halted => exact congrArg (Core.mk _) (hNote _)
  | stopped => exact congrArg (Core.mk _) (hNote _)

theorem memory_wake [Memory.Unwatched M] (s : Core M) : s.wake.memory = s.memory := by
  rw [wake_eq]
  rfl

theorem memory_perform_eq [Memory.Unwatched M] (s : Core M) (w : Work) :
    (s.perform w).2.memory = Memory.writeAll s.memory (s.writes w) := by
  cases w with
  | idle => rfl
  | execute i =>
    have hRun := s.wake.memory_run i
    rw [memory_wake] at hRun
    exact hRun
  | dispatch i =>
    have hNote : s.note (.dispatching i s.cpu.regs.pc) = s :=
      congrArg (Core.mk s.cpu) (Memory.Unwatched.note_eq s.memory _)
    change (s.enterHandler i).wake.memory = _
    rw [memory_wake, enterHandler_eq, hNote]
    rfl

end Core

theorem Store.get_copyUp_of_outside (s : Store) (source dest : UInt16) {a : UInt16} {n : Nat}
    (hWrap : dest.toNat + n ≤ 65536) (ha : a.toNat < dest.toNat ∨ dest.toNat + n ≤ a.toNat) :
    (s.copyUp source dest n).get a = s.get a := by
  induction n generalizing s source dest with
  | zero => rfl
  | succ n ih =>
    have hSucc : (dest + 1).toNat = (dest.toNat + 1) % 65536 := UInt16.toNat_add dest 1
    have hNe : dest ≠ a := by
      rintro rfl
      omega
    rw [copyUp, ih _ _ _ (by omega) (by omega), get_set_of_ne _ _ hNe]

namespace Bus

theorem get_write_of_ne (b : Bus) {a x : UInt16} (v : UInt8) (h : a ≠ x)
    (hOam : x.toNat < 0xFE00 ∨ 0xFEA0 ≤ x.toNat) : (b.write a v).store.get x = b.store.get x := by
  unfold write
  split
  next => rfl
  next =>
    split
    next => exact Store.get_set_of_ne _ _ h
    next =>
      split
      next => exact Store.get_set_of_ne _ _ h
      next =>
        split
        next =>
          have hCopy := (b.store.set a v).get_copyUp_of_outside (dmaSource v) Address.oam
            (n := oamSize) (by decide) hOam
          exact hCopy.trans (Store.get_set_of_ne _ _ h)
        next => exact Store.get_set_of_ne _ _ h

theorem get_writeAll_of_ne (b : Bus) {x : UInt16} {stores : List (UInt16 × UInt8)}
    (h : ∀ p ∈ stores, p.1 ≠ x) (hOam : x.toNat < 0xFE00 ∨ 0xFEA0 ≤ x.toNat) :
    (Memory.writeAll b stores).store.get x = b.store.get x := by
  refine Memory.writeAll_keeps (P := fun c : Bus => c.store.get x = b.store.get x) ?_ rfl
  intro c p hp hSame
  exact (c.get_write_of_ne p.2 (h p hp) hOam).trans hSame

end Bus

/-- The request that the work serves. -/
def Work.served : Work → UInt8
  | .dispatch i => i.mask
  | _ => 0

namespace Core

variable {s : Core Bus} {w : Work}

/-- The memory once the request that the work serves is taken back. -/
def accepted (s : Core Bus) : Work → Bus
  | .dispatch i => (s.acknowledge i).memory
  | _ => s.memory

theorem accepted_dispatch (s : Core Bus) (i : Interrupt) :
    s.accepted (.dispatch i) = s.memory.write Address.interruptFlags
      (s.memory.store.get Address.interruptFlags &&& ~~~i.mask) := rfl

theorem memory_perform (s : Core Bus) (w : Work) :
    (s.perform w).2.memory = Memory.writeAll (s.accepted w) (s.stores w) := by
  rw [memory_perform_eq]
  cases w <;> rfl

theorem flags_accepted (s : Core Bus) (w : Work) :
    (s.accepted w).store.get Address.interruptFlags =
      s.memory.store.get Address.interruptFlags &&& ~~~w.served := by
  have hNone (v : UInt8) : v = v &&& ~~~0 := by
    have hOnes : ~~~(0 : UInt8) = -1 := by decide
    rw [hOnes, UInt8.and_neg_one]
  cases w with
  | idle => exact hNone _
  | execute i => exact hNone _
  | dispatch i =>
    rw [accepted_dispatch, Bus.write_plain _ _ (by decide) (by decide) (by decide) (by decide)]
    exact Store.get_set_self _ _ _

theorem get_accepted_of_ne (s : Core Bus) (w : Work) {a : UInt16}
    (hFlags : Address.interruptFlags ≠ a) (hOam : a.toNat < 0xFE00 ∨ 0xFEA0 ≤ a.toNat) :
    (s.accepted w).store.get a = s.memory.store.get a := by
  cases w with
  | idle => rfl
  | execute i => rfl
  | dispatch i => rw [accepted_dispatch, Bus.get_write_of_ne _ _ hFlags hOam]

theorem get_perform_of_ne {a : UInt16} (h : ∀ p ∈ s.stores w, p.1 ≠ a)
    (hFlags : Address.interruptFlags ≠ a) (hOam : a.toNat < 0xFE00 ∨ 0xFEA0 ≤ a.toNat) :
    (s.perform w).2.memory.store.get a = s.memory.store.get a := by
  rw [memory_perform, Bus.get_writeAll_of_ne _ h hOam, get_accepted_of_ne s w hFlags hOam]

/-- A step whose stores avoid the interrupt flags only takes back the request that it serves. -/
theorem flags_perform (h : ∀ p ∈ s.stores w, p.1 ≠ Address.interruptFlags) :
    (s.perform w).2.memory.store.get Address.interruptFlags =
      s.memory.store.get Address.interruptFlags &&& ~~~w.served := by
  rw [memory_perform, Bus.get_writeAll_of_ne _ h (by decide), flags_accepted]

end Core
end DotMatrix
