import DotMatrix.Cpu.Execute

/-!
# What an instruction touches

`touches` lists for each instruction the parts of the core that it may change, and every other part
stays as it is. Where an instruction has a result of one byte, the zero flag tells whether it is
zero. A branch that is not taken touches nothing.
-/

namespace DotMatrix

inductive Flag where
  | zero | subtract | halfCarry | carry
deriving DecidableEq

def Flags.get (f : Flags) : Flag → Bool
  | .zero => f.zero
  | .subtract => f.subtract
  | .halfCarry => f.halfCarry
  | .carry => f.carry

inductive Part where
  | reg (r : Register)
  | flag (x : Flag)
  | sp
  | pc
  | interrupts
  | activity
  | memory
deriving DecidableEq

def Part.flags : List Part :=
  [.flag .zero, .flag .subtract, .flag .halfCarry, .flag .carry]

def Part.flagsButCarry : List Part :=
  [.flag .zero, .flag .subtract, .flag .halfCarry]

def Part.flagsButZero : List Part :=
  [.flag .subtract, .flag .halfCarry, .flag .carry]

/-- What a push changes. -/
def Part.pushed : List Part :=
  [.memory, .sp]

def Operand.part : Operand → Part
  | .reg r => .reg r
  | .atHL => .memory

def WideRegister.parts : WideRegister → List Part
  | .bc => [.reg .b, .reg .c]
  | .de => [.reg .d, .reg .e]
  | .hl => [.reg .h, .reg .l]
  | .sp => [.sp]

def StackPair.parts : StackPair → List Part
  | .bc => [.reg .b, .reg .c]
  | .de => [.reg .d, .reg .e]
  | .hl => [.reg .h, .reg .l]
  | .af => .reg .a :: Part.flags

/-- What changes when the accumulator moves through the pointer. -/
def Pointer.parts : Pointer → List Part
  | .bc | .de => []
  | .hlUp | .hlDown => [.reg .h, .reg .l]

namespace Instruction

/-- What the instruction may change, under the flags before it. A jump, call or return that is not
taken changes nothing. -/
def touches (i : Instruction) (f : Flags) : List Part :=
  match i with
  | nop => []
  | halt => [.activity]
  | stop _ => [.activity, .memory]
  | load dest _ | loadByte dest _ => [dest.part]
  | loadWord dest _ => dest.parts
  | loadA source => .reg .a :: source.parts
  | storeA dest => .memory :: dest.parts
  | loadAAt _ | loadAHigh _ | loadAHighC => [.reg .a]
  | storeAAt _ | storeAHigh _ | storeAHighC | storeSP _ => [.memory]
  | loadSPFromHL => [.sp]
  | push _ => Part.pushed
  | pop pair => .sp :: pair.parts
  | loadHLFromSP _ => WideRegister.hl.parts ++ Part.flags
  | alu .cp _ => Part.flags
  | alu _ _ => .reg .a :: Part.flags
  | inc o | dec o => o.part :: Part.flagsButCarry
  | addHL _ => WideRegister.hl.parts ++ Part.flagsButZero
  | addSP _ => .sp :: Part.flags
  | incWide r | decWide r => r.parts
  | rotateA _ => .reg .a :: Part.flags
  | shift _ o => o.part :: Part.flags
  | bit .test _ _ => Part.flagsButCarry
  | bit _ _ o => [o.part]
  | daa => [.reg .a, .flag .zero, .flag .halfCarry, .flag .carry]
  | cpl => [.reg .a, .flag .subtract, .flag .halfCarry]
  | scf | ccf => Part.flagsButZero
  | jumpBy condition _ | jump condition _ => if Condition.allows condition f then [.pc] else []
  | jumpHL => [.pc]
  | call condition _ => if Condition.allows condition f then .pc :: Part.pushed else []
  | restart _ => .pc :: Part.pushed
  | ret condition => if Condition.allows condition f then [.pc, .sp] else []
  | retEnable => [.interrupts, .pc, .sp]
  | di | ei => [.interrupts]

/-- The operand that takes the result of one byte. A comparison drops it. -/
def destination? : Instruction → Option Operand
  | alu .cp _ => none
  | alu _ _ | daa => some (.reg .a)
  | inc o | dec o | shift _ o => some o
  | _ => none

/-- Compares or tests without a result to store. -/
def onlyTests : Instruction → Bool
  | alu .cp _ | bit .test _ _ => true
  | _ => false

end Instruction

namespace Alu

def result (op : AluOp) (a b : UInt8) (f : Flags) : UInt8 :=
  match op with
  | .add => a + b
  | .adc => a + b + f.carry.toUInt8
  | .sub | .cp => a - b
  | .sbc => a - b - f.carry.toUInt8
  | .and => a &&& b
  | .xor => a ^^^ b
  | .or => a ||| b

theorem zero_apply (op : AluOp) (a b : UInt8) (f : Flags) :
    (apply op a b f).2.zero = (result op a b f == 0) := by
  cases op with
  | add => rw [result, ← UInt8.add_zero (a + b)]; rfl
  | sub | cp => rw [result, ← UInt8.sub_zero (a - b)]; rfl
  | _ => rfl

theorem apply_eq_result {op : AluOp} (a b : UInt8) (f : Flags) (h : op ≠ .cp) :
    (apply op a b f).1 = result op a b f := by
  cases op with
  | add => exact UInt8.add_zero (a + b)
  | sub => exact UInt8.sub_zero (a - b)
  | cp => exact absurd rfl h
  | _ => rfl

theorem subtract_decimalAdjust (v : UInt8) (f : Flags) :
    (decimalAdjust v f).2.subtract = f.subtract := by
  unfold decimalAdjust
  split
  next h => exact h.symm
  next h => exact (Bool.eq_false_iff.mpr h).symm

theorem zero_decimalAdjust (v : UInt8) (f : Flags) :
    (decimalAdjust v f).2.zero = ((decimalAdjust v f).1 == 0) := by
  unfold decimalAdjust
  split <;> rfl

end Alu

namespace Core

section

variable {M : Type} {s t u : Core M} {p : Part}

def Same (s t : Core M) : Part → Prop
  | .reg r => t.cpu.regs.get r = s.cpu.regs.get r
  | .flag x => t.cpu.regs.f.get x = s.cpu.regs.f.get x
  | .sp => t.cpu.regs.sp = s.cpu.regs.sp
  | .pc => t.cpu.regs.pc = s.cpu.regs.pc
  | .interrupts => t.cpu.interrupts = s.cpu.interrupts
  | .activity => t.cpu.activity = s.cpu.activity
  | .memory => t.memory = s.memory

theorem Same.refl (s : Core M) (p : Part) : s.Same s p := by
  cases p <;> rfl

theorem Same.trans (h : s.Same t p) (h' : t.Same u p) : s.Same u p := by
  cases p <;> exact Eq.trans h' h

theorem same_setA (s : Core M) (v : UInt8) (h : p ≠ .reg .a) : s.Same (s.setA v) p := by
  cases p with
  | reg r => cases r <;> first | rfl | exact absurd rfl h
  | _ => rfl

theorem same_setFlags (s : Core M) {f : Flags} {parts : List Part} (h : p ∉ parts)
    (hParts : ∀ x, .flag x ∈ parts ∨ f.get x = s.cpu.regs.f.get x) : s.Same (s.setFlags f) p := by
  cases p with
  | flag x => exact (hParts x).resolve_left h
  | reg r => cases r <;> rfl
  | _ => rfl

theorem same_setFlags_all (s : Core M) (f : Flags) (h : p ∉ Part.flags) :
    s.Same (s.setFlags f) p := by
  refine s.same_setFlags h fun x => .inl ?_
  cases x <;> decide

theorem same_setFlags_butCarry (s : Core M) {f : Flags} (h : p ∉ Part.flagsButCarry)
    (hCarry : f.carry = s.cpu.regs.f.carry) : s.Same (s.setFlags f) p := by
  refine s.same_setFlags h fun x => ?_
  cases x with
  | carry => exact .inr hCarry
  | _ => exact .inl (by decide)

theorem same_setFlags_butZero (s : Core M) {f : Flags} (h : p ∉ Part.flagsButZero)
    (hZero : f.zero = s.cpu.regs.f.zero) : s.Same (s.setFlags f) p := by
  refine s.same_setFlags h fun x => ?_
  cases x with
  | zero => exact .inr hZero
  | _ => exact .inl (by decide)

theorem same_setRegister (s : Core M) {r : Register} (v : UInt8) (h : p ≠ .reg r) :
    s.Same (s.setRegs (s.cpu.regs.set r v)) p := by
  cases p with
  | reg x =>
    have hNe : r ≠ x := by
      rintro rfl
      exact h rfl
    exact s.cpu.regs.get_set_of_ne v hNe
  | _ => cases r <;> rfl

theorem same_setWide (s : Core M) {r : WideRegister} (v : UInt16) (h : p ∉ r.parts) :
    s.Same (s.setRegs (s.cpu.regs.setWide r v)) p := by
  cases p with
  | reg x => cases r <;> cases x <;> first | rfl | exact absurd (by decide) h
  | _ => cases r <;> first | rfl | exact absurd (by decide) h

theorem same_setHL (s : Core M) (v : UInt16) (h : p ∉ WideRegister.hl.parts) :
    s.Same (s.setRegs (s.cpu.regs.setHL v)) p :=
  s.same_setWide v h

theorem same_setPair (s : Core M) {pair : StackPair} (v : UInt16) (h : p ∉ pair.parts) :
    s.Same (s.setRegs (s.cpu.regs.setPair pair v)) p := by
  cases pair with
  | bc => exact s.same_setWide (r := .bc) v h
  | de => exact s.same_setWide (r := .de) v h
  | hl => exact s.same_setHL v h
  | af =>
    cases p with
    | reg x => cases x <;> first | rfl | exact absurd (by decide) h
    | flag x => cases x <;> exact absurd (by decide) h
    | _ => rfl

theorem same_movePointer (s : Core M) {pointer : Pointer} (h : p ∉ pointer.parts) :
    s.Same (s.movePointer pointer) p := by
  cases pointer with
  | bc | de => exact Same.refl s p
  | hlUp | hlDown => exact s.same_setHL _ h

theorem same_setSP (s : Core M) (v : UInt16) (h : p ≠ .sp) :
    s.Same { s with cpu.regs.sp := v } p :=
  s.same_setWide (r := .sp) v fun hMem => h (List.mem_singleton.mp hMem)

theorem same_setPC (s : Core M) (v : UInt16) (h : p ≠ .pc) : s.Same (s.setPC v) p := by
  cases p with
  | reg x => cases x <;> rfl
  | pc => exact absurd rfl h
  | _ => rfl

theorem same_setInterrupts (s : Core M) (c : InterruptControl) (h : p ≠ .interrupts) :
    s.Same (s.setInterrupts c) p := by
  cases p with
  | interrupts => exact absurd rfl h
  | _ => rfl

theorem same_setActivity (s : Core M) (a : Activity) (h : p ≠ .activity) :
    s.Same (s.setActivity a) p := by
  cases p with
  | activity => exact absurd rfl h
  | _ => rfl

theorem same_guarded (s : Core M) {condition : Option Condition} {f : Core M → Core M}
    {parts : List Part}
    (h : p ∉ if Condition.allows condition s.cpu.regs.f then parts else [])
    (hTaken : p ∉ parts → s.Same (f s) p) : s.Same (s.guarded condition f) p := by
  unfold guarded
  split at h
  next hAllows =>
    rw [if_pos hAllows]
    exact hTaken h
  next hAllows =>
    rw [if_neg hAllows]
    exact Same.refl s p

variable [Memory M]

theorem same_write (s : Core M) (a : UInt16) (v : UInt8) (h : p ≠ .memory) :
    s.Same (s.write a v) p := by
  cases p with
  | memory => exact absurd rfl h
  | _ => rfl

theorem same_writeOperand (s : Core M) {o : Operand} (v : UInt8) (h : p ≠ o.part) :
    s.Same (s.writeOperand o v) p := by
  cases o with
  | reg r => exact s.same_setRegister v h
  | atHL => exact s.same_write _ v h

theorem same_push (s : Core M) (w : UInt16) (h : p ∉ Part.pushed) : s.Same (s.push w) p := by
  have hMemory : p ≠ .memory := List.ne_of_not_mem_cons h
  have hSP : p ≠ .sp := List.ne_of_not_mem_cons (List.not_mem_of_not_mem_cons h)
  have hWrites := (s.same_write (s.cpu.regs.sp - 1) (Word.high w) hMemory).trans
    (same_write _ (s.cpu.regs.sp - 2) (Word.low w) hMemory)
  exact hWrites.trans (same_setSP _ _ hSP)

theorem same_call (s : Core M) (address : UInt16) (h : p ∉ .pc :: Part.pushed) :
    s.Same (s.call address) p := by
  have hPush := s.same_push s.cpu.regs.pc (List.not_mem_of_not_mem_cons h)
  exact hPush.trans (same_setPC _ address (List.ne_of_not_mem_cons h))

theorem same_ret (s : Core M) (h : p ∉ [.pc, .sp]) : s.Same s.ret p := by
  have hDrop : s.Same s.drop p :=
    s.same_setSP _ (List.ne_of_not_mem_cons (List.not_mem_of_not_mem_cons h))
  exact hDrop.trans (same_setPC _ s.top (List.ne_of_not_mem_cons h))

theorem same_modify (s : Core M) {o : Operand} {f : UInt8 → UInt8 × Flags}
    (hFlags : s.Same (s.setFlags (f (s.readOperand o)).2) p) (h : p ≠ o.part) :
    s.Same (s.modify o f) p :=
  hFlags.trans (same_writeOperand _ _ h)

theorem execute_frame (s : Core M) (i : Instruction) (h : p ∉ i.touches s.cpu.regs.f) :
    s.Same (s.execute i) p := by
  have hFirst {q : Part} {qs : List Part} (h : p ∉ q :: qs) : p ≠ q := List.ne_of_not_mem_cons h
  have hRest {q : Part} {qs : List Part} (h : p ∉ q :: qs) : p ∉ qs :=
    List.not_mem_of_not_mem_cons h
  have hBoth {ps qs : List Part} (h : p ∉ ps ++ qs) : p ∉ ps ∧ p ∉ qs :=
    not_or.mp (mt List.mem_append.mpr h)
  cases i with
  | nop => exact Same.refl s p
  | halt => exact s.same_setActivity _ (hFirst h)
  | stop padding =>
    have hWrite := s.same_write Address.divider 0 (hFirst (hRest h))
    exact hWrite.trans (same_setActivity _ _ (hFirst h))
  | load dest source => exact s.same_writeOperand _ (hFirst h)
  | loadByte dest n => exact s.same_writeOperand n (hFirst h)
  | loadWord dest n => exact s.same_setWide n h
  | loadA source => exact (s.same_movePointer (hRest h)).trans (same_setA _ _ (hFirst h))
  | storeA dest => exact (s.same_movePointer (hRest h)).trans (same_write _ _ _ (hFirst h))
  | loadAAt | loadAHigh | loadAHighC => exact s.same_setA _ (hFirst h)
  | storeAAt | storeAHigh | storeAHighC => exact s.same_write _ _ (hFirst h)
  | storeSP address => exact (s.same_write _ _ (hFirst h)).trans (same_write _ _ _ (hFirst h))
  | loadSPFromHL => exact s.same_setSP _ (hFirst h)
  | push pair => exact s.same_push _ h
  | pop pair => exact (s.same_setSP _ (hFirst h)).trans (same_setPair _ _ (hRest h))
  | loadHLFromSP offset =>
    obtain ⟨hHL, hFlags⟩ := hBoth h
    exact (s.same_setHL _ hHL).trans (same_setFlags_all _ _ hFlags)
  | alu op source =>
    cases op with
    | cp => exact s.same_setFlags_all _ h
    | _ => exact (s.same_setA _ (hFirst h)).trans (same_setFlags_all _ _ (hRest h))
  | inc o | dec o => exact s.same_modify (s.same_setFlags_butCarry (hRest h) rfl) (hFirst h)
  | shift op o => exact s.same_modify (s.same_setFlags_all _ (hRest h)) (hFirst h)
  | addHL r =>
    obtain ⟨hHL, hFlags⟩ := hBoth h
    exact (s.same_setHL _ hHL).trans (same_setFlags_butZero _ hFlags rfl)
  | addSP offset =>
    have hSP := s.same_setSP (Alu.addSigned s.cpu.regs.sp offset).1 (hFirst h)
    exact hSP.trans (same_setFlags_all _ _ (hRest h))
  | incWide r | decWide r => exact s.same_setWide _ h
  | rotateA rotation => exact (s.same_setA _ (hFirst h)).trans (same_setFlags_all _ _ (hRest h))
  | bit op index o =>
    cases op with
    | test => exact s.same_setFlags_butCarry h rfl
    | reset | set => exact s.same_writeOperand _ (hFirst h)
  | daa =>
    refine (s.same_setA _ (hFirst h)).trans (same_setFlags _ (hRest h) fun x => ?_)
    cases x with
    | subtract => exact .inr (Alu.subtract_decimalAdjust s.cpu.regs.a s.cpu.regs.f)
    | _ => exact .inl (by decide)
  | cpl =>
    have hA := s.same_setA (~~~s.cpu.regs.a) (hFirst h)
    have hFlags := (s.setA (~~~s.cpu.regs.a)).same_setFlags
      (f := ⟨s.cpu.regs.f.zero, true, true, s.cpu.regs.f.carry⟩) (hRest h) fun x => by
        cases x with
        | subtract | halfCarry => exact .inl (by decide)
        | zero | carry => exact .inr rfl
    exact hA.trans hFlags
  | scf | ccf => exact s.same_setFlags_butZero h rfl
  | jumpHL => exact s.same_setPC _ (hFirst h)
  | jumpBy condition offset | jump condition address =>
    exact s.same_guarded h fun h => s.same_setPC _ (hFirst h)
  | call condition address => exact s.same_guarded h fun h => s.same_call _ h
  | restart vector => exact s.same_call _ h
  | ret condition => exact s.same_guarded h fun h => s.same_ret h
  | retEnable => exact (s.same_ret (hRest h)).trans (same_setInterrupts _ _ (hFirst h))
  | di | ei => exact s.same_setInterrupts _ (hFirst h)

/-- The result of one byte that the zero flag reports on. -/
def result? (s : Core M) : Instruction → Option UInt8
  | .alu op source => some (Alu.result op s.cpu.regs.a (s.readSource source) s.cpu.regs.f)
  | .inc o => some (s.readOperand o + 1)
  | .dec o => some (s.readOperand o - 1)
  | .shift op o => some (Alu.shift op (s.readOperand o) s.cpu.regs.f.carry).1
  | .daa => some (Alu.decimalAdjust s.cpu.regs.a s.cpu.regs.f).1
  | _ => none

theorem flags_modify (s : Core M) (o : Operand) (f : UInt8 → UInt8 × Flags) :
    (s.modify o f).cpu.regs.f = (f (s.readOperand o)).2 := by
  cases o with
  | atHL => rfl
  | reg r => cases r <;> rfl

theorem modify_eq (s : Core M) (o : Operand) (f : UInt8 → UInt8 × Flags) :
    s.modify o f =
      (s.setFlags (s.modify o f).cpu.regs.f).writeOperand o (f (s.readOperand o)).1 := by
  rw [flags_modify]
  rfl

theorem zero_execute {i : Instruction} {v : UInt8} (h : s.result? i = some v) :
    (s.execute i).cpu.regs.f.zero = (v == 0) := by
  cases i <;> cases h
  case alu op source => exact Alu.zero_apply op _ _ _
  case inc o | dec o | shift op o => exact congrArg Flags.zero (s.flags_modify o _)
  case daa => exact Alu.zero_decimalAdjust _ _

theorem execute_eq_store {i : Instruction} {v : UInt8} {o : Operand} (h : s.result? i = some v)
    (hDestination : i.destination? = some o) :
    s.execute i = (s.setFlags (s.execute i).cpu.regs.f).writeOperand o v := by
  cases i <;> cases h
  case alu op source =>
    have hOp : op ≠ .cp := by
      rintro rfl
      cases hDestination
    have hDest : o = .reg .a := by
      cases op <;> first | exact (Option.some.inj hDestination).symm | exact absurd rfl hOp
    rw [hDest, ← Alu.apply_eq_result _ _ _ hOp]
    rfl
  case inc o | dec o | shift op o =>
    cases hDestination
    simp only [execute]
    exact s.modify_eq o _
  case daa =>
    cases hDestination
    rfl

theorem execute_of_onlyTests {i : Instruction} (h : i.onlyTests = true) :
    s.execute i = s.setFlags (s.execute i).cpu.regs.f := by
  cases i with
  | alu op source =>
    cases op with
    | cp => rfl
    | _ => cases h
  | bit op index o =>
    cases op with
    | test => rfl
    | _ => cases h
  | _ => cases h

/-- What an instruction may do to a core. -/
structure Effects (s : Core M) (i : Instruction) (t : Core M) : Prop where
  frame : ∀ p ∉ i.touches s.cpu.regs.f, s.Same t p
  zero : ∀ v, s.result? i = some v → (t.cpu.regs.f.zero = true ↔ v = 0)
  stored : ∀ v o, s.result? i = some v → i.destination? = some o →
    t = (s.setFlags t.cpu.regs.f).writeOperand o v
  dropped : i.onlyTests = true → t = s.setFlags t.cpu.regs.f
  rotated : ∀ r, i = .rotateA r → t.cpu.regs.f.zero = false

theorem execute_effects (s : Core M) (i : Instruction) : s.Effects i (s.execute i) where
  frame _ h := s.execute_frame i h
  zero v h := by
    rw [zero_execute h]
    exact beq_iff_eq
  stored _ _ h hDestination := execute_eq_store h hDestination
  dropped h := execute_of_onlyTests h
  rotated := by
    rintro r rfl
    rfl

end
end Core
end DotMatrix
