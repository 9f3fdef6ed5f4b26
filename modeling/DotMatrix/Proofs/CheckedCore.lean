import DotMatrix.Proofs.CheckedBus

/-!
# Checked instructions

The flags are read off sums of nibbles and bytes that are formed in words of eight or sixteen bits,
and the bit instructions shift a one to the number they were decoded with. Here each of these is
checked, and no instruction fails.
-/

namespace DotMatrix

open Width

namespace Alu

def add? (a b : UInt8) (carryIn : Bool) : Option (UInt8 × Flags) := do
  let nibbles ← Width.add? 8 (a.toNat % 16) (b.toNat % 16)
  let nibbles ← Width.add? 8 nibbles carryIn.toNat
  let result := add a b carryIn
  some (result.1, { result.2 with halfCarry := decide (15 < nibbles) })

def sub? (a b : UInt8) (carryIn : Bool) : Option (UInt8 × Flags) := do
  let nibble ← Width.add? 8 (b.toNat % 16) carryIn.toNat
  let result := sub a b carryIn
  some (result.1, { result.2 with halfCarry := decide (a.toNat % 16 < nibble) })

def operate? (op : AluOp) (a b : UInt8) (f : Flags) : Option (UInt8 × Flags) :=
  match op with
  | .add => add? a b false
  | .adc => add? a b f.carry
  | .sub => sub? a b false
  | .sbc => sub? a b f.carry
  | .cp => do
    let result ← sub? a b false
    some (a, result.2)
  | .and | .xor | .or => some (apply op a b f)

/-- The flags of adding two low bytes, in words of sixteen bits. -/
def lowCarries? (v w : Nat) : Option (Bool × Bool) := do
  let nibbles ← Width.add? 16 (v % 16) (w % 16)
  let bytes ← Width.add? 16 (v % 256) (w % 256)
  some (decide (15 < nibbles), decide (255 < bytes))

def addWide? (v w : UInt16) (f : Flags) : Option (UInt16 × Flags) := do
  let carries ← lowCarries? v.toNat w.toNat
  some (v + w, { f with subtract := false, halfCarry := carries.1, carry := carries.2 })

def addSigned? (v : UInt16) (offset : Int8) : Option (UInt16 × Flags) := do
  let carries ← lowCarries? v.toNat offset.toUInt8.toNat
  some (v + offset.toInt16.toUInt16, ⟨false, false, carries.1, carries.2⟩)

theorem add?_eq (a b : UInt8) (carryIn : Bool) : add? a b carryIn = some (add a b carryIn) := by
  have hCarry := carryIn.toNat_lt
  rw [add?, Width.add?_eq (by omega), Option.bind_eq_bind, Option.bind_some,
    Width.add?_eq (by omega)]
  rfl

theorem sub?_eq (a b : UInt8) (carryIn : Bool) : sub? a b carryIn = some (sub a b carryIn) := by
  have hCarry := carryIn.toNat_lt
  rw [sub?, Width.add?_eq (by omega)]
  rfl

theorem operate?_eq (op : AluOp) (a b : UInt8) (f : Flags) :
    operate? op a b f = some (apply op a b f) := by
  cases op with
  | add => exact add?_eq a b false
  | adc => exact add?_eq a b f.carry
  | sub => exact sub?_eq a b false
  | sbc => exact sub?_eq a b f.carry
  | cp => rw [operate?, sub?_eq]; rfl
  | and => rfl
  | xor => rfl
  | or => rfl

theorem lowCarries?_eq (v w : Nat) :
    lowCarries? v w =
      some (decide (15 < v % 16 + w % 16), decide (255 < v % 256 + w % 256)) := by
  rw [lowCarries?, Width.add?_eq (by omega), Width.add?_eq (by omega)]
  rfl

theorem addWide?_eq (v w : UInt16) (f : Flags) : addWide? v w f = some (addWide v w f) := by
  rw [addWide?, lowCarries?_eq]
  rfl

theorem addSigned?_eq (v : UInt16) (offset : Int8) :
    addSigned? v offset = some (addSigned v offset) := by
  have hByte : offset.toUInt8.toNat % 256 = offset.toUInt8.toNat :=
    Nat.mod_eq_of_lt offset.toUInt8.toNat_lt
  rw [addSigned?, lowCarries?_eq, hByte]
  rfl

end Alu

/-- A byte has a bit if the mask of that bit selects the mask. -/
theorem Byte.and_single_beq (v : UInt8) (i : Fin 8) : (v &&& single i == single i) = bit v i := by
  have hAll (i : Fin 8) : (v &&& single i == single i) = bit v i := by
    refine of_fin (P := fun v => (v &&& single i == single i) = bit v i) ?_ v
    revert i
    decide +kernel
  exact hAll i

namespace Core

variable {M : Type} [Memory M]

/-- Executes an instruction, where a shift or a sum may fail. -/
def execute? (s : Core M) (i : Instruction) : Option (Core M) :=
  match i with
  | .alu op source => do
    let result ← Alu.operate? op s.cpu.regs.a (s.readSource source) s.cpu.regs.f
    some ((s.setA result.1).setFlags result.2)
  | .addHL r => do
    let result ← Alu.addWide? s.cpu.regs.hl (s.cpu.regs.getWide r) s.cpu.regs.f
    some ((s.setRegs (s.cpu.regs.setHL result.1)).setFlags result.2)
  | .addSP offset => do
    let result ← Alu.addSigned? s.cpu.regs.sp offset
    some { s with cpu.regs.sp := result.1, cpu.regs.f := result.2 }
  | .loadHLFromSP offset => do
    let result ← Alu.addSigned? s.cpu.regs.sp offset
    some ((s.setRegs (s.cpu.regs.setHL result.1)).setFlags result.2)
  | .bit op index o => do
    let mask ← single? index
    let v := s.readOperand o
    match op with
    | .test => some (s.setFlags ⟨!(v &&& mask == mask), false, true, s.cpu.regs.f.carry⟩)
    | .reset => some (s.writeOperand o (v &&& ~~~mask))
    | .set => some (s.writeOperand o (v ||| mask))
  | _ => some (s.execute i)

def run? (s : Core M) (i : Instruction) : Option (Core M) := do
  let t ← (s.prepare i).execute? i
  some (t.finish (s.cpu.interrupts.scheduled && i != .di))

def step? (s : Core M) : Option (Except DecodeError Nat × Core M) :=
  if s.cpu.activity != .running && Memory.pending s.memory == 0 then some (.ok 1, s)
  else
    match s.dispatchable? with
    | some i => some (.ok dispatchCycles, (s.enterHandler i).wake)
    | none =>
      match Memory.fetch s.memory s.cpu.regs.pc with
      | .error e => some (.error { e with registers := some s.cpu.regs }, s)
      | .ok i => do
        let t ← s.wake.run? i
        some (.ok (i.cycles s.cpu.regs.f), t)

theorem execute?_eq (s : Core M) (i : Instruction) : s.execute? i = some (s.execute i) := by
  cases i
  case alu op source =>
    rw [execute?, Alu.operate?_eq]
    rfl
  case addHL r =>
    rw [execute?, Alu.addWide?_eq]
    rfl
  case addSP offset =>
    rw [execute?, Alu.addSigned?_eq]
    rfl
  case loadHLFromSP offset =>
    rw [execute?, Alu.addSigned?_eq]
    rfl
  case bit op index o =>
    rw [execute?, single?_eq, Option.bind_eq_bind, Option.bind_some]
    cases op with
    | test =>
      have hBit := Byte.and_single_beq (s.readOperand o) index
      exact congrArg (fun b => some (s.setFlags ⟨!b, false, true, s.cpu.regs.f.carry⟩)) hBit
    | reset => rfl
    | set => rfl
  all_goals rfl

theorem run?_eq (s : Core M) (i : Instruction) : s.run? i = some (s.run i) := by
  rw [run?, execute?_eq, run_eq]
  rfl

/-- The processor fails no check, whatever it is given to execute. -/
theorem step?_eq (s : Core M) : s.step? = some s.step := by
  unfold step? step
  split
  next => rfl
  next =>
    cases s.dispatchable? with
    | some i => rfl
    | none =>
      cases Memory.fetch s.memory s.cpu.regs.pc with
      | error e => rfl
      | ok i =>
        simp only [run?_eq]
        rfl

end Core
end DotMatrix
