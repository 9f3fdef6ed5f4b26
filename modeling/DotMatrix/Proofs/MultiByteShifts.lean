import DotMatrix.Proofs.InstructionEffects
import DotMatrix.Proofs.MultiByte
import DotMatrix.Proofs.StackDiscipline

/-!
# Shifts of numbers of many bytes

A number of several bytes is shifted byte by byte, to the left from its lowest byte on and to the
right from its highest, and the carry hands over the bit that leaves each byte. A shift to the left
is the sum of the number with itself, and a shift to the right takes such a sum apart again. The
shifts that begin without the carry are rotations with another bit to begin with.
-/

namespace DotMatrix

namespace Alu

theorem rl_balance (v : UInt8) (c : Bool) :
    v.toNat + v.toNat + c.toNat = (shift .rl v c).1.toNat + 256 * (shift .rl v c).2.toNat := by
  refine Byte.of_fin (P := fun v => v.toNat + v.toNat + c.toNat =
    (shift .rl v c).1.toNat + 256 * (shift .rl v c).2.toNat) ?_ v
  revert c
  decide +kernel

theorem rr_balance (v : UInt8) (c : Bool) :
    (shift .rr v c).1.toNat + (shift .rr v c).1.toNat + (shift .rr v c).2.toNat =
      v.toNat + 256 * c.toNat := by
  refine Byte.of_fin (P := fun v => (shift .rr v c).1.toNat + (shift .rr v c).1.toNat +
    (shift .rr v c).2.toNat = v.toNat + 256 * c.toNat) ?_ v
  revert c
  decide +kernel

theorem shift_sla (v : UInt8) (c : Bool) : shift .sla v c = shift .rl v false :=
  Prod.ext UInt8.or_zero.symm rfl

theorem shift_srl (v : UInt8) (c : Bool) : shift .srl v c = shift .rr v false :=
  Prod.ext UInt8.or_zero.symm rfl

theorem shift_sra (v : UInt8) (c : Bool) : shift .sra v c = shift .rr v (Byte.bit v 7) := by
  have hBytes (v : UInt8) : v &&& (0x80 : UInt8) = (Byte.bit v 7).toUInt8 <<< 7 := by
    refine Byte.of_fin (P := fun v => v &&& (0x80 : UInt8) = (Byte.bit v 7).toUInt8 <<< 7) ?_ v
    decide +kernel
  exact Prod.ext (congrArg (v >>> 1 ||| ·) (hBytes v)) rfl

/-- Shifts bytes one after the other, each with the carry of the one before. -/
def shiftThrough (op : Shift) (c : Bool) : List UInt8 → List UInt8 × Bool
  | [] => ([], c)
  | x :: xs =>
    let first := shift op x c
    let rest := shiftThrough op first.2 xs
    (first.1 :: rest.1, rest.2)

theorem shiftThrough_concat (op : Shift) (c : Bool) (xs : List UInt8) (x : UInt8) :
    shiftThrough op c (xs ++ [x]) =
      ((shiftThrough op c xs).1 ++ [(shift op x (shiftThrough op c xs).2).1],
        (shift op x (shiftThrough op c xs).2).2) := by
  induction xs generalizing c with
  | nil => rfl
  | cons y ys ih =>
    rw [List.cons_append, shiftThrough, ih]
    rfl

theorem balanced_rl (c : Bool) (xs : List UInt8) :
    Numeral.binary.Balanced c.toNat xs xs (shiftThrough .rl c xs).1
      (shiftThrough .rl c xs).2.toNat := by
  induction xs generalizing c with
  | nil => exact Numeral.balanced_nil _ _
  | cons x xs ih => exact (ih _).cons (rl_balance x c)

/-- The result of a shift to the right gives back the number when it is added to itself, with the
bit that was shifted out as the carry. -/
theorem balanced_rr (c : Bool) (xs : List UInt8) :
    Numeral.binary.Balanced (shiftThrough .rr c xs.reverse).2.toNat
      (shiftThrough .rr c xs.reverse).1.reverse (shiftThrough .rr c xs.reverse).1.reverse
      xs c.toNat := by
  induction xs with
  | nil => exact Numeral.balanced_nil _ _
  | cons x xs ih =>
    rw [List.reverse_cons, shiftThrough_concat, List.reverse_concat]
    exact ih.cons (rr_balance x _)

end Alu

/-! ## Bits in front of bits -/

section

variable {w : Nat} {x y : BitVec w} {b c : Bool}

theorem cons_eq_rotateLeft (hWidth : 0 < w)
    (h : x.toNat + x.toNat + b.toNat = y.toNat + 2 ^ w * c.toNat) :
    BitVec.cons c y = (BitVec.cons b x).rotateLeft 1 := by
  have hX := x.isLt
  have hOne : 1 % (w + 1) = 1 := Nat.mod_eq_of_lt (Nat.succ_lt_succ hWidth)
  have hTwice : (b.toNat * 2 ^ w + x.toNat) * 2 % (2 ^ w * 2) = 2 ^ 1 * x.toNat := by
    have hSplit : (b.toNat * 2 ^ w + x.toNat) * 2 = 2 ^ 1 * x.toNat + 2 ^ w * 2 * b.toNat := by
      ring
    rw [hSplit, Nat.add_mul_mod_self_left]
    exact Nat.mod_eq_of_lt (by omega)
  have hTop : (b.toNat * 2 ^ w + x.toNat) / 2 ^ w = b.toNat := by
    rw [Nat.add_comm, Nat.add_mul_div_right _ _ (Nat.two_pow_pos w), Nat.div_eq_of_lt hX,
      Nat.zero_add]
  apply BitVec.eq_of_toNat_eq
  rw [BitVec.toNat_rotateLeft, BitVec.toNat_cons', BitVec.toNat_cons', hOne, Nat.add_sub_cancel,
    Nat.shiftLeft_eq, Nat.shiftLeft_eq, Nat.shiftLeft_eq, Nat.shiftRight_eq_div_pow, pow_one,
    pow_succ, hTwice, hTop, ← Nat.two_pow_add_eq_or_of_lt b.toNat_lt]
  linarith

theorem cons_eq_rotateRight (hWidth : 0 < w)
    (h : y.toNat + y.toNat + c.toNat = x.toNat + 2 ^ w * b.toNat) :
    BitVec.cons c y = (BitVec.cons b x).rotateRight 1 := by
  have hBit := c.toNat_lt
  have hOne : 1 % (w + 1) = 1 := Nat.mod_eq_of_lt (Nat.succ_lt_succ hWidth)
  have hWhole : b.toNat * 2 ^ w + x.toNat = 2 * y.toNat + c.toNat := by linarith
  have hHalf : (2 * y.toNat + c.toNat) / 2 = y.toNat := by omega
  have hTop : (2 * y.toNat + c.toNat) * 2 ^ w % (2 ^ w * 2) = 2 ^ w * c.toNat := by
    have hSplit : (2 * y.toNat + c.toNat) * 2 ^ w = 2 ^ w * c.toNat + 2 ^ w * 2 * y.toNat := by
      ring
    rw [hSplit, Nat.add_mul_mod_self_left]
    exact Nat.mod_eq_of_lt (Nat.mul_lt_mul_of_pos_left hBit (Nat.two_pow_pos w))
  apply BitVec.eq_of_toNat_eq
  rw [BitVec.toNat_rotateRight, BitVec.toNat_cons', BitVec.toNat_cons', hOne, Nat.add_sub_cancel,
    Nat.shiftLeft_eq, Nat.shiftLeft_eq, Nat.shiftLeft_eq, Nat.shiftRight_eq_div_pow, pow_one,
    pow_succ, hWhole, hHalf, hTop, Nat.or_comm, ← Nat.two_pow_add_eq_or_of_lt y.isLt, Nat.mul_comm]

/-- With the sign moved in, half of a number is rounded down. -/
theorem toInt_eq_half
    (h : y.toNat + y.toNat + c.toNat = x.toNat + 2 ^ w * (decide (2 ^ w ≤ 2 * x.toNat)).toNat) :
    y.toInt = x.toInt / 2 := by
  have hX := x.isLt
  have hBit := c.toNat_lt
  rw [BitVec.toInt_eq_toNat_cond, BitVec.toInt_eq_toNat_cond]
  by_cases hSign : 2 ^ w ≤ 2 * x.toNat
  · rw [decide_eq_true hSign, Bool.toNat_true] at h
    rw [if_neg (by omega), if_neg (by omega)]
    omega
  · rw [decide_eq_false hSign, Bool.toNat_false] at h
    rw [if_pos (by omega), if_pos (by omega)]
    omega

end

/-- Where a byte of a number is kept. -/
inductive Place where
  | reg (r : Register)
  | ram (address : UInt16)
deriving DecidableEq

namespace Place

/-- The code that shifts the byte. A byte in memory is reached through HL. -/
def code (op : Shift) : Place → List Instruction
  | reg r => [.shift op (.reg r)]
  | ram address => [.loadWord .hl address, .shift op .atHL]

/-- Neither of two places is touched by the code for the other. -/
def Apart : Place → Place → Prop
  | reg r, reg q => r ≠ q
  | ram a, ram b => a ≠ b
  | reg r, ram _ | ram _, reg r => r ≠ .h ∧ r ≠ .l

theorem Apart.symm {p q : Place} (h : p.Apart q) : q.Apart p := by
  cases p <;> cases q <;> first | exact Ne.symm h | exact h

/-- Places of different bytes, those in memory on plain addresses. -/
structure Separate (places : List Place) : Prop where
  apart : places.Pairwise Apart
  plain : ∀ a, ram a ∈ places → Address.IsPlain a

theorem Separate.reverse {places : List Place} (h : Separate places) :
    Separate places.reverse where
  apart := List.pairwise_reverse.mpr (h.apart.imp Apart.symm)
  plain a ha := h.plain a (List.mem_reverse.mp ha)

end Place

namespace Core

/-- What a shift of one operand may do to a core. -/
structure Shifts (s : Core Bus) (op : Shift) (o : Operand) (t : Core Bus) : Prop where
  result : t.readOperand o = (Alu.shift op (s.readOperand o) s.cpu.regs.f.carry).1
  flags : t.cpu.regs.f =
    ⟨t.readOperand o == 0, false, false, (Alu.shift op (s.readOperand o) s.cpu.regs.f.carry).2⟩
  frame : ∀ p ∉ o.part :: Part.flags, s.Same t p
  memory : s.memory.SameOutside t.memory [s.cpu.regs.hl]

theorem readOperand_writeOperand (s : Core Bus) (o : Operand) (v : UInt8)
    (hPlain : o = .atHL → Address.IsPlain s.cpu.regs.hl) :
    (s.writeOperand o v).readOperand o = v := by
  cases o with
  | reg r => exact s.cpu.regs.get_set_self r v
  | atHL =>
    change (s.memory.write s.cpu.regs.hl v).store.get s.cpu.regs.hl = v
    rw [s.memory.write_of_isPlain v (hPlain rfl)]
    exact Store.get_set_self _ _ _

theorem shifts_execute (s : Core Bus) (op : Shift) (o : Operand)
    (hPlain : o = .atHL → Address.IsPlain s.cpu.regs.hl) :
    s.Shifts op o (s.execute (.shift op o)) := by
  let r := Alu.shift op (s.readOperand o) s.cpu.regs.f.carry
  have hResult : (s.execute (.shift op o)).readOperand o = r.1 :=
    (s.setFlags (Flags.afterShift (r.1 == 0) r.2)).readOperand_writeOperand o r.1 hPlain
  constructor
  · exact hResult
  · rw [hResult]
    exact s.flags_modify o _
  · intro p hp
    exact s.execute_frame (.shift op o) hp
  · cases o with
    | reg r => exact ⟨fun _ _ => rfl, rfl, rfl⟩
    | atHL =>
      have hMemory : (s.execute (.shift op .atHL)).memory =
          { s.memory with store := s.memory.store.set s.cpu.regs.hl r.1 } :=
        s.memory.write_of_isPlain r.1 (hPlain rfl)
      constructor
      · intro a ha
        have hNe : s.cpu.regs.hl ≠ a := fun h => ha (List.mem_singleton.mpr h.symm)
        rw [hMemory, Store.get_set_of_ne _ _ hNe]
      · rw [hMemory]
      · rw [hMemory]

/-- The byte that is kept in a place. -/
def byteAt (s : Core Bus) : Place → UInt8
  | .reg r => s.cpu.regs.get r
  | .ram a => s.read a

/-- The code for one place shifts its byte and leaves those of the places apart from it. -/
theorem byteAt_code (s : Core Bus) (op : Shift) {p : Place}
    (hPlain : ∀ a, p = .ram a → Address.IsPlain a) :
    let t := s.executeAll (p.code op)
    let r := Alu.shift op (s.byteAt p) s.cpu.regs.f.carry
    t.byteAt p = r.1 ∧ t.cpu.regs.f.carry = r.2 ∧ ∀ q, p.Apart q → t.byteAt q = s.byteAt q := by
  intro t _
  cases p with
  | reg r =>
    have hShift : s.Shifts op (.reg r) t := s.shifts_execute op (.reg r) nofun
    refine ⟨hShift.result, congrArg Flags.carry hShift.flags, ?_⟩
    intro q hApart
    cases q with
    | reg x => exact hShift.frame (.reg x) (by simp [Operand.part, Part.flags, Ne.symm hApart])
    | ram a =>
      have hMemory : t.memory = s.memory :=
        hShift.frame .memory (by simp [Operand.part, Part.flags])
      exact congrArg (Memory.read · a) hMemory
  | ram a =>
    let u := s.setRegs (s.cpu.regs.setHL a)
    have hHL : u.cpu.regs.hl = a := s.cpu.regs.getWide_setWide .hl a
    have hShift : u.Shifts op .atHL t := u.shifts_execute op .atHL fun _ => hHL ▸ hPlain a rfl
    have hResult : t.read u.cpu.regs.hl = (Alu.shift op (s.read u.cpu.regs.hl) _).1 :=
      hShift.result
    have hCarry : t.cpu.regs.f.carry = (Alu.shift op (s.read u.cpu.regs.hl) _).2 :=
      congrArg Flags.carry hShift.flags
    rw [hHL] at hResult hCarry
    refine ⟨hResult, hCarry, ?_⟩
    intro q hApart
    cases q with
    | reg x =>
      obtain ⟨hH, hL⟩ := hApart
      have hPointed : s.Same u (.reg x) := s.same_setHL a (by simp [WideRegister.parts, hH, hL])
      exact hPointed.trans (hShift.frame (.reg x) (by simp [Operand.part, Part.flags]))
    | ram b => exact hShift.memory.bytes b (by simpa [hHL] using Ne.symm hApart)

def bytesAt (s : Core Bus) (places : List Place) : List UInt8 :=
  places.map s.byteAt

/-- One byte after the other is shifted, with the carry handed over. -/
theorem bytesAt_flatMap_code (s : Core Bus) (op : Shift) {places : List Place}
    (h : Place.Separate places) :
    let t := s.executeAll (places.flatMap (Place.code op))
    let r := Alu.shiftThrough op s.cpu.regs.f.carry (s.bytesAt places)
    t.bytesAt places = r.1 ∧ t.cpu.regs.f.carry = r.2 ∧
      ∀ q, (∀ p ∈ places, p.Apart q) → t.byteAt q = s.byteAt q := by
  induction places generalizing s with
  | nil => exact ⟨rfl, rfl, fun _ _ => rfl⟩
  | cons p places ih =>
    obtain ⟨hApart, hPlain⟩ := h
    obtain ⟨hFirst, hRest⟩ := List.pairwise_cons.mp hApart
    let u := s.executeAll (p.code op)
    obtain ⟨hByte, hCarry, hOthers⟩ :=
      s.byteAt_code op fun a ha => hPlain a (ha ▸ List.mem_cons_self)
    obtain ⟨hBytes, hLast, hKept⟩ :=
      ih u ⟨hRest, fun a ha => hPlain a (List.mem_cons_of_mem p ha)⟩
    have hUntouched : u.bytesAt places = s.bytesAt places :=
      List.map_congr_left fun q hq => hOthers q (hFirst q hq)
    rw [hUntouched, hCarry] at hBytes hLast
    intro t r
    have hRun : t = u.executeAll (places.flatMap (Place.code op)) := List.foldl_append
    rw [hRun]
    refine ⟨?_, hLast, ?_⟩
    · exact congrArg₂ List.cons ((hKept p fun q hq => (hFirst q hq).symm).trans hByte) hBytes
    · intro q hq
      obtain ⟨hFirstApart, hRestApart⟩ := List.forall_mem_cons.mp hq
      rw [hKept q hRestApart, hOthers q hFirstApart]

/-- Shifts the first byte with one shift and the others with another. -/
def shiftAll (first next : Shift) : List Place → List Instruction
  | [] => []
  | p :: places => p.code first ++ places.flatMap (Place.code next)

def setCarry (s : Core Bus) (c : Bool) : Core Bus :=
  s.setFlags { s.cpu.regs.f with carry := c }

/-- Operands are read without the flags, and a shift sets all of them. -/
theorem execute_shift_congr (s : Core Bus) (o : Operand) {first next : Shift} {c : Bool}
    (h : Alu.shift first (s.readOperand o) s.cpu.regs.f.carry =
      Alu.shift next (s.readOperand o) c) :
    s.execute (.shift first o) = (s.setCarry c).execute (.shift next o) := by
  have hRead : (s.setCarry c).readOperand o = s.readOperand o := by
    cases o with
    | reg r => cases r <;> rfl
    | atHL => rfl
  simp only [execute, modify, hRead, h]
  rfl

theorem executeAll_code_congr (s : Core Bus) {p : Place} {first next : Shift} {c : Bool}
    (h : Alu.shift first (s.byteAt p) s.cpu.regs.f.carry = Alu.shift next (s.byteAt p) c) :
    s.executeAll (p.code first) = (s.setCarry c).executeAll (p.code next) := by
  cases p with
  | reg r => exact s.execute_shift_congr (.reg r) h
  | ram a =>
    let u := s.setRegs (s.cpu.regs.setHL a)
    have hHL : u.cpu.regs.hl = a := s.cpu.regs.getWide_setWide .hl a
    exact u.execute_shift_congr .atHL (by rwa [readOperand, hHL])

/-- A pass that begins with another shift is one with the same shift throughout, from the carry that
gives the first byte the same result. -/
theorem executeAll_shiftAll (s : Core Bus) {first next : Shift} {c : Bool} {p : Place}
    {places : List Place}
    (h : Alu.shift first (s.byteAt p) s.cpu.regs.f.carry = Alu.shift next (s.byteAt p) c) :
    s.executeAll (shiftAll first next (p :: places)) =
      (s.setCarry c).executeAll ((p :: places).flatMap (Place.code next)) := by
  rw [shiftAll, List.flatMap_cons, executeAll, List.foldl_append, executeAll, List.foldl_append]
  exact congrArg (executeAll · _) (s.executeAll_code_congr h)

def number (s : Core Bus) (places : List Place) : Nat :=
  Numeral.binary.number (s.bytesAt places)

theorem number_lt (s : Core Bus) (places : List Place) :
    s.number places < 256 ^ places.length := by
  have hDigits : ∀ b ∈ s.bytesAt places, Numeral.binary.IsDigit b := fun _ _ => trivial
  have hLt := Numeral.number_lt hDigits
  rwa [bytesAt, List.length_map] at hLt

theorem number_rotateLeft (s : Core Bus) {places : List Place} (h : Place.Separate places) :
    let t := s.executeAll (places.flatMap (Place.code .rl))
    s.number places + s.number places + s.cpu.regs.f.carry.toNat =
      t.number places + 256 ^ places.length * t.cpu.regs.f.carry.toNat := by
  intro t
  obtain ⟨hBytes, hCarry, -⟩ := s.bytesAt_flatMap_code .rl h
  have hBalanced := Alu.balanced_rl s.cpu.regs.f.carry (s.bytesAt places)
  rw [← hBytes, ← hCarry, Numeral.Balanced, bytesAt, bytesAt, List.length_map] at hBalanced
  exact hBalanced

theorem number_rotateRight (s : Core Bus) {places : List Place} (h : Place.Separate places) :
    let t := s.executeAll (places.reverse.flatMap (Place.code .rr))
    t.number places + t.number places + t.cpu.regs.f.carry.toNat =
      s.number places + 256 ^ places.length * s.cpu.regs.f.carry.toNat := by
  intro t
  obtain ⟨hBytes, hCarry, -⟩ := s.bytesAt_flatMap_code .rr h.reverse
  have hReverse (u : Core Bus) : u.bytesAt places.reverse = (u.bytesAt places).reverse :=
    List.map_reverse
  have hBalanced := Alu.balanced_rr s.cpu.regs.f.carry (s.bytesAt places)
  rw [hReverse, hReverse] at hBytes
  rw [hReverse] at hCarry
  rw [← hBytes, ← hCarry, List.reverse_reverse, Numeral.Balanced, bytesAt, bytesAt,
    List.length_map] at hBalanced
  exact hBalanced

/-- The number as a string of bits. -/
def bits (s : Core Bus) (places : List Place) : BitVec (8 * places.length) :=
  BitVec.ofNat _ (s.number places)

/-- The carry in front of the bits of the number. -/
def ring (s : Core Bus) (places : List Place) : BitVec (8 * places.length + 1) :=
  BitVec.cons s.cpu.regs.f.carry (s.bits places)

theorem two_pow_eight_mul (n : Nat) : 2 ^ (8 * n) = 256 ^ n :=
  Nat.pow_mul 2 8 n

theorem toNat_bits (s : Core Bus) (places : List Place) :
    (s.bits places).toNat = s.number places := by
  have hLt := s.number_lt places
  rw [bits, BitVec.toNat_ofNat, two_pow_eight_mul]
  exact Nat.mod_eq_of_lt hLt

theorem setCarry_number (s : Core Bus) (c : Bool) (places : List Place) :
    (s.setCarry c).number places = s.number places := by
  have hByte (p : Place) : (s.setCarry c).byteAt p = s.byteAt p := by
    cases p with
    | reg r => cases r <;> rfl
    | ram a => rfl
  exact congrArg Numeral.binary.number (List.map_congr_left fun p _ => hByte p)

/-- The sign is the highest bit of the highest byte. -/
theorem bit_sign (s : Core Bus) (places : List Place) (p : Place) :
    Byte.bit (s.byteAt p) 7 =
      decide (256 ^ (places ++ [p]).length ≤ 2 * s.number (places ++ [p])) := by
  have hBit (v : UInt8) : Byte.bit v 7 = decide (128 ≤ v.toNat) := by
    refine Byte.of_fin (P := fun v => Byte.bit v 7 = decide (128 ≤ v.toNat)) ?_ v
    decide +kernel
  have hNumber : s.number (places ++ [p]) =
      s.number places + 256 ^ places.length * (s.byteAt p).toNat := by
    rw [number, bytesAt, List.map_append, Numeral.number, List.map_append, Nat.ofDigits_append,
      List.length_map, List.length_map]
    exact congrArg (_ + 256 ^ places.length * ·) Nat.ofDigits_singleton
  have hLow := s.number_lt places
  rw [hBit, hNumber, List.length_append, List.length_singleton, pow_succ]
  refine decide_eq_decide.mpr ⟨fun h => ?_, fun h => ?_⟩
  · have hHigh := Nat.mul_le_mul_left (256 ^ places.length) h
    omega
  · by_contra hSmall
    have hHigh : 256 ^ places.length * (s.byteAt p).toNat ≤ 256 ^ places.length * 127 :=
      Nat.mul_le_mul_left _ (by omega)
    omega

theorem bytesAt_eq_of_number_eq {s t : Core Bus} {places : List Place}
    (h : t.number places = s.number places) : t.bytesAt places = s.bytesAt places := by
  have hDigit (u : Core Bus) : ∀ v ∈ (u.bytesAt places).map UInt8.toNat, v < 256 := by
    intro v hv
    obtain ⟨b, -, rfl⟩ := List.mem_map.mp hv
    exact b.toNat_lt
  refine List.map_injective_iff.mpr (fun _ _ => UInt8.toNat_inj.mp) ?_
  refine Nat.ofDigits_inj_of_len_eq (by decide) ?_ (hDigit t) (hDigit s) h
  simp only [bytesAt, List.length_map]

theorem number_sla (s : Core Bus) {places : List Place} (hSome : places ≠ [])
    (h : Place.Separate places) :
    let t := s.executeAll (shiftAll .sla .rl places)
    t.number places = 2 * s.number places % 256 ^ places.length ∧
      (t.cpu.regs.f.carry = true ↔ 256 ^ places.length ≤ 2 * s.number places) := by
  intro t
  obtain ⟨p, rest, rfl⟩ := List.exists_cons_of_ne_nil hSome
  have hRun : t = (s.setCarry false).executeAll ((p :: rest).flatMap (Place.code .rl)) :=
    s.executeAll_shiftAll (Alu.shift_sla _ _)
  have hSum := (s.setCarry false).number_rotateLeft h
  rw [← hRun, setCarry_number] at hSum
  have hTwice : 2 * s.number (p :: rest) =
      t.number (p :: rest) + 256 ^ (p :: rest).length * t.cpu.regs.f.carry.toNat := by
    rw [Nat.two_mul]
    exact hSum
  have hLt := t.number_lt (p :: rest)
  rw [hTwice, Nat.add_mul_mod_self_left, Nat.mod_eq_of_lt hLt]
  refine ⟨rfl, ?_⟩
  cases t.cpu.regs.f.carry with
  | false => simpa using hLt
  | true => simp

/-- A shift to the right that moves a bit in at the top moves the lowest bit out. -/
theorem number_shiftDown (s : Core Bus) {first : Shift} {places : List Place} {p : Place} {c : Bool}
    (h : Place.Separate (places ++ [p]))
    (hFirst : Alu.shift first (s.byteAt p) s.cpu.regs.f.carry = Alu.shift .rr (s.byteAt p) c) :
    let t := s.executeAll (shiftAll first .rr (places ++ [p]).reverse)
    t.number (places ++ [p]) + t.number (places ++ [p]) + t.cpu.regs.f.carry.toNat =
      s.number (places ++ [p]) + 256 ^ (places ++ [p]).length * c.toNat := by
  intro t
  have hHalves := (s.setCarry c).number_rotateRight h
  have hRun : t = (s.setCarry c).executeAll
      ((places ++ [p]).reverse.flatMap (Place.code .rr)) := by
    change s.executeAll (shiftAll first .rr (places ++ [p]).reverse) = _
    rw [List.reverse_concat]
    exact s.executeAll_shiftAll hFirst
  rw [← hRun, setCarry_number] at hHalves
  exact hHalves

theorem number_srl (s : Core Bus) {places : List Place} (hSome : places ≠ [])
    (h : Place.Separate places) :
    let t := s.executeAll (shiftAll .srl .rr places.reverse)
    t.number places = s.number places / 2 ∧ t.cpu.regs.f.carry.toNat = s.number places % 2 := by
  intro t
  obtain rfl | ⟨init, p, rfl⟩ := List.eq_nil_or_concat' places
  · exact absurd rfl hSome
  have hHalf : t.number _ + t.number _ + t.cpu.regs.f.carry.toNat =
      s.number _ + 256 ^ (init ++ [p]).length * 0 := s.number_shiftDown h (Alu.shift_srl _ _)
  have hBit := t.cpu.regs.f.carry.toNat_lt
  constructor
  · omega
  · omega

theorem toInt_sra (s : Core Bus) {places : List Place} (hSome : places ≠ [])
    (h : Place.Separate places) :
    let t := s.executeAll (shiftAll .sra .rr places.reverse)
    (t.bits places).toInt = (s.bits places).toInt / 2 ∧
      t.cpu.regs.f.carry.toNat = s.number places % 2 := by
  intro t
  obtain rfl | ⟨init, p, rfl⟩ := List.eq_nil_or_concat' places
  · exact absurd rfl hSome
  have hHalf : t.number _ + t.number _ + t.cpu.regs.f.carry.toNat =
      s.number _ + 256 ^ (init ++ [p]).length * _ := s.number_shiftDown h (Alu.shift_sra _ _)
  constructor
  · refine toInt_eq_half (c := t.cpu.regs.f.carry) ?_
    rw [toNat_bits, toNat_bits, two_pow_eight_mul, ← s.bit_sign]
    exact hHalf
  · have hEven : 256 ^ (init ++ [p]).length = 2 * (256 ^ init.length * 128) := by
      rw [List.length_append, List.length_singleton, pow_succ]
      ring
    have hBit := t.cpu.regs.f.carry.toNat_lt
    rw [hEven, Nat.mul_assoc] at hHalf
    omega

theorem shiftAll_self (op : Shift) (places : List Place) :
    shiftAll op op places = places.flatMap (Place.code op) := by
  cases places <;> rfl

theorem ring_rl (s : Core Bus) {places : List Place} (hSome : places ≠ [])
    (h : Place.Separate places) :
    (s.executeAll (shiftAll .rl .rl places)).ring places = (s.ring places).rotateLeft 1 := by
  have hPos := List.length_pos_iff.mpr hSome
  refine cons_eq_rotateLeft (by omega) ?_
  rw [toNat_bits, toNat_bits, two_pow_eight_mul, shiftAll_self]
  exact s.number_rotateLeft h

theorem ring_rr (s : Core Bus) {places : List Place} (hSome : places ≠ [])
    (h : Place.Separate places) :
    (s.executeAll (shiftAll .rr .rr places.reverse)).ring places =
      (s.ring places).rotateRight 1 := by
  have hPos := List.length_pos_iff.mpr hSome
  refine cons_eq_rotateRight (by omega) ?_
  rw [toNat_bits, toNat_bits, two_pow_eight_mul, shiftAll_self]
  exact s.number_rotateRight h

/-- Twice the number and the carry make up the same sum before the two rotations, between them and
behind them. -/
theorem shiftAll_restores (s : Core Bus) {places : List Place} (h : Place.Separate places) :
    let t := s.executeAll (shiftAll .rl .rl places ++ shiftAll .rr .rr places.reverse)
    t.bytesAt places = s.bytesAt places ∧ t.cpu.regs.f.carry = s.cpu.regs.f.carry := by
  intro t
  let u := s.executeAll (places.flatMap (Place.code .rl))
  have hRun : t = u.executeAll (places.reverse.flatMap (Place.code .rr)) := by
    change s.executeAll (shiftAll .rl .rl places ++ shiftAll .rr .rr places.reverse) = _
    rw [shiftAll_self, shiftAll_self]
    exact List.foldl_append
  have hLeft := s.number_rotateLeft h
  have hRight := u.number_rotateRight h
  rw [← hRun] at hRight
  have hWhole : t.number places + t.number places + t.cpu.regs.f.carry.toNat =
      s.number places + s.number places + s.cpu.regs.f.carry.toNat := hRight.trans hLeft.symm
  have hBit := t.cpu.regs.f.carry.toNat_lt
  have hBit' := s.cpu.regs.f.carry.toNat_lt
  constructor
  · exact bytesAt_eq_of_number_eq (by omega)
  · exact Function.LeftInverse.injective Bool.ofNat_toNat (by omega)

/-- Bytes in registers and on plain addresses are shifted as one number, whatever their count: to
the left it is doubled, to the right it is halved, with or without its sign. With the carry rotated
through all bytes, the carry and the number turn as one string of bits, and a rotation to the right
undoes one to the left. Each shift clears the flags that it does not decide and changes nothing
besides its operand. -/
theorem multi_byte_shifts (s : Core Bus) {places : List Place} (hSome : places ≠ [])
    (h : Place.Separate places) :
    let size := 256 ^ places.length
    let x := s.number places
    (let t := s.executeAll (shiftAll .sla .rl places)
     t.number places = 2 * x % size ∧ (t.cpu.regs.f.carry = true ↔ size ≤ 2 * x)) ∧
    (let t := s.executeAll (shiftAll .srl .rr places.reverse)
     t.number places = x / 2 ∧ t.cpu.regs.f.carry.toNat = x % 2) ∧
    (let t := s.executeAll (shiftAll .sra .rr places.reverse)
     (t.bits places).toInt = (s.bits places).toInt / 2 ∧ t.cpu.regs.f.carry.toNat = x % 2) ∧
    (s.executeAll (shiftAll .rl .rl places)).ring places = (s.ring places).rotateLeft 1 ∧
    (s.executeAll (shiftAll .rr .rr places.reverse)).ring places =
      (s.ring places).rotateRight 1 ∧
    (let t := s.executeAll (shiftAll .rl .rl places ++ shiftAll .rr .rr places.reverse)
     t.bytesAt places = s.bytesAt places ∧ t.cpu.regs.f.carry = s.cpu.regs.f.carry) ∧
    ∀ (u : Core Bus) (op : Shift) (o : Operand),
      (o = .atHL → Address.IsPlain u.cpu.regs.hl) → u.Shifts op o (u.execute (.shift op o)) := by
  intro size x
  refine ⟨s.number_sla hSome h, s.number_srl hSome h, s.toInt_sra hSome h, s.ring_rl hSome h,
    s.ring_rr hSome h, s.shiftAll_restores h, shifts_execute⟩

/-- The number 0x8081, with its low byte in a register and its high byte in memory. -/
def mixedNumber : Core Bus where
  cpu := { Cpu.powerOn with regs := { Registers.powerOn with b := 0x81 } }
  memory := { Bus.empty with store := Store.zero.set 0xC000 0x80 }

theorem multi_byte_shifts_mixedNumber :
    let places := [.reg .b, .ram 0xC000]
    let left := mixedNumber.executeAll (shiftAll .sla .rl places)
    let right := mixedNumber.executeAll (shiftAll .srl .rr places.reverse)
    left.number places = 0x0102 ∧ left.cpu.regs.f.carry = true ∧
      right.number places = 0x4040 ∧ right.cpu.regs.f.carry.toNat = 1 := by
  intro places left right
  have hSeparate : Place.Separate places := by
    constructor
    · simp [places, Place.Apart]
    · intro a ha
      obtain rfl : a = 0xC000 := by simpa [places] using ha
      decide
  have hNumber : mixedNumber.number places = 0x8081 := by decide +kernel
  obtain ⟨⟨hLeft, hCarry⟩, ⟨hRight, hBit⟩, -⟩ :=
    multi_byte_shifts mixedNumber (List.cons_ne_nil _ _) hSeparate
  rw [hNumber] at hLeft hCarry hRight hBit
  exact ⟨hLeft, hCarry.mpr (by decide), hRight, hBit⟩

end Core
end DotMatrix
