import DotMatrix.Proofs.OpcodeFields

/-!
# Encodings

An instruction decodes exactly from the bytes that it encodes to. Decoding by bit fields is followed
field by field in both directions: each table is undone by the code of what it holds.
-/

namespace DotMatrix

namespace Instruction

theorem one_prefix_iff {a op n m : UInt8} : [a] <+: [op, n, m] ↔ a = op := by
  rw [List.cons_prefix_cons]
  exact and_iff_left List.nil_prefix

theorem two_prefix_iff {a b op n m : UInt8} : [a, b] <+: [op, n, m] ↔ a = op ∧ b = n := by
  rw [List.cons_prefix_cons, List.cons_prefix_cons]
  exact and_congr_right fun _ => and_iff_left List.nil_prefix

theorem withWord_prefix_iff {a op n m : UInt8} {w : UInt16} :
    withWord a w <+: [op, n, m] ↔ a = op ∧ w = Word.ofBytes m n := by
  rw [withWord, List.cons_prefix_cons, List.cons_prefix_cons, List.cons_prefix_cons]
  refine and_congr_right fun _ => ?_
  constructor
  · rintro ⟨rfl, rfl, -⟩
    exact (Word.ofBytes_high_low w).symm
  · rintro rfl
    exact ⟨Word.low_ofBytes m n, Word.high_ofBytes m n, List.nil_prefix⟩

end Instruction

namespace Fields

open Instruction

theorem four_le_of_ne : ∀ y : Fin 8, y ≠ 0 → y ≠ 1 → y ≠ 2 → y ≠ 3 → 4 ≤ y.val := by
  decide

theorem lt_four_of_ne : ∀ y : Fin 8, y ≠ 4 → y ≠ 5 → y ≠ 6 → y ≠ 7 → y.val < 4 := by
  decide

theorem even_of_ne : ∀ y : Fin 8, y ≠ 1 → y ≠ 3 → y ≠ 5 → y ≠ 7 → q y = 0 := by
  decide

theorem packed_fields (op : UInt8) : packed (x op) (y op) (z op) = op := by
  apply UInt8.toNat_inj.mp
  have hOp := op.toNat_lt
  simp only [x, y, z, packed, UInt8.toNat_ofNat']
  omega

theorem x_packed (a : Fin 4) (b c : Fin 8) : x (packed a b c) = a := by
  apply Fin.ext
  simp only [x, packed, UInt8.toNat_ofNat']
  omega

theorem y_packed (a : Fin 4) (b c : Fin 8) : y (packed a b c) = b := by
  apply Fin.ext
  simp only [y, packed, UInt8.toNat_ofNat']
  omega

theorem z_packed (a : Fin 4) (b c : Fin 8) : z (packed a b c) = c := by
  apply Fin.ext
  simp only [z, packed, UInt8.toNat_ofNat']
  omega

theorem decode_packed (a : Fin 4) (b c : Fin 8) (n m : UInt8) :
    decode (packed a b c) n m = instruction a b c n (Word.ofBytes m n) n.toInt8 := by
  rw [decode, x_packed, y_packed, z_packed]

theorem two_mul_p_of_even {y : Fin 8} (h : q y = 0) : 2 * (p y).val = y := by
  have hBit : y.val % 2 = 0 := congrArg Fin.val h
  simp only [p]
  omega

theorem two_mul_p_of_odd {y : Fin 8} (h : ¬ q y = 0) : 2 * (p y).val + 1 = y := by
  have hBit : y.val % 2 ≠ 0 := fun hZero => h (Fin.ext hZero)
  simp only [p]
  omega

/-! ## The tables and the codes of what they hold -/

theorem code_operand (n : Fin 8) : (operand n).code = n := by
  revert n
  decide

theorem exists_operand (o : Operand) : ∃ n, operand n = o := by
  refine ⟨Fin.ofNat 8 o.code, ?_⟩
  cases o with
  | atHL => rfl
  | reg r => cases r <;> rfl

theorem code_wideRegister (n : Fin 4) : (wideRegister n).code = n := by
  revert n
  decide

theorem code_stackPair (n : Fin 4) : (stackPair n).code = n := by
  revert n
  decide

theorem code_pointer (n : Fin 4) : (pointer n).code = n := by
  revert n
  decide

theorem code_condition : ∀ y : Fin 8, y.val < 4 → (condition (Fin.ofNat 4 y)).code = y := by
  decide

/-- The conditions of the relative jumps are the upper half of the field. -/
theorem code_condition_sub : ∀ y : Fin 8, 4 ≤ y.val →
    4 + (condition (Fin.ofNat 4 (y - 4))).code = y := by
  decide

theorem code_aluOp (n : Fin 8) : (aluOp n).code = n := by
  revert n
  decide

theorem exists_aluOp (op : AluOp) : ∃ n, aluOp n = op :=
  ⟨Fin.ofNat 8 op.code, by cases op <;> rfl⟩

theorem code_shiftOp (n : Fin 8) : (shiftOp n).code = n := by
  revert n
  decide

theorem exists_shiftOp (op : Shift) : ∃ n, shiftOp n = op :=
  ⟨Fin.ofNat 8 op.code, by cases op <;> rfl⟩

theorem encode_accumulatorOp (n : Fin 8) : (accumulatorOp n).encode = [packed 0 n 7] := by
  revert n
  decide

theorem encode_operation (a : Fin 4) (b c : Fin 8) :
    (operation a b c).encode = [packed 3 1 3, packed a b c] := by
  unfold operation
  split
  · rw [encode, code_shiftOp, code_operand]
    rfl
  · rw [encode, code_operand]
    rfl
  · rw [encode, code_operand]
    rfl
  · rw [encode, code_operand]
    rfl

theorem encode_bitOperation (op : UInt8) : (bitOperation op).encode = [packed 3 1 3, op] := by
  rw [bitOperation, encode_operation, packed_fields]

/-! ## What is decoded encodes to the bytes that it was decoded from -/

theorem firstQuarter_encode (y z : Fin 8) (n m : UInt8) :
    (firstQuarter y z n (Word.ofBytes m n) n.toInt8).encode <+: [packed 0 y z, n, m] := by
  unfold firstQuarter
  split
  · split
    · exact one_prefix_iff.mpr rfl
    · exact withWord_prefix_iff.mpr ⟨rfl, rfl⟩
    · exact two_prefix_iff.mpr ⟨rfl, rfl⟩
    · exact two_prefix_iff.mpr ⟨rfl, rfl⟩
    next h0 h1 h2 h3 =>
      rw [encode, code_condition_sub _ (four_le_of_ne _ h0 h1 h2 h3)]
      exact two_prefix_iff.mpr ⟨rfl, rfl⟩
  · split
    next h =>
      rw [encode, code_wideRegister, two_mul_p_of_even h]
      exact withWord_prefix_iff.mpr ⟨rfl, rfl⟩
    next h =>
      rw [encode, code_wideRegister, two_mul_p_of_odd h]
      exact one_prefix_iff.mpr rfl
  · split
    next h =>
      rw [encode, code_pointer, two_mul_p_of_even h]
      exact one_prefix_iff.mpr rfl
    next h =>
      rw [encode, code_pointer, two_mul_p_of_odd h]
      exact one_prefix_iff.mpr rfl
  · split
    next h =>
      rw [encode, code_wideRegister, two_mul_p_of_even h]
      exact one_prefix_iff.mpr rfl
    next h =>
      rw [encode, code_wideRegister, two_mul_p_of_odd h]
      exact one_prefix_iff.mpr rfl
  · rw [encode, code_operand]
    exact one_prefix_iff.mpr rfl
  · rw [encode, code_operand]
    exact one_prefix_iff.mpr rfl
  · rw [encode, code_operand]
    exact two_prefix_iff.mpr ⟨rfl, rfl⟩
  · rw [encode_accumulatorOp]
    exact one_prefix_iff.mpr rfl

theorem lastQuarter_encode {y z : Fin 8} {n m : UInt8} {i : Instruction}
    (h : lastQuarter y z n (Word.ofBytes m n) n.toInt8 = some i) :
    i.encode <+: [packed 3 y z, n, m] := by
  unfold lastQuarter at h
  split at h
  · split at h <;> cases h
    · exact two_prefix_iff.mpr ⟨rfl, rfl⟩
    · exact two_prefix_iff.mpr ⟨rfl, rfl⟩
    · exact two_prefix_iff.mpr ⟨rfl, rfl⟩
    · exact two_prefix_iff.mpr ⟨rfl, rfl⟩
    next h4 h5 h6 h7 =>
      rw [encode, code_condition _ (lt_four_of_ne _ h4 h5 h6 h7)]
      exact one_prefix_iff.mpr rfl
  · split at h <;> cases h
    · exact one_prefix_iff.mpr rfl
    · exact one_prefix_iff.mpr rfl
    · exact one_prefix_iff.mpr rfl
    · exact one_prefix_iff.mpr rfl
    next h1 h3 h5 h7 =>
      rw [encode, code_stackPair, two_mul_p_of_even (even_of_ne _ h1 h3 h5 h7)]
      exact one_prefix_iff.mpr rfl
  · split at h <;> cases h
    · exact one_prefix_iff.mpr rfl
    · exact withWord_prefix_iff.mpr ⟨rfl, rfl⟩
    · exact one_prefix_iff.mpr rfl
    · exact withWord_prefix_iff.mpr ⟨rfl, rfl⟩
    next h4 h5 h6 h7 =>
      rw [encode, code_condition _ (lt_four_of_ne _ h4 h5 h6 h7)]
      exact withWord_prefix_iff.mpr ⟨rfl, rfl⟩
  · split at h <;> cases h
    · exact withWord_prefix_iff.mpr ⟨rfl, rfl⟩
    · rw [encode_bitOperation]
      exact two_prefix_iff.mpr ⟨rfl, rfl⟩
    · exact one_prefix_iff.mpr rfl
    · exact one_prefix_iff.mpr rfl
  · split at h <;> cases h
    next hLow =>
      rw [encode, code_condition _ hLow]
      exact withWord_prefix_iff.mpr ⟨rfl, rfl⟩
  · split at h
    next hEven =>
      cases h
      rw [encode, code_stackPair, two_mul_p_of_even hEven]
      exact one_prefix_iff.mpr rfl
    · split at h <;> cases h
      next hOne =>
        obtain rfl : y = 1 := Fin.ext hOne
        exact withWord_prefix_iff.mpr ⟨rfl, rfl⟩
  · cases h
    rw [encode, code_aluOp]
    exact two_prefix_iff.mpr ⟨rfl, rfl⟩
  · cases h
    exact one_prefix_iff.mpr rfl

theorem encode_of_instruction {a : Fin 4} {b c : Fin 8} {n m : UInt8} {i : Instruction}
    (h : instruction a b c n (Word.ofBytes m n) n.toInt8 = some i) :
    i.encode <+: [packed a b c, n, m] := by
  unfold instruction at h
  split at h
  · cases h
    exact firstQuarter_encode b c n m
  · cases h
    split
    next hBoth =>
      obtain rfl : b = 6 := Fin.ext hBoth.1
      obtain rfl : c = 6 := Fin.ext hBoth.2
      exact one_prefix_iff.mpr rfl
    · rw [encode, code_operand, code_operand]
      exact one_prefix_iff.mpr rfl
  · cases h
    rw [encode, code_aluOp, code_operand]
    exact one_prefix_iff.mpr rfl
  · exact lastQuarter_encode h

theorem encode_of_decode {op n m : UInt8} {i : Instruction} (h : decode op n m = some i) :
    i.encode <+: [op, n, m] := by
  rw [← packed_fields op]
  exact encode_of_instruction h

/-! ## What is encoded decodes back -/

theorem bitOperation_packed (a : Fin 4) (b c : Fin 8) :
    bitOperation (packed a b c) = operation a b c := by
  rw [bitOperation, x_packed, y_packed, z_packed]

/-- Operands and operations are taken from their tables, so that the byte is packed from fields. A
part with few values is decoded value by value. -/
theorem decode_of_encode {op n m : UInt8} {i : Instruction} (hNot : i ≠ .load .atHL .atHL)
    (h : i.encode <+: [op, n, m]) : decode op n m = some i := by
  cases i with
  | nop | halt | loadAHighC | storeAHighC | loadSPFromHL | daa | cpl | scf | ccf | jumpHL
  | retEnable | di | ei =>
    obtain rfl := one_prefix_iff.mp h
    rfl
  | stop | loadAHigh | storeAHigh | loadHLFromSP | addSP =>
    obtain ⟨rfl, rfl⟩ := two_prefix_iff.mp h
    rfl
  | loadAAt | storeAAt | storeSP =>
    obtain ⟨rfl, rfl⟩ := withWord_prefix_iff.mp h
    rfl
  | loadA r | storeA r | addHL r | incWide r | decWide r | push r | pop r | rotateA r =>
    obtain rfl := one_prefix_iff.mp h
    cases r <;> rfl
  | loadWord dest w =>
    obtain ⟨rfl, rfl⟩ := withWord_prefix_iff.mp h
    cases dest <;> rfl
  | load dest source =>
    obtain ⟨b, rfl⟩ := exists_operand dest
    obtain ⟨c, rfl⟩ := exists_operand source
    rw [encode, code_operand, code_operand, one_prefix_iff] at h
    subst h
    have hNotBoth : ¬ (b.val = 6 ∧ c.val = 6) := by
      rintro ⟨hDest, hSource⟩
      obtain rfl : b = 6 := Fin.ext hDest
      obtain rfl : c = 6 := Fin.ext hSource
      exact hNot rfl
    exact (decode_packed 1 b c n m).trans (congrArg some (if_neg hNotBoth))
  | loadByte dest v =>
    obtain ⟨b, rfl⟩ := exists_operand dest
    rw [encode, code_operand, two_prefix_iff] at h
    obtain ⟨rfl, rfl⟩ := h
    exact decode_packed 0 b 6 v m
  | inc o =>
    obtain ⟨b, rfl⟩ := exists_operand o
    rw [encode, code_operand, one_prefix_iff] at h
    subst h
    exact decode_packed 0 b 4 n m
  | dec o =>
    obtain ⟨b, rfl⟩ := exists_operand o
    rw [encode, code_operand, one_prefix_iff] at h
    subst h
    exact decode_packed 0 b 5 n m
  | alu op source =>
    obtain ⟨b, rfl⟩ := exists_aluOp op
    cases source with
    | operand o =>
      obtain ⟨c, rfl⟩ := exists_operand o
      rw [encode, code_aluOp, code_operand, one_prefix_iff] at h
      subst h
      exact decode_packed 2 b c n m
    | immediate v =>
      rw [encode, code_aluOp, two_prefix_iff] at h
      obtain ⟨rfl, rfl⟩ := h
      exact decode_packed 3 b 6 v m
  | shift op o =>
    obtain ⟨b, rfl⟩ := exists_shiftOp op
    obtain ⟨c, rfl⟩ := exists_operand o
    rw [encode, code_shiftOp, code_operand, two_prefix_iff] at h
    obtain ⟨rfl, rfl⟩ := h
    exact congrArg some (bitOperation_packed 0 b c)
  | bit op index o =>
    obtain ⟨c, rfl⟩ := exists_operand o
    rw [encode, code_operand, two_prefix_iff] at h
    obtain ⟨rfl, rfl⟩ := h
    cases op with
    | test => exact congrArg some (bitOperation_packed 1 index c)
    | reset => exact congrArg some (bitOperation_packed 2 index c)
    | set => exact congrArg some (bitOperation_packed 3 index c)
  | jumpBy condition offset =>
    cases condition with
    | none =>
      obtain ⟨rfl, rfl⟩ := two_prefix_iff.mp h
      rfl
    | some c =>
      obtain ⟨rfl, rfl⟩ := two_prefix_iff.mp h
      cases c <;> rfl
  | jump condition address | call condition address =>
    cases condition with
    | none =>
      obtain ⟨rfl, rfl⟩ := withWord_prefix_iff.mp h
      rfl
    | some c =>
      obtain ⟨rfl, rfl⟩ := withWord_prefix_iff.mp h
      cases c <;> rfl
  | ret condition =>
    cases condition with
    | none =>
      obtain rfl := one_prefix_iff.mp h
      rfl
    | some c =>
      obtain rfl := one_prefix_iff.mp h
      cases c <;> rfl
  | restart vector =>
    obtain rfl := one_prefix_iff.mp h
    exact decode_packed 3 vector 7 n m

theorem decode_eq_some_iff {op n m : UInt8} {i : Instruction} :
    decode op n m = some i ↔ i ≠ .load .atHL .atHL ∧ i.encode <+: [op, n, m] := by
  constructor
  · intro h
    have hBytes := encode_of_decode h
    refine ⟨?_, hBytes⟩
    rintro rfl
    obtain rfl := one_prefix_iff.mp hBytes
    cases h
  · rintro ⟨hNot, hBytes⟩
    exact decode_of_encode hNot hBytes

end Fields

namespace Instruction

/-- The bytes at an address, where addresses wrap. -/
def bytesAt (read : UInt16 → UInt8) (pc : UInt16) (n : Nat) : List UInt8 :=
  (List.range n).map fun k => read (pc + UInt16.ofNat k)

theorem bytesAt_eq_iff {read₁ read₂ : UInt16 → UInt8} {pc₁ pc₂ : UInt16} {n : Nat} :
    bytesAt read₁ pc₁ n = bytesAt read₂ pc₂ n ↔
      ∀ k < n, read₁ (pc₁ + UInt16.ofNat k) = read₂ (pc₂ + UInt16.ofNat k) := by
  rw [bytesAt, bytesAt, List.map_inj_left]
  exact forall_congr' fun k => by rw [List.mem_range]

theorem take_bytesAt (read : UInt16 → UInt8) (pc : UInt16) {n k : Nat} (h : k ≤ n) :
    (bytesAt read pc n).take k = bytesAt read pc k := by
  rw [bytesAt, ← List.map_take, List.take_range, Nat.min_eq_left h]
  rfl

/-- An address holds an instruction that has an encoding exactly if it holds the encoding. -/
theorem decodeAt_eq_ok_iff_encode {read : UInt16 → UInt8} {pc : UInt16} {i : Instruction} :
    decodeAt read pc = .ok i ↔
      i ≠ .load .atHL .atHL ∧ i.encode = bytesAt read pc i.size := by
  have hBytes : [read pc, read (pc + 1), read (pc + 2)] = bytesAt read pc 3 := by
    simp [bytesAt, List.range_succ]
  rw [decodeAt_eq_ok_iff, ofBytes?_eq_fields, Fields.decode_eq_some_iff, hBytes,
    List.prefix_iff_eq_take, length_encode, take_bytesAt read pc i.size_le_three]

/-- An instruction is as long as the bytes that decoding reads. The same bytes decode to it at every
address of every memory, and no other bytes do. -/
theorem decodeAt_exact {read₁ read₂ : UInt16 → UInt8} {pc₁ pc₂ : UInt16} {i : Instruction}
    (h : decodeAt read₁ pc₁ = .ok i) :
    (i.size = 1 ∨ i.size = 2 ∨ i.size = 3) ∧
      i.encode = bytesAt read₁ pc₁ i.size ∧
      (decodeAt read₂ pc₂ = .ok i ↔
        ∀ k < i.size, read₂ (pc₂ + UInt16.ofNat k) = read₁ (pc₁ + UInt16.ofNat k)) := by
  obtain ⟨hNot, hEncode⟩ := decodeAt_eq_ok_iff_encode.mp h
  have hPos := i.size_pos
  have hLe := i.size_le_three
  refine ⟨by omega, hEncode, ?_⟩
  rw [decodeAt_eq_ok_iff_encode, and_iff_right hNot, hEncode, eq_comm]
  exact bytesAt_eq_iff

/-- A jump whose address is behind the end of the address space. -/
def wrappedJump (a : UInt16) : UInt8 :=
  if a = 0xFFFF then 0xC3 else if a = 0x0000 then 0x34 else 0x12

theorem decodeAt_exact_wrappedJump :
    decodeAt wrappedJump 0xFFFF = .ok (jump none 0x1234) ∧
      (jump none 0x1234).encode = bytesAt wrappedJump 0xFFFF 3 ∧
      decodeAt (fun a => wrappedJump (a - 0x0151)) 0x0150 = .ok (jump none 0x1234) := by
  have hJump : decodeAt wrappedJump 0xFFFF = .ok (jump none 0x1234) := by
    rfl
  obtain ⟨-, hEncode, hMoved⟩ :=
    @decodeAt_exact _ (fun a => wrappedJump (a - 0x0151)) _ 0x0150 _ hJump
  exact ⟨hJump, hEncode, hMoved.mpr (by decide)⟩

end Instruction
end DotMatrix
