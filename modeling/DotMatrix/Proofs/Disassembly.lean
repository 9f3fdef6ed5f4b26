import DotMatrix.Event
import DotMatrix.Instruction.Line
import DotMatrix.Proofs.Encodings

/-!
# Disassembly

The text of an instruction is read back to the instruction, up to the padding of a STOP. So two
instructions that are shown alike are one, and a line of the trace tells the bytes that it was
decoded from.
-/

namespace DotMatrix

namespace Digits

theorem value_digit : ∀ n < 16, value (Hex.digit n) = n := by
  decide

theorem toNat_byteDigits (v : UInt8) : toNat 16 (Hex.byteDigits v) = v.toNat := by
  have hLt := v.toNat_lt
  simp only [toNat, Hex.byteDigits, List.foldl_cons, List.foldl_nil, push]
  rw [value_digit _ (by omega), value_digit _ (by omega)]
  omega

theorem toNat_wordDigits (v : UInt16) : toNat 16 (Hex.wordDigits v) = v.toNat := by
  have hLt := v.toNat_lt
  simp only [toNat, Hex.wordDigits, List.foldl_cons, List.foldl_nil, push]
  rw [value_digit _ (by omega), value_digit _ (by omega), value_digit _ (by omega),
    value_digit _ (by omega)]
  omega

end Digits

theorem Hex.word_append_inj {v w : UInt16} {s t : String} :
    word v ++ s = word w ++ t ↔ v = w ∧ s = t := by
  constructor
  · intro h
    have hChars := congrArg String.toList h
    rw [String.toList_append, String.toList_append, toList_word, toList_word] at hChars
    obtain ⟨hWord, hRest⟩ := List.append_inj hChars rfl
    refine ⟨UInt16.toNat_inj.mp ?_, String.toList_inj.mp hRest⟩
    rw [← Digits.toNat_wordDigits v, ← Digits.toNat_wordDigits w]
    exact congrArg (fun cs => Digits.toNat 16 (cs.drop 2)) hWord
  · rintro ⟨rfl, rfl⟩
    rfl

/-! ## Words -/

/-- None of the characters between the words of a line is among these. -/
def Unbroken (cs : List Char) : Prop :=
  ' ' ∉ cs ∧ ',' ∉ cs

instance (cs : List Char) : Decidable (Unbroken cs) :=
  inferInstanceAs (Decidable (_ ∧ _))

theorem unbroken_cons {c : Char} {cs : List Char} :
    Unbroken (c :: cs) ↔ (c ≠ ' ' ∧ c ≠ ',') ∧ Unbroken cs := by
  rw [Unbroken, List.mem_cons, List.mem_cons, not_or, not_or, and_and_and_comm]
  simp only [Unbroken, ne_comm, ne_eq]

theorem unbroken_append {cs ds : List Char} :
    Unbroken (cs ++ ds) ↔ Unbroken cs ∧ Unbroken ds := by
  rw [Unbroken, List.mem_append, List.mem_append, not_or, not_or, and_and_and_comm]
  rfl

namespace Unbroken

theorem filter_comma {cs : List Char} (h : Unbroken cs) : cs.filter (· != ',') = cs := by
  apply List.filter_eq_self.mpr
  intro c hc
  rw [bne_iff_ne]
  rintro rfl
  exact h.2 hc

theorem hexDigit : ∀ n < 16, Hex.digit n ≠ ' ' ∧ Hex.digit n ≠ ',' := by
  decide

theorem marked {digits : List Char} (h : Unbroken digits) : Unbroken ('0' :: 'x' :: digits) :=
  unbroken_cons.mpr ⟨by decide, unbroken_cons.mpr ⟨by decide, h⟩⟩

theorem byteDigits (v : UInt8) : Unbroken (Hex.byteDigits v) := by
  have hLt := v.toNat_lt
  refine unbroken_cons.mpr ⟨hexDigit _ (by omega), ?_⟩
  exact unbroken_cons.mpr ⟨hexDigit _ (by omega), by decide⟩

theorem wordDigits (v : UInt16) : Unbroken (Hex.wordDigits v) := by
  have hLt := v.toNat_lt
  refine unbroken_cons.mpr ⟨hexDigit _ (by omega), ?_⟩
  refine unbroken_cons.mpr ⟨hexDigit _ (by omega), ?_⟩
  refine unbroken_cons.mpr ⟨hexDigit _ (by omega), ?_⟩
  exact unbroken_cons.mpr ⟨hexDigit _ (by omega), by decide⟩

/-- No offset is more than 128 away from zero. -/
theorem decimal : ∀ n < 129, Unbroken (Nat.toDigits 10 n) := by
  decide +kernel

end Unbroken

/-! ## Operands -/

namespace Instruction

theorem signed_cases (n : Int8) : ∃ k < 129,
    (n = Int8.ofNat k ∧ (signed n).toList = Nat.toDigits 10 k ∧
      (explicitlySigned n).toList = '+' :: Nat.toDigits 10 k) ∨
    (n = -Int8.ofNat k ∧ (signed n).toList = '-' :: Nat.toDigits 10 k ∧
      (explicitlySigned n).toList = '-' :: Nat.toDigits 10 k) := by
  have hLow := n.le_toInt
  have hHigh := n.toInt_lt
  cases hInt : n.toInt with
  | ofNat k =>
    rw [hInt, Int.ofNat_eq_natCast] at hHigh
    refine ⟨k, by omega, .inl ⟨?_, ?_, ?_⟩⟩
    · rw [← Int8.ofInt_toInt n, hInt]
      rfl
    · simp [signed, hInt]
    · simp [explicitlySigned, hInt]
  | negSucc k =>
    refine ⟨k + 1, by omega, .inr ⟨?_, ?_, ?_⟩⟩
    · rw [← Int8.ofInt_toInt n, hInt, Int.negSucc_eq, Int8.ofInt_neg]
      rfl
    · simp [signed, hInt]
    · simp [explicitlySigned, hInt]

end Instruction

namespace Token

open Instruction

/-- The text of an operand is one word, which is read back. -/
structure IsSound (t : Token) : Prop where
  reads : ofChars t.text.toList = t
  unbroken : Unbroken t.text.toList

theorem isSound_iff {t : Token} :
    t.IsSound ↔ ofChars t.text.toList = t ∧ Unbroken t.text.toList := by
  constructor
  · rintro ⟨hReads, hUnbroken⟩
    exact ⟨hReads, hUnbroken⟩
  · rintro ⟨hReads, hUnbroken⟩
    exact ⟨hReads, hUnbroken⟩

instance (t : Token) : Decidable t.IsSound :=
  decidable_of_iff _ isSound_iff.symm

theorem byte_sound (n : UInt8) : (byte n).IsSound := by
  rw [isSound_iff, text, Hex.toList_byte]
  constructor
  · change byte (UInt8.ofNat (Digits.toNat 16 (Hex.byteDigits n))) = byte n
    rw [Digits.toNat_byteDigits, UInt8.ofNat_toNat]
  · exact (Unbroken.byteDigits n).marked

theorem word_sound (n : UInt16) : (word n).IsSound := by
  rw [isSound_iff, text, Hex.toList_word]
  constructor
  · change word (UInt16.ofNat (Digits.toNat 16 (Hex.wordDigits n))) = word n
    rw [Digits.toNat_wordDigits, UInt16.ofNat_toNat]
  · exact (Unbroken.wordDigits n).marked

theorem address_sound (n : UInt16) : (address n).IsSound := by
  have hText : (address n).text.toList = '(' :: '0' :: 'x' :: (Hex.wordDigits n ++ [')']) := by
    simp [text, Hex.toList_word]
  rw [isSound_iff, hText]
  constructor
  · change address (UInt16.ofNat (Digits.toNat 16 (Hex.wordDigits n ++ [')']).dropLast)) = _
    rw [List.dropLast_concat, Digits.toNat_wordDigits, UInt16.ofNat_toNat]
  · have hDigits : Unbroken (Hex.wordDigits n ++ [')']) :=
      unbroken_append.mpr ⟨Unbroken.wordDigits n, by decide⟩
    exact unbroken_cons.mpr ⟨by decide, hDigits.marked⟩

theorem ofChars_decimal : ∀ k < 129,
    ofChars (Nat.toDigits 10 k) = offset (Int8.ofNat k) ∧
      ofChars ('-' :: Nat.toDigits 10 k) = offset (-Int8.ofNat k) := by
  decide +kernel

theorem ofChars_stackPointer : ∀ k < 129,
    ofChars ('S' :: 'P' :: '+' :: Nat.toDigits 10 k) = stackOffset (Int8.ofNat k) ∧
      ofChars ('S' :: 'P' :: '-' :: Nat.toDigits 10 k) = stackOffset (-Int8.ofNat k) := by
  decide +kernel

theorem offset_sound (n : Int8) : (offset n).IsSound := by
  obtain ⟨k, hk, ⟨rfl, hText, -⟩ | ⟨rfl, hText, -⟩⟩ := signed_cases n
  · rw [isSound_iff, text, hText]
    exact ⟨(ofChars_decimal k hk).1, Unbroken.decimal k hk⟩
  · rw [isSound_iff, text, hText]
    exact ⟨(ofChars_decimal k hk).2, unbroken_cons.mpr ⟨by decide, Unbroken.decimal k hk⟩⟩

theorem stackOffset_sound (n : Int8) : (stackOffset n).IsSound := by
  obtain ⟨k, hk, ⟨rfl, -, hText⟩ | ⟨rfl, -, hText⟩⟩ := signed_cases n
  · rw [isSound_iff, text, String.toList_append, hText]
    refine ⟨(ofChars_stackPointer k hk).1, unbroken_append.mpr ⟨by decide, ?_⟩⟩
    exact unbroken_cons.mpr ⟨by decide, Unbroken.decimal k hk⟩
  · rw [isSound_iff, text, String.toList_append, hText]
    refine ⟨(ofChars_stackPointer k hk).2, unbroken_append.mpr ⟨by decide, ?_⟩⟩
    exact unbroken_cons.mpr ⟨by decide, Unbroken.decimal k hk⟩

theorem operand_sound (o : Operand) : (name o.text).IsSound := by
  obtain ⟨n, rfl⟩ := Fields.exists_operand o
  revert n
  decide

theorem wideRegister_sound (r : WideRegister) : (name r.text).IsSound := by
  cases r <;> decide

theorem stackPair_sound (pair : StackPair) : (name pair.text).IsSound := by
  cases pair <;> decide

theorem pointer_sound (p : Pointer) : (name p.text).IsSound := by
  cases p <;> decide

theorem condition_sound (c : Condition) : (name c.text).IsSound := by
  cases c <;> decide

theorem source_sound (source : Source) : source.token.IsSound := by
  cases source with
  | operand o => exact operand_sound o
  | immediate n => exact byte_sound n

end Token

/-! ## Lines -/

namespace Line

def IsSound : Line → Prop
  | bare mnemonic => Unbroken mnemonic.toList
  | unary mnemonic operand => Unbroken mnemonic.toList ∧ operand.IsSound
  | binary mnemonic first second => Unbroken mnemonic.toList ∧ first.IsSound ∧ second.IsSound

instance : (l : Line) → Decidable l.IsSound
  | bare _ => inferInstanceAs (Decidable (Unbroken _))
  | unary _ _ | binary _ _ _ => inferInstanceAs (Decidable (_ ∧ _))

/-- What a line is made of, without the punctuation. -/
def words : Line → List (List Char)
  | bare mnemonic => [mnemonic.toList]
  | unary mnemonic operand => [mnemonic.toList, operand.text.toList]
  | binary mnemonic first second => [mnemonic.toList, first.text.toList, second.text.toList]

theorem IsSound.words_unbroken {l : Line} (h : l.IsSound) : ∀ w ∈ l.words, Unbroken w := by
  cases l with
  | bare mnemonic => exact List.forall_mem_singleton.mpr h
  | unary mnemonic operand =>
    obtain ⟨hMnemonic, hOperand⟩ := h
    simpa [words] using ⟨hMnemonic, hOperand.unbroken⟩
  | binary mnemonic first second =>
    obtain ⟨hMnemonic, hFirst, hSecond⟩ := h
    simpa [words] using ⟨hMnemonic, hFirst.unbroken, hSecond.unbroken⟩

theorem filter_comma_text {l : Line} (h : l.IsSound) :
    l.text.toList.filter (· != ',') = [' '].intercalate l.words := by
  cases l with
  | bare mnemonic =>
    have hMnemonic : Unbroken mnemonic.toList := h
    simp [text, words, hMnemonic.filter_comma]
  | unary mnemonic operand =>
    obtain ⟨hMnemonic, hOperand⟩ := h
    simp [text, words, hMnemonic.filter_comma, hOperand.unbroken.filter_comma]
  | binary mnemonic first second =>
    obtain ⟨hMnemonic, hFirst, hSecond⟩ := h
    simp [text, words, hMnemonic.filter_comma, hFirst.unbroken.filter_comma,
      hSecond.unbroken.filter_comma]

theorem ofText?_text {l : Line} (h : l.IsSound) : ofText? l.text = some l := by
  have hSplit : ([' '].intercalate l.words).splitOn ' ' = l.words := by
    refine List.splitOn_intercalate ' ' (fun w hw => (h.words_unbroken w hw).1) ?_
    cases l <;> exact List.cons_ne_nil _ _
  rw [ofText?, filter_comma_text h, hSplit]
  cases l with
  | bare mnemonic =>
    simp [words]
  | unary mnemonic operand =>
    simp [words, h.2.reads]
  | binary mnemonic first second =>
    simp [words, h.2.1.reads, h.2.2.reads]

end Line

/-! ## Instructions -/

namespace Instruction

open Token

theorem shift_unbroken (op : Shift) : Unbroken op.text.toList := by
  cases op <;> decide

theorem bit_unbroken (op : BitOp) : Unbroken op.text.toList := by
  cases op <;> decide

theorem conditionalLine_sound {mnemonic : String} {target : Token}
    (hMnemonic : Unbroken mnemonic.toList) (hTarget : target.IsSound)
    (condition : Option Condition) : (conditionalLine mnemonic condition target).IsSound := by
  cases condition with
  | none => exact ⟨hMnemonic, hTarget⟩
  | some c => exact ⟨hMnemonic, condition_sound c, hTarget⟩

theorem line_sound (i : Instruction) : i.line.IsSound := by
  cases i with
  | nop | halt | stop | daa | cpl | scf | ccf | retEnable | di | ei =>
    dsimp only [line]
    decide
  | load dest source => exact ⟨by decide, operand_sound dest, operand_sound source⟩
  | loadByte dest n => exact ⟨by decide, operand_sound dest, byte_sound n⟩
  | loadWord dest n => exact ⟨by decide, wideRegister_sound dest, word_sound n⟩
  | loadA source => exact ⟨by decide, by decide, pointer_sound source⟩
  | storeA dest => exact ⟨by decide, pointer_sound dest, by decide⟩
  | loadAAt address | loadAHigh offset => exact ⟨by decide, by decide, address_sound _⟩
  | storeAAt address | storeAHigh offset | storeSP address =>
    exact ⟨by decide, address_sound _, by decide⟩
  | loadAHighC | storeAHighC | loadSPFromHL => exact ⟨by decide, by decide, by decide⟩
  | loadHLFromSP offset => exact ⟨by decide, by decide, stackOffset_sound offset⟩
  | push pair | pop pair => exact ⟨by decide, stackPair_sound pair⟩
  | alu op source =>
    cases op with
    | add | adc | sbc => exact ⟨by decide, by decide, source_sound source⟩
    | sub | and | xor | or | cp => exact ⟨by decide, source_sound source⟩
  | inc o | dec o => exact ⟨by decide, operand_sound o⟩
  | addHL r => exact ⟨by decide, by decide, wideRegister_sound r⟩
  | addSP offset => exact ⟨by decide, by decide, offset_sound offset⟩
  | incWide r | decWide r => exact ⟨by decide, wideRegister_sound r⟩
  | rotateA rotation => cases rotation <;> decide
  | shift op o => exact ⟨shift_unbroken op, operand_sound o⟩
  | bit op index o => exact ⟨bit_unbroken op, offset_sound _, operand_sound o⟩
  | jumpBy condition offset =>
    exact conditionalLine_sound (by decide) (offset_sound offset) condition
  | jump condition address | call condition address =>
    exact conditionalLine_sound (by decide) (word_sound address) condition
  | jumpHL => exact ⟨by decide, by decide⟩
  | ret condition =>
    cases condition with
    | none => decide
    | some c => exact ⟨by decide, condition_sound c⟩
  | restart vector => exact ⟨by decide, byte_sound _⟩

theorem text_line (i : Instruction) : i.line.text = i.text := by
  apply String.toList_inj.mp
  cases i with
  | alu op source =>
    cases op <;> cases source <;>
      simp [line, text, AluOp.line, AluOp.mnemonic, AluOp.text, Source.token, Source.text,
        Line.text, Token.text]
  | jumpBy condition | jump condition | call condition =>
    cases condition <;> simp [line, text, conditionalLine, conditional, Line.text, Token.text]
  | ret condition => cases condition <;> simp [line, text, Line.text, Token.text]
  | bit op index o =>
    have hDigits : signed (Int8.ofNat index) = String.ofList (Nat.toDigits 10 index) := by
      revert index
      decide
    simp [line, text, hDigits, Line.text, Token.text]
  | _ => simp [line, text, highAddress, Line.text, Token.text]

theorem low_highAddress (offset : UInt8) : Word.low (0xFF00 + offset.toUInt16) = offset := by
  apply UInt8.toNat_inj.mp
  have hLt := offset.toNat_lt
  rw [Word.toNat_low, UInt16.toNat_add, UInt8.toNat_toUInt16]
  change (0xFF00 + offset.toNat) % 2 ^ 16 % 256 = offset.toNat
  omega

/-- Operands and operations are taken from their tables, so that all pairs of them are checked. -/
theorem instruction?_line (i : Instruction) : i.line.instruction? = some i.withoutPadding := by
  cases i with
  | nop | halt | stop | loadAAt | storeAAt | loadAHighC | storeAHighC | storeSP | loadSPFromHL
  | loadHLFromSP | addSP | daa | cpl | scf | ccf | jumpHL | retEnable | di | ei => rfl
  | push r | pop r | loadA r | storeA r | rotateA r | addHL r | incWide r | decWide r
  | loadWord r => cases r <;> rfl
  | loadAHigh offset => exact congrArg (some <| loadAHigh ·) (low_highAddress offset)
  | storeAHigh offset => exact congrArg (some <| storeAHigh ·) (low_highAddress offset)
  | jumpBy condition | jump condition | call condition | ret condition =>
    cases condition with
    | none => rfl
    | some c => cases c <;> rfl
  | inc o | dec o | loadByte o =>
    cases o with
    | atHL => rfl
    | reg r => cases r <;> rfl
  | load dest source =>
    obtain ⟨n, rfl⟩ := Fields.exists_operand dest
    obtain ⟨k, rfl⟩ := Fields.exists_operand source
    revert n k
    decide +kernel
  | alu op source =>
    cases source with
    | operand o =>
      obtain ⟨n, rfl⟩ := Fields.exists_aluOp op
      obtain ⟨k, rfl⟩ := Fields.exists_operand o
      revert n k
      decide +kernel
    | immediate v => cases op <;> rfl
  | shift op o =>
    obtain ⟨n, rfl⟩ := Fields.exists_shiftOp op
    obtain ⟨k, rfl⟩ := Fields.exists_operand o
    revert n k
    decide +kernel
  | bit op index o =>
    obtain ⟨k, rfl⟩ := Fields.exists_operand o
    revert index k
    cases op <;> decide +kernel
  | restart vector =>
    revert vector
    decide

/-- The text of an instruction is read back, except for the padding of a STOP. -/
theorem ofText?_text (i : Instruction) : ofText? i.text = some i.withoutPadding := by
  rw [ofText?, ← text_line, Line.ofText?_text i.line_sound]
  exact i.instruction?_line

example : ofText? "LD HL, SP-128" = some (loadHLFromSP (-128)) := by
  rfl

theorem withoutPadding_eq_iff {i j : Instruction} :
    i.withoutPadding = j.withoutPadding ↔ i = j ∨ ∃ p q, i = .stop p ∧ j = .stop q := by
  constructor
  · intro h
    cases i with
    | stop p =>
      cases j with
      | stop q => exact .inr ⟨p, q, rfl, rfl⟩
      | _ => cases h
    | _ =>
      cases j with
      | stop q => cases h
      | _ => exact .inl h
  · rintro (rfl | ⟨p, q, rfl, rfl⟩)
    · rfl
    · rfl

theorem text_eq_iff {i j : Instruction} :
    i.text = j.text ↔ i = j ∨ ∃ p q, i = .stop p ∧ j = .stop q := by
  rw [← withoutPadding_eq_iff]
  constructor
  · intro h
    have hRead := i.ofText?_text
    rw [h, ofText?_text] at hRead
    exact (Option.some.inj hRead).symm
  · intro h
    rcases withoutPadding_eq_iff.mp h with rfl | ⟨p, q, rfl, rfl⟩
    · rfl
    · rfl

/-! ## Lines of the trace -/

theorem eq_of_bytesAt_eq {read₁ read₂ : UInt16 → UInt8} {pc₁ pc₂ : UInt16} {i j : Instruction}
    (hi : decodeAt read₁ pc₁ = .ok i) (hj : decodeAt read₂ pc₂ = .ok j)
    (h : bytesAt read₁ pc₁ i.size = bytesAt read₂ pc₂ j.size) : i = j := by
  obtain ⟨hNot, hEncode⟩ := decodeAt_eq_ok_iff_encode.mp hi
  have hSize : i.size = j.size := by simpa [bytesAt] using congrArg List.length h
  have hBoth : decodeAt read₂ pc₂ = .ok i := by
    refine decodeAt_eq_ok_iff_encode.mpr ⟨hNot, ?_⟩
    rw [hEncode, h, hSize]
  exact Except.ok.inj (hBoth.symm.trans hj)

theorem bytesAt_eq_stop_iff {read : UInt16 → UInt8} {pc : UInt16} {i : Instruction} {p : UInt8}
    (h : decodeAt read pc = .ok i) : bytesAt read pc i.size = [0x10, p] ↔ i = .stop p := by
  obtain ⟨-, hEncode⟩ := decodeAt_eq_ok_iff_encode.mp h
  rw [← hEncode]
  constructor
  · intro hBytes
    have hSize : i.size = 2 := by rw [← length_encode, hBytes]; rfl
    have hStop : decodeAt read pc = .ok (.stop p) := by
      refine decodeAt_eq_ok_iff_encode.mpr ⟨(nomatch ·), ?_⟩
      rw [hSize] at hEncode
      exact hBytes.symm.trans hEncode
    exact Except.ok.inj (h.symm.trans hStop)
  · rintro rfl
    rfl

theorem executing_line_eq_iff {pc₁ pc₂ : UInt16} {i j : Instruction} :
    (Event.executing pc₁ i).line = (Event.executing pc₂ j).line ↔
      pc₁ = pc₂ ∧ i.text = j.text := by
  have hLine (pc : UInt16) (i : Instruction) :
      (Event.executing pc i).line = "TRACE " ++ (Hex.word pc ++ (": " ++ i.text)) := by
    change "TRACE " ++ (Hex.word pc ++ ": " ++ i.text) = _
    rw [String.append_assoc]
  rw [hLine, hLine, String.append_right_inj, Hex.word_append_inj, String.append_right_inj]

/-- Instructions that are decoded are shown alike exactly if they are one or both a STOP, and so
exactly if the same bytes were decoded, up to the byte behind a STOP. A line of the trace shows the
address besides. -/
theorem text_lossless {read₁ read₂ : UInt16 → UInt8} {pc₁ pc₂ : UInt16} {i j : Instruction}
    (hi : decodeAt read₁ pc₁ = .ok i) (hj : decodeAt read₂ pc₂ = .ok j) :
    (i.text = j.text ↔ i = j ∨ ∃ p q, i = .stop p ∧ j = .stop q) ∧
      (i.text = j.text ↔
        bytesAt read₁ pc₁ i.size = bytesAt read₂ pc₂ j.size ∨
          ∃ p q, bytesAt read₁ pc₁ i.size = [0x10, p] ∧
            bytesAt read₂ pc₂ j.size = [0x10, q]) ∧
      ((Event.executing pc₁ i).line = (Event.executing pc₂ j).line ↔
        pc₁ = pc₂ ∧ i.text = j.text) := by
  refine ⟨text_eq_iff, ?_, executing_line_eq_iff⟩
  rw [text_eq_iff]
  refine or_congr ⟨?_, eq_of_bytesAt_eq hi hj⟩ ?_
  · rintro rfl
    rw [← (decodeAt_eq_ok_iff_encode.mp hi).2, (decodeAt_eq_ok_iff_encode.mp hj).2]
  · refine exists_congr fun p => exists_congr fun q => ?_
    rw [bytesAt_eq_stop_iff hi, bytesAt_eq_stop_iff hj]

/-- Two STOPs with different padding. -/
def stops (a : UInt16) : UInt8 :=
  [0x10, 0x00, 0x10, 0xFF].getD a.toNat 0

theorem text_lossless_stops :
    (stop 0x00).text = (stop 0xFF).text ∧
      (Event.executing 0 (stop 0x00)).line ≠ (Event.executing 2 (stop 0xFF)).line := by
  have hFirst : decodeAt stops 0 = .ok (stop 0x00) := rfl
  have hSecond : decodeAt stops 2 = .ok (stop 0xFF) := rfl
  obtain ⟨-, hText, hLine⟩ := text_lossless hFirst hSecond
  constructor
  · exact hText.mpr (.inr ⟨0x00, 0xFF, by decide, by decide⟩)
  · intro h
    exact absurd (hLine.mp h).1 (by decide)

end Instruction

end DotMatrix
