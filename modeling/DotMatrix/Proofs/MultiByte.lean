import Mathlib.Data.Nat.Digits.Lemmas
import DotMatrix.Cpu.Execute

/-!
# Arithmetic on numbers of many bytes

A number of several bytes is added or subtracted byte by byte, the lowest first, and the carry flag
hands over from each byte to the next. So the bytes that are collected in the accumulator make up
the sum or difference of the numbers. With a decimal adjustment behind each byte this holds in
decimal as well.
-/

namespace DotMatrix

/-- A way to read bytes as the digits of a number. -/
structure Numeral where
  base : Nat
  value : UInt8 → Nat
  IsDigit : UInt8 → Prop
  one_lt_base : 1 < base
  value_lt : ∀ b, IsDigit b → value b < base

namespace Numeral

def binary : Numeral where
  base := 256
  value := UInt8.toNat
  IsDigit _ := True
  one_lt_base := by decide
  value_lt b _ := b.toNat_lt

/-- A decimal digit in each nibble. -/
def decimal : Numeral where
  base := 100
  value b := 10 * (b.toNat / 16) + b.toNat % 16
  IsDigit b := b.toNat / 16 ≤ 9 ∧ b.toNat % 16 ≤ 9
  one_lt_base := by decide
  value_lt b h := by
    obtain ⟨hHigh, hLow⟩ := h
    omega

instance (b : UInt8) : Decidable (decimal.IsDigit b) :=
  inferInstanceAs (Decidable (b.toNat / 16 ≤ 9 ∧ b.toNat % 16 ≤ 9))

/-- The number that a string of bytes denotes, the lowest byte first. -/
def number (d : Numeral) (bytes : List UInt8) : Nat :=
  Nat.ofDigits d.base (bytes.map d.value)

variable {d : Numeral} {x y z : UInt8} {xs ys zs : List UInt8} {c c' c'' : Nat}

theorem decimal_of_digits {v : UInt8} {n : Nat} (h : v.toNat = 16 * (n / 10 % 10) + n % 10) :
    decimal.IsDigit v ∧ decimal.value v = n % 100 := by
  have hTens : v.toNat / 16 = n / 10 % 10 := by omega
  have hUnits : v.toNat % 16 = n % 10 := by omega
  change (v.toNat / 16 ≤ 9 ∧ v.toNat % 16 ≤ 9) ∧ 10 * (v.toNat / 16) + v.toNat % 16 = n % 100
  rw [hTens, hUnits]
  omega

theorem number_cons (d : Numeral) (b : UInt8) (bytes : List UInt8) :
    d.number (b :: bytes) = d.value b + d.base * d.number bytes :=
  Nat.ofDigits_cons ..

theorem number_lt (h : ∀ b ∈ zs, d.IsDigit b) : d.number zs < d.base ^ zs.length := by
  have hDigits : ∀ v ∈ zs.map d.value, v < d.base := by
    intro v hv
    obtain ⟨b, hb, rfl⟩ := List.mem_map.mp hv
    exact d.value_lt b (h b hb)
  have hLt := Nat.ofDigits_lt_base_pow_length d.one_lt_base hDigits
  rwa [List.length_map] at hLt

/-- Two numbers and the carry into them make up a third one and the carry out of it. -/
def Balanced (d : Numeral) (c : Nat) (xs ys zs : List UInt8) (c' : Nat) : Prop :=
  d.number xs + d.number ys + c = d.number zs + d.base ^ zs.length * c'

theorem balanced_nil (d : Numeral) (c : Nat) : d.Balanced c [] [] [] c := by
  simp [Balanced, number]

/-- The carry out of the lowest digit goes into the others. -/
theorem Balanced.cons (hFirst : d.value x + d.value y + c = d.value z + d.base * c')
    (hRest : d.Balanced c' xs ys zs c'') : d.Balanced c (x :: xs) (y :: ys) (z :: zs) c'' := by
  unfold Balanced at hRest ⊢
  rw [number_cons, number_cons, number_cons, List.length_cons, pow_succ]
  calc d.value x + d.base * d.number xs + (d.value y + d.base * d.number ys) + c
      = (d.value x + d.value y + c) + d.base * (d.number xs + d.number ys) := by ring
    _ = d.value z + d.base * (d.number xs + d.number ys + c') := by rw [hFirst]; ring
    _ = d.value z + d.base * (d.number zs + d.base ^ zs.length * c'') := by rw [hRest]
    _ = d.value z + d.base * d.number zs + d.base ^ zs.length * d.base * c'' := by ring

end Numeral

namespace Alu

theorem toNat_decide_le {n k : Nat} (h : n < 2 * k) : (decide (k ≤ n)).toNat = n / k := by
  by_cases hLe : k ≤ n
  · rw [decide_eq_true hLe, Bool.toNat_true]
    exact (Nat.div_eq_of_lt_le (by omega) (by omega)).symm
  · rw [decide_eq_false hLe, Bool.toNat_false]
    exact (Nat.div_eq_of_lt (by omega)).symm

theorem toNat_decide_lt {n k : Nat} (h : n < 2 * k) : (decide (n < k)).toNat = 1 - n / k := by
  by_cases hLt : n < k
  · rw [decide_eq_true hLt, Nat.div_eq_of_lt hLt, Bool.toNat_true]
  · have hOne : n / k = 1 := Nat.div_eq_of_lt_le (by omega) (by omega)
    rw [decide_eq_false hLt, hOne, Bool.toNat_false]

theorem toNat_add (a b : UInt8) (c : Bool) :
    (add a b c).1.toNat = (a.toNat + b.toNat + c.toNat) % 256 := by
  change (a + b + c.toUInt8).toNat = _
  rw [UInt8.toNat_add, UInt8.toNat_add, Nat.mod_add_mod]
  cases c <;> rfl

theorem toNat_sub (a b : UInt8) (c : Bool) :
    (sub a b c).1.toNat = (a.toNat + 512 - b.toNat - c.toNat) % 256 := by
  have hA := a.toNat_lt
  have hB := b.toNat_lt
  have hC : c.toUInt8.toNat = c.toNat := by cases c <;> rfl
  have hBit := c.toNat_le
  change (a - b - c.toUInt8).toNat = _
  rw [UInt8.toNat_sub, UInt8.toNat_sub, hC]
  omega

/-- What leaves the byte is the carry. -/
theorem add_balance (a b : UInt8) (c : Bool) :
    a.toNat + b.toNat + c.toNat = (add a b c).1.toNat + 256 * (add a b c).2.carry.toNat := by
  have hA := a.toNat_lt
  have hB := b.toNat_lt
  have hBit := c.toNat_le
  rw [toNat_add]
  change _ = _ + 256 * (decide (256 ≤ a.toNat + b.toNat + c.toNat)).toNat
  rw [toNat_decide_le (by omega)]
  exact (Nat.mod_add_div _ 256).symm

/-- What is borrowed is the carry. -/
theorem sub_balance (a b : UInt8) (c : Bool) :
    b.toNat + (sub a b c).1.toNat + c.toNat = a.toNat + 256 * (sub a b c).2.carry.toNat := by
  have hA := a.toNat_lt
  have hB := b.toNat_lt
  have hBit := c.toNat_le
  rw [toNat_sub]
  change _ = _ + 256 * (decide (a.toNat < b.toNat + c.toNat)).toNat
  by_cases hBorrow : a.toNat < b.toNat + c.toNat
  · rw [decide_eq_true hBorrow, Bool.toNat_true]
    omega
  · rw [decide_eq_false hBorrow, Bool.toNat_false]
    omega

theorem toNat_add_if (v k : UInt8) (b : Bool) :
    (if b then v + k else v).toNat = (v.toNat + k.toNat * b.toNat) % 256 := by
  cases b with
  | false => exact (Nat.mod_eq_of_lt v.toNat_lt).symm
  | true => exact (UInt8.toNat_add v k).trans (by rw [Bool.toNat_true, mul_one])

theorem toNat_sub_if (v k : UInt8) (b : Bool) :
    (if b then v - k else v).toNat = (v.toNat + 256 - k.toNat * b.toNat) % 256 := by
  have hV := v.toNat_lt
  have hK := k.toNat_lt
  cases b with
  | false =>
    change v.toNat = (v.toNat + 256 - k.toNat * 0) % 256
    omega
  | true =>
    rw [if_pos rfl, UInt8.toNat_sub, Bool.toNat_true]
    omega

/-- Past a digit of ten, 6 more are needed to leave a nibble, and 96 more to leave the byte. -/
theorem skipped_nibbles (tens units : Nat) :
    (16 * tens + units + 96 * ((10 * tens + units) / 100) + 6 * (units / 10)) % 256 =
      16 * ((10 * tens + units) / 10 % 10) + (10 * tens + units) % 10 := by
  have hUnits : (10 * tens + units) % 10 = units % 10 :=
    Nat.mul_add_mod 10 tens units
  have hTens : (10 * tens + units) / 10 = tens + units / 10 :=
    Nat.mul_add_div (by decide) tens units
  have hHundreds : (10 * tens + units) / 100 = (tens + units / 10) / 10 := by
    rw [← hTens, Nat.div_div_eq_div_mul]
  rw [hUnits, hTens, hHundreds]
  have hDigits :
      16 * tens + units + 96 * ((tens + units / 10) / 10) + 6 * (units / 10) =
        16 * ((tens + units / 10) % 10) + units % 10 + 256 * ((tens + units / 10) / 10) := by
    omega
  rw [hDigits, Nat.add_mul_mod_self_left]
  exact Nat.mod_eq_of_lt (by omega)

/-- The digits of the adjusted sum are the last two decimal digits of the exact sum. The tens are
corrected first, which leaves the low nibble that the units are told by. -/
theorem decimalAdjust_add {a b : UInt8} (hA : Numeral.decimal.IsDigit a)
    (hB : Numeral.decimal.IsDigit b) (c : Bool) :
    let r := decimalAdjust (add a b c).1 (add a b c).2
    let sum := Numeral.decimal.value a + Numeral.decimal.value b + c.toNat
    r.1.toNat = 16 * (sum / 10 % 10) + sum % 10 ∧ r.2.carry.toNat = sum / 100 := by
  obtain ⟨hTensA, hUnitsA⟩ := hA
  obtain ⟨hTensB, hUnitsB⟩ := hB
  have hBit := c.toNat_le
  intro r sum
  let units := a.toNat % 16 + b.toNat % 16 + c.toNat
  let tens := a.toNat / 16 + b.toNat / 16
  have hDecimal : sum = 10 * tens + units := by
    change 10 * (a.toNat / 16) + a.toNat % 16 + (10 * (b.toNat / 16) + b.toNat % 16) + c.toNat = _
    omega
  have hSum : (add a b c).1.toNat = (16 * tens + units) % 256 := by
    rw [toNat_add]
    omega
  have hCarry : r.2.carry = decide (100 ≤ sum) := by
    change (decide (255 < a.toNat + b.toNat + c.toNat) || decide (153 < (add a b c).1.toNat)) = _
    rw [hSum, ← Bool.decide_or]
    refine decide_eq_decide.mpr ?_
    omega
  let v := if r.2.carry then (add a b c).1 + 0x60 else (add a b c).1
  have hTens : v.toNat = (16 * tens + units + 96 * r.2.carry.toNat) % 256 := by
    rw [toNat_add_if, hSum, Nat.mod_add_mod]
    rfl
  have hUnits : (decide (15 < units) || decide (9 < v.toNat % 16)) = decide (10 ≤ units) := by
    rw [hTens, ← Bool.decide_or]
    refine decide_eq_decide.mpr ?_
    omega
  have hHundreds : r.2.carry.toNat = sum / 100 := by
    rw [hCarry, toNat_decide_le (by omega)]
  refine ⟨?_, hHundreds⟩
  calc r.1.toNat
      = (v.toNat + 6 * (decide (15 < units) || decide (9 < v.toNat % 16)).toNat) % 256 :=
        toNat_add_if v 0x06 _
    _ = (16 * tens + units + 96 * ((10 * tens + units) / 100) + 6 * (units / 10)) % 256 := by
        rw [hUnits, hTens, Nat.mod_add_mod, hHundreds, hDecimal, toNat_decide_le (by omega)]
    _ = 16 * (sum / 10 % 10) + sum % 10 := by
        rw [skipped_nibbles, hDecimal]

/-- The digits of the adjusted difference are those of a hundred more than the exact one. That much
is borrowed as nine tens and ten units, so that both stay positive. -/
theorem decimalAdjust_sub {a b : UInt8} (hA : Numeral.decimal.IsDigit a)
    (hB : Numeral.decimal.IsDigit b) (c : Bool) :
    let r := decimalAdjust (sub a b c).1 (sub a b c).2
    let difference := 100 + Numeral.decimal.value a - (Numeral.decimal.value b + c.toNat)
    r.1.toNat = 16 * (difference / 10 % 10) + difference % 10 ∧
      r.2.carry.toNat = 1 - difference / 100 := by
  obtain ⟨hTensA, hUnitsA⟩ := hA
  obtain ⟨hTensB, hUnitsB⟩ := hB
  have hBit := c.toNat_le
  intro r difference
  let units := 10 + a.toNat % 16 - (b.toNat % 16 + c.toNat)
  let tens := 9 + a.toNat / 16 - b.toNat / 16
  have hDecimal : difference = 10 * tens + units := by
    change 100 + (10 * (a.toNat / 16) + a.toNat % 16) -
      (10 * (b.toNat / 16) + b.toNat % 16 + c.toNat) = _
    omega
  have hDifference : (sub a b c).1.toNat = (16 * tens + units + 102) % 256 := by
    rw [toNat_sub]
    omega
  have hUnits : (decide (a.toNat % 16 < b.toNat % 16 + c.toNat)).toNat = 1 - units / 10 := by
    have hBorrow : decide (a.toNat % 16 < b.toNat % 16 + c.toNat) = decide (units < 10) := by
      refine decide_eq_decide.mpr ?_
      omega
    rw [hBorrow, toNat_decide_lt (by omega)]
  have hHundreds : r.2.carry.toNat = 1 - difference / 100 := by
    have hBorrow : r.2.carry = decide (difference < 100) := by
      refine decide_eq_decide.mpr ?_
      omega
    rw [hBorrow, toNat_decide_lt (by omega)]
  refine ⟨?_, hHundreds⟩
  let v := if r.2.carry then (sub a b c).1 - 0x60 else (sub a b c).1
  have hTens : v.toNat = ((sub a b c).1.toNat + 256 - 96 * r.2.carry.toNat) % 256 :=
    toNat_sub_if _ 0x60 _
  calc r.1.toNat
      = (v.toNat + 256 - 6 * (decide (a.toNat % 16 < b.toNat % 16 + c.toNat)).toNat) % 256 :=
        toNat_sub_if v 0x06 _
    _ = (16 * tens + units + 96 * ((10 * tens + units) / 100) + 6 * (units / 10)) % 256 := by
        rw [hUnits, hTens, hDifference, hHundreds, hDecimal]
        have hHundred : (10 * tens + units) / 100 ≤ 1 := by omega
        have hTen : units / 10 ≤ 1 := by omega
        generalize (10 * tens + units) / 100 = hundred at hHundred ⊢
        generalize units / 10 = ten at hTen ⊢
        omega
    _ = 16 * (difference / 10 % 10) + difference % 10 := by
        rw [skipped_nibbles, hDecimal]

theorem decimal_add_balance {a b : UInt8} (hA : Numeral.decimal.IsDigit a)
    (hB : Numeral.decimal.IsDigit b) (c : Bool) :
    let r := decimalAdjust (add a b c).1 (add a b c).2
    Numeral.decimal.IsDigit r.1 ∧
      Numeral.decimal.value a + Numeral.decimal.value b + c.toNat =
        Numeral.decimal.value r.1 + 100 * r.2.carry.toNat := by
  obtain ⟨hResult, hCarry⟩ := decimalAdjust_add hA hB c
  obtain ⟨hDigit, hValue⟩ := Numeral.decimal_of_digits hResult
  refine ⟨hDigit, ?_⟩
  rw [hValue, hCarry]
  exact (Nat.mod_add_div _ 100).symm

theorem decimal_sub_balance {a b : UInt8} (hA : Numeral.decimal.IsDigit a)
    (hB : Numeral.decimal.IsDigit b) (c : Bool) :
    let r := decimalAdjust (sub a b c).1 (sub a b c).2
    Numeral.decimal.IsDigit r.1 ∧
      Numeral.decimal.value b + Numeral.decimal.value r.1 + c.toNat =
        Numeral.decimal.value a + 100 * r.2.carry.toNat := by
  obtain ⟨hResult, hCarry⟩ := decimalAdjust_sub hA hB c
  obtain ⟨hDigit, hValue⟩ := Numeral.decimal_of_digits hResult
  have hLtA : Numeral.decimal.value a < 100 := Numeral.decimal.value_lt a hA
  have hLtB : Numeral.decimal.value b < 100 := Numeral.decimal.value_lt b hB
  have hBit := c.toNat_le
  refine ⟨hDigit, ?_⟩
  rw [hValue, hCarry]
  omega

end Alu

namespace Numeral

/-- The bytes are those of the sum, and the carry says whether it leaves their range. -/
structure IsSum (d : Numeral) (c : Bool) (xs ys : List UInt8) (r : List UInt8 × Bool) : Prop where
  length : r.1.length = xs.length
  digits : ∀ b ∈ r.1, d.IsDigit b
  number : d.number r.1 = (d.number xs + d.number ys + c.toNat) % d.base ^ xs.length
  carry : r.2 = true ↔ d.base ^ xs.length ≤ d.number xs + d.number ys + c.toNat

/-- The bytes are those of the difference, and the carry says whether it is negative. -/
structure IsDifference (d : Numeral) (c : Bool) (xs ys : List UInt8) (r : List UInt8 × Bool) :
    Prop where
  length : r.1.length = xs.length
  digits : ∀ b ∈ r.1, d.IsDigit b
  number : (d.number r.1 : Int) = (d.number xs - d.number ys - c.toNat) % (d.base : Int) ^ xs.length
  carry : r.2 = true ↔ d.number xs < d.number ys + c.toNat

variable {d : Numeral} {xs ys zs : List UInt8} {c c' : Bool}

theorem Balanced.isSum (h : d.Balanced c.toNat xs ys zs c'.toNat) (hLength : zs.length = xs.length)
    (hDigits : ∀ b ∈ zs, d.IsDigit b) : d.IsSum c xs ys (zs, c') := by
  have hLt := number_lt hDigits
  unfold Balanced at h
  rw [hLength] at h hLt
  refine ⟨hLength, hDigits, ?_, ?_⟩
  · rw [h, Nat.add_mul_mod_self_left, Nat.mod_eq_of_lt hLt]
  · rw [h]
    cases c' with
    | false => simpa using hLt
    | true => simp

theorem Balanced.isDifference (h : d.Balanced c.toNat ys zs xs c'.toNat)
    (hLength : zs.length = xs.length) (hDigits : ∀ b ∈ zs, d.IsDigit b) :
    d.IsDifference c xs ys (zs, c') := by
  have hLt := number_lt hDigits
  unfold Balanced at h
  rw [hLength] at hLt
  refine ⟨hLength, hDigits, ?_, ?_⟩
  · have hDifference : (d.number xs - d.number ys - c.toNat : Int) =
        d.number zs - (d.base : Int) ^ xs.length * c'.toNat := by
      have hCast := congrArg (Nat.cast (R := Int)) h
      push_cast at hCast
      linarith
    rw [hDifference, Int.sub_mul_emod_self_left]
    exact (Int.emod_eq_of_lt (Int.natCast_nonneg _) (by exact_mod_cast hLt)).symm
  · cases c' with
    | false =>
      rw [Bool.toNat_false, mul_zero] at h
      simp only [Bool.false_eq_true, false_iff]
      omega
    | true =>
      rw [Bool.toNat_true, mul_one] at h
      simp only [true_iff]
      omega

end Numeral

namespace Core

variable {M : Type} [Memory M]

/-- Executes instructions one after the other. -/
def executeAll (s : Core M) (code : List Instruction) : Core M :=
  code.foldl execute s

/-- Loads one byte, applies the operation to the other and adjusts what comes out. -/
def bytewise (op : AluOp) (adjust : List Instruction) (x y : UInt8) : List Instruction :=
  .loadByte (.reg .a) x :: .alu op (.immediate y) :: adjust

/-- Executes the code for each pair of bytes. Collects what it leaves in the accumulator, and the
carry at the end. -/
def collect (s : Core M) (code : UInt8 → UInt8 → List Instruction) :
    List UInt8 → List UInt8 → List UInt8 × Bool
  | x :: xs, y :: ys =>
    let next := s.executeAll (code x y)
    let rest := next.collect code xs ys
    (next.cpu.regs.a :: rest.1, rest.2)
  | _, _ => ([], s.cpu.regs.f.carry)

variable {d : Numeral} {code : UInt8 → UInt8 → List Instruction} {xs ys : List UInt8}

/-- What holds of no bytes and is kept by one more pair of digits holds of all that is collected. -/
theorem collect_digits {P : Bool → List UInt8 → List UInt8 → List UInt8 → Bool → Prop}
    (hNil : ∀ c, P c [] [] [] c)
    (hCode : ∀ (s : Core M) (x y : UInt8), d.IsDigit x → d.IsDigit y →
      let next := (s.executeAll (code x y)).cpu.regs
      d.IsDigit next.a ∧ ∀ xs ys zs c, P next.f.carry xs ys zs c →
        P s.cpu.regs.f.carry (x :: xs) (y :: ys) (next.a :: zs) c)
    (s : Core M) (hLength : xs.length = ys.length)
    (hX : ∀ b ∈ xs, d.IsDigit b) (hY : ∀ b ∈ ys, d.IsDigit b) :
    let r := s.collect code xs ys
    P s.cpu.regs.f.carry xs ys r.1 r.2 ∧ r.1.length = xs.length ∧ ∀ b ∈ r.1, d.IsDigit b := by
  induction xs generalizing s ys with
  | nil =>
    obtain rfl : ys = [] := List.length_eq_zero_iff.mp hLength.symm
    exact ⟨hNil s.cpu.regs.f.carry, rfl, List.forall_mem_nil _⟩
  | cons x xs ih =>
    cases ys with
    | nil => exact absurd hLength (Nat.succ_ne_zero _)
    | cons y ys =>
      obtain ⟨hFirstX, hRestX⟩ := List.forall_mem_cons.mp hX
      obtain ⟨hFirstY, hRestY⟩ := List.forall_mem_cons.mp hY
      obtain ⟨hDigit, hKept⟩ := hCode s x y hFirstX hFirstY
      obtain ⟨hRest, hCount, hDigits⟩ :=
        ih (s.executeAll (code x y)) (Nat.succ.inj hLength) hRestX hRestY
      exact ⟨hKept _ _ _ _ hRest, congrArg Nat.succ hCount,
        List.forall_mem_cons.mpr ⟨hDigit, hDigits⟩⟩

theorem collect_isSum
    (hCode : ∀ (s : Core M) (x y : UInt8), d.IsDigit x → d.IsDigit y →
      let next := (s.executeAll (code x y)).cpu.regs
      d.IsDigit next.a ∧
        d.value x + d.value y + s.cpu.regs.f.carry.toNat =
          d.value next.a + d.base * next.f.carry.toNat)
    (s : Core M) (hLength : xs.length = ys.length)
    (hX : ∀ b ∈ xs, d.IsDigit b) (hY : ∀ b ∈ ys, d.IsDigit b) :
    d.IsSum s.cpu.regs.f.carry xs ys (s.collect code xs ys) := by
  let P (c : Bool) (xs ys zs : List UInt8) (c' : Bool) : Prop :=
    d.Balanced c.toNat xs ys zs c'.toNat
  have hNil (c : Bool) : P c [] [] [] c := Numeral.balanced_nil d c.toNat
  obtain ⟨hBalanced, hCount, hDigits⟩ := collect_digits (P := P) hNil (by
    intro s x y hDigitX hDigitY
    obtain ⟨hDigit, hFirst⟩ := hCode s x y hDigitX hDigitY
    exact ⟨hDigit, fun _ _ _ _ hRest => hRest.cons hFirst⟩) s hLength hX hY
  exact hBalanced.isSum hCount hDigits

theorem collect_isDifference
    (hCode : ∀ (s : Core M) (x y : UInt8), d.IsDigit x → d.IsDigit y →
      let next := (s.executeAll (code x y)).cpu.regs
      d.IsDigit next.a ∧
        d.value y + d.value next.a + s.cpu.regs.f.carry.toNat =
          d.value x + d.base * next.f.carry.toNat)
    (s : Core M) (hLength : xs.length = ys.length)
    (hX : ∀ b ∈ xs, d.IsDigit b) (hY : ∀ b ∈ ys, d.IsDigit b) :
    d.IsDifference s.cpu.regs.f.carry xs ys (s.collect code xs ys) := by
  let P (c : Bool) (xs ys zs : List UInt8) (c' : Bool) : Prop :=
    d.Balanced c.toNat ys zs xs c'.toNat
  have hNil (c : Bool) : P c [] [] [] c := Numeral.balanced_nil d c.toNat
  obtain ⟨hBalanced, hCount, hDigits⟩ := collect_digits (P := P) hNil (by
    intro s x y hDigitX hDigitY
    obtain ⟨hDigit, hFirst⟩ := hCode s x y hDigitX hDigitY
    exact ⟨hDigit, fun _ _ _ _ hRest => hRest.cons hFirst⟩) s hLength hX hY
  exact hBalanced.isDifference hCount hDigits

/-- Numbers of any length, from any carry on. -/
theorem collect_arithmetic (s : Core M) (hLength : xs.length = ys.length) :
    let c := s.cpu.regs.f.carry
    Numeral.binary.IsSum c xs ys (s.collect (bytewise .adc []) xs ys) ∧
      Numeral.binary.IsDifference c xs ys (s.collect (bytewise .sbc []) xs ys) ∧
      ((∀ b ∈ xs, Numeral.decimal.IsDigit b) → (∀ b ∈ ys, Numeral.decimal.IsDigit b) →
        Numeral.decimal.IsSum c xs ys (s.collect (bytewise .adc [.daa]) xs ys) ∧
          Numeral.decimal.IsDifference c xs ys (s.collect (bytewise .sbc [.daa]) xs ys)) := by
  have hBinary (bytes : List UInt8) : ∀ b ∈ bytes, Numeral.binary.IsDigit b :=
    fun _ _ => trivial
  refine ⟨?_, ?_, fun hX hY => ⟨?_, ?_⟩⟩
  · refine collect_isSum ?_ s hLength (hBinary xs) (hBinary ys)
    exact fun s x y _ _ => ⟨trivial, Alu.add_balance x y s.cpu.regs.f.carry⟩
  · refine collect_isDifference ?_ s hLength (hBinary xs) (hBinary ys)
    exact fun s x y _ _ => ⟨trivial, Alu.sub_balance x y s.cpu.regs.f.carry⟩
  · refine collect_isSum ?_ s hLength hX hY
    exact fun s x y hA hB => Alu.decimal_add_balance hA hB s.cpu.regs.f.carry
  · refine collect_isDifference ?_ s hLength hX hY
    exact fun s x y hA hB => Alu.decimal_sub_balance hA hB s.cpu.regs.f.carry

/-- 1299 and 3401 are 4700, and their difference is negative. -/
theorem collect_arithmetic_two_bytes :
    let s : Core Store := ⟨Cpu.powerOn, Store.zero⟩
    s.collect (bytewise .adc [.daa]) [0x99, 0x12] [0x01, 0x34] = ([0x00, 0x47], false) ∧
      Numeral.decimal.IsSum false [0x99, 0x12] [0x01, 0x34] ([0x00, 0x47], false) ∧
      s.collect (bytewise .sbc [.daa]) [0x99, 0x12] [0x01, 0x34] = ([0x98, 0x78], true) ∧
      Numeral.decimal.IsDifference false [0x99, 0x12] [0x01, 0x34] ([0x98, 0x78], true) := by
  have hX : ∀ b ∈ [0x99, 0x12], Numeral.decimal.IsDigit b := by
    rw [List.forall_mem_cons, List.forall_mem_singleton]
    decide
  have hY : ∀ b ∈ [0x01, 0x34], Numeral.decimal.IsDigit b := by
    rw [List.forall_mem_cons, List.forall_mem_singleton]
    decide
  obtain ⟨-, -, hDecimal⟩ :=
    @collect_arithmetic Store _ [0x99, 0x12] [0x01, 0x34] ⟨Cpu.powerOn, Store.zero⟩ rfl
  obtain ⟨hSum, hDifference⟩ := hDecimal hX hY
  exact ⟨rfl, hSum, rfl, hDifference⟩

end Core
end DotMatrix
