import DotMatrix.Proofs.MemoryMaps

/-!
# Checked arithmetic and memory

Numbers are stored in words of `w` bits and memory is reached by index. The operations here have no
result where a word would overflow, a shift would leave its byte or an index is out of bounds.
-/

namespace DotMatrix

namespace Width

def add? (w a b : Nat) : Option Nat :=
  if a + b < 2 ^ w then some (a + b) else none

def sub? (a b : Nat) : Option Nat :=
  if b ≤ a then some (a - b) else none

def mul? (w a b : Nat) : Option Nat :=
  if a * b < 2 ^ w then some (a * b) else none

/-- One, shifted left within a byte. -/
def single? (i : Nat) : Option UInt8 :=
  if i < 8 then some (UInt8.ofNat (1 <<< i)) else none

theorem add?_eq {w a b : Nat} (h : a + b < 2 ^ w) : add? w a b = some (a + b) := if_pos h

theorem sub?_eq {a b : Nat} (h : b ≤ a) : sub? a b = some (a - b) := if_pos h

theorem mul?_eq {w a b : Nat} (h : a * b < 2 ^ w) : mul? w a b = some (a * b) := if_pos h

theorem single?_eq (i : Fin 8) : single? i = some (Byte.single i) := if_pos i.isLt

end Width

namespace Store

/-- Reads at an index, which must be an address. -/
def at? (s : Store) (i : Nat) : Option UInt8 :=
  if i < 65536 then some (s.get (UInt16.ofNat i)) else none

def put? (s : Store) (i : Nat) (v : UInt8) : Option Store :=
  if i < 65536 then some (s.set (UInt16.ofNat i) v) else none

/-- Copies `n` bytes from `source + i` on to `dest + i` on. Only the index that is read wraps. -/
def copy? (s : Store) (source dest i : Nat) : Nat → Option Store
  | 0 => some s
  | n + 1 => do
    let v ← s.at? ((source + i) % 65536)
    let s ← s.put? (dest + i) v
    s.copy? source dest (i + 1) n

theorem at?_eq {s : Store} {i : Nat} (h : i < 65536) : s.at? i = some (s.get (UInt16.ofNat i)) :=
  if_pos h

theorem put?_eq {s : Store} {i : Nat} (h : i < 65536) (v : UInt8) :
    s.put? i v = some (s.set (UInt16.ofNat i) v) :=
  if_pos h

theorem copy?_eq (s : Store) (source dest i n : Nat) (h : dest + i + n ≤ 65536) :
    s.copy? source dest i n =
      some (s.copyUp (UInt16.ofNat (source + i)) (UInt16.ofNat (dest + i)) n) := by
  induction n generalizing s i with
  | zero => rfl
  | succ n ih =>
    have hWrap : UInt16.ofNat ((source + i) % 65536) = UInt16.ofNat (source + i) := by
      apply UInt16.toNat_inj.mp
      simp
    have hSucc (k : Nat) : UInt16.ofNat (k + (i + 1)) = UInt16.ofNat (k + i) + 1 := by
      rw [← Nat.add_assoc, UInt16.ofNat_add]
      rfl
    rw [copy?, at?_eq (Nat.mod_lt _ (by decide)), hWrap, Option.bind_eq_bind, Option.bind_some,
      put?_eq (by omega), Option.bind_eq_bind, Option.bind_some, ih _ _ (by omega), hSucc, hSucc]
    rfl

end Store

namespace Bus

/-- A write whose copy into the object attribute memory is checked at every index. -/
def write? (b : Bus) (a : UInt16) (v : UInt8) : Option Bus :=
  if a = Address.oamDma then do
    let store ← (b.store.set a v).copy? (256 * v.toNat) 0xFE00 0 oamSize
    some { b with store := store }
  else some (b.write a v)

/-- The copy stays within the address space, whatever page it is from. -/
theorem write?_eq (b : Bus) (a : UInt16) (v : UInt8) : b.write? a v = some (b.write a v) := by
  unfold write?
  split
  next h =>
    subst h
    have hPage : UInt16.ofNat (256 * v.toNat + 0) = dmaSource v := by
      have hByte := v.toNat_lt
      apply UInt16.toNat_inj.mp
      rw [dmaSource, Word.toNat_ofBytes, UInt16.toNat_ofNat']
      change (256 * v.toNat + 0) % 65536 = v.toNat * 256 + 0
      omega
    rw [Store.copy?_eq _ _ _ _ _ (by decide), hPage]
    rfl
  next => rfl

end Bus

/-- No bus is left once an index was out of bounds. -/
instance : Memory (Option Bus) where
  read b a := b.elim 0 (Memory.read · a)
  write b a v := b.bind (·.write? a v)
  writeEvents b a v := b.elim [] (Memory.writeEvents · a v)
  note b _ := b

instance : OnBus (Option Bus) where
  bus b := b.getD Bus.empty
  mapBus b g := b.map g

theorem Bus.some_hom : OnBus.Hom (some : Bus → Option Bus) where
  read _ _ := rfl
  write b a v := b.write?_eq a v
  note _ _ := rfl
  bus _ := rfl
  mapBus _ _ := rfl

end DotMatrix
