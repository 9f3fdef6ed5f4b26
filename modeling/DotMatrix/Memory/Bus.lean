import DotMatrix.Memory.Basic

/-!
# The bus

Reads are plain. Writes are routed by address: cartridge ROM ignores them, the divider is reset
whatever is written, the display status protects its low bits and its top bit, and a write to the
DMA register copies a page into the object attribute memory at once. Every other address stores
the byte.
-/

namespace DotMatrix

structure Bus where
  store : Store
  /-- The divider was written since the timer last looked. -/
  dividerReset : Bool
  reportsRomWrites : Bool

/-- Copies `n` bytes upwards, one after the other. Both addresses wrap. -/
def Store.copyUp (s : Store) (source dest : UInt16) : Nat → Store
  | 0 => s
  | n + 1 => (s.set dest (s.get source)).copyUp (source + 1) (dest + 1) n

namespace Bus

def empty : Bus where
  store := Store.zero
  dividerReset := false
  reportsRomWrites := true

/-- The first 32768 bytes of the image are mapped from address zero. -/
def ofImage (image : List UInt8) : Bus :=
  { empty with store := Store.zero.load 0 (image.take 0x8000) }

/-- The bits of the display status that software may write. -/
def statusWritable : UInt8 := 0x78

/-- The bits of the display status that belong to the display. -/
def statusDisplay : UInt8 := 0x07

/-- The address that a write of `page` to the DMA register copies from. -/
def dmaSource (page : UInt8) : UInt16 :=
  Word.ofBytes page 0

def oamSize : Nat := 160

def write (b : Bus) (a : UInt16) (v : UInt8) : Bus :=
  if a < Address.romEnd then b
  else if a = Address.divider then
    { b with store := b.store.set a 0, dividerReset := true }
  else if a = Address.lcdStatus then
    { b with store := b.store.set a (Byte.blend (b.store.get a) statusWritable v) }
  else if a = Address.oamDma then
    { b with store := (b.store.set a v).copyUp (dmaSource v) Address.oam oamSize }
  else { b with store := b.store.set a v }

def writeEvents (b : Bus) (a : UInt16) (v : UInt8) : List Event :=
  .writing a v ::
    if a < Address.romEnd then
      if b.reportsRomWrites then [.discardingWrite a v] else []
    else if a = Address.oamDma then [.copyingToOam (dmaSource v)]
    else []

instance : Memory Bus where
  read b := b.store.get
  write := write
  writeEvents := writeEvents
  note b _ := b

/-- The display is the only writer of the scanline. -/
def setLcdY (b : Bus) (line : UInt8) : Bus :=
  { b with store := b.store.set Address.lcdY line }

/-- The display writes the mode and the coincidence bit, which software may only read. -/
def setStatusLow (b : Bus) (bits : UInt8) : Bus :=
  { b with
    store := b.store.set Address.lcdStatus
      (Byte.blend (b.store.get Address.lcdStatus) statusDisplay bits) }

/-- The timer steps the divider this way, since a write would reset it. -/
def setDivider (b : Bus) (v : UInt8) : Bus :=
  { b with store := b.store.set Address.divider v }

def clearDividerReset (b : Bus) : Bus :=
  { b with dividerReset := false }

def setReportsRomWrites (b : Bus) (report : Bool) : Bus :=
  { b with reportsRomWrites := report }

/-- The image is read back below the end of the cartridge, zeros above it. -/
theorem get_ofImage (image : List UInt8) (a : UInt16) :
    (Bus.ofImage image).store.get a =
      if a.toNat < 0x8000 then image.getD a.toNat 0 else 0 := by
  have hLength := List.length_take (i := 0x8000) (l := image)
  have hBound : (0 : UInt16).toNat + (image.take 0x8000).length ≤ 65536 := by
    change 0 + _ ≤ _
    omega
  have hZero : (0 : UInt16).toNat = 0 := rfl
  change (Store.zero.load 0 (image.take 0x8000)).get a = _
  rw [Store.get_load _ _ _ _ hBound, Store.get_zero, hZero, hLength, Nat.sub_zero,
    List.getD_eq_getElem?_getD, List.getD_eq_getElem?_getD, List.getElem?_take]
  split <;> split
  · rfl
  · omega
  · have hNone : image.length ≤ a.toNat := by omega
    rw [List.getElem?_eq_none hNone]
    rfl
  · rfl

end Bus

/-- A memory whose bytes live on a bus. The devices change the bus silently through `mapBus`. -/
class OnBus (M : Type) extends Memory M where
  bus : M → Bus
  mapBus : M → (Bus → Bus) → M

instance : OnBus Bus where
  bus b := b
  mapBus b f := f b

end DotMatrix
