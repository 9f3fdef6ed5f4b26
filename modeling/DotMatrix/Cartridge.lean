import DotMatrix.Event

/-!
# Cartridges

An image is accepted if it fills the 32768 bytes that are mapped and the checksum in its header is
right. Nothing runs from an image that is not accepted.
-/

namespace DotMatrix

structure Header where
  title : String
  cgb : Bool
  sgb : Bool
  cartridgeType : UInt8
  checksum : UInt8
deriving DecidableEq

inductive CartridgeError where
  | tooSmall (size : Nat)
  | checksumMismatch (stored computed : UInt8)
deriving DecidableEq

def CartridgeError.message : CartridgeError → String
  | tooSmall size =>
    "cartridge image is " ++ Event.decimal size ++ " bytes, at least 32768 are required"
  | checksumMismatch stored computed =>
    "header checksum mismatch: the header has " ++ Hex.byte stored ++ " but " ++
      Hex.byte computed ++ " was computed"

namespace Header

def titleStart : Nat := 0x134
def titleSize : Nat := 15
def checksumAt : Nat := 0x14D

/-- A byte beyond ASCII is shown as a question mark. -/
def titleChar (b : UInt8) : Char :=
  if b < 0x80 then Char.ofNat b.toNat else '?'

/-- The title ends at the first zero byte or when its field is full. -/
def titleOf (image : List UInt8) : String :=
  let field := (image.drop titleStart).take titleSize
  String.ofList ((field.takeWhile (· != 0)).map titleChar)

def checksumOf (image : List UInt8) : UInt8 :=
  let covered := (image.drop titleStart).take (checksumAt - titleStart)
  covered.foldl (fun sum b => sum - b - 1) 0

/-- An image shorter than its header reads as if zeros followed. -/
def ofImage (image : List UInt8) : Header where
  title := titleOf image
  cgb := image.getD 0x143 0 == 0x80 || image.getD 0x143 0 == 0xC0
  sgb := image.getD 0x146 0 == 0x03
  cartridgeType := image.getD 0x147 0
  checksum := image.getD checksumAt 0

end Header

structure Cartridge where
  header : Header
  image : List UInt8
deriving DecidableEq

namespace Cartridge

def mappedSize : Nat := 0x8000

def ofImage (image : List UInt8) : Except CartridgeError Cartridge :=
  let header := Header.ofImage image
  let computed := Header.checksumOf image
  if image.length < mappedSize then .error (.tooSmall image.length)
  else if header.checksum = computed then .ok ⟨header, image⟩
  else .error (.checksumMismatch header.checksum computed)

/-- An accepted cartridge is a large enough image with the header that is read off it. -/
theorem accepted_of_ofImage {image : List UInt8} {c : Cartridge} (h : ofImage image = .ok c) :
    mappedSize ≤ image.length ∧ c = ⟨Header.ofImage image, image⟩ := by
  dsimp only [ofImage] at h
  split at h
  next => cases h
  next hSize =>
    split at h
    next =>
      cases h
      exact ⟨Nat.le_of_not_lt hSize, rfl⟩
    next => cases h

/-- What is told of a cartridge that was accepted. -/
def events (c : Cartridge) : List Event :=
  (if mappedSize < c.image.length then [.imageTruncated c.image.length] else []) ++
    [.cartridgeLoaded c.header.title c.header.cartridgeType]

end Cartridge
end DotMatrix
