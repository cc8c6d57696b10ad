import Keystroke.Error

/-!
# The display

A bitmap of 131 by 16 pixels, seventeen bytes a row, the lowest bit of a byte leftmost.
-/

namespace Keystroke

/-- The pixels of the display. -/
structure Display where
  bytes : Vector UInt8 272
deriving DecidableEq

namespace Display

def width : Nat := 131

def height : Nat := 16

def bytesPerRow : Nat := 17

/-- A dark display. -/
def blank : Display := ⟨Vector.replicate 272 0⟩

instance : Inhabited Display := ⟨blank⟩

/-- The display with the given bytes, which must be one for every eight places of every row. -/
def ofBytes (bytes : List UInt8) : Outcome Display :=
  if size : bytes.toArray.size = 272 then .ok ⟨⟨bytes.toArray, size⟩⟩
  else failWith .invalidData "DISPLAY SIZE"

def toList (display : Display) : List UInt8 := display.bytes.toList

/-- The byte that holds a pixel. -/
def place (x y : Nat) : Nat := y * bytesPerRow + x / 8

/-- The bit of its byte that is a pixel. -/
def mask (x : Nat) : UInt8 := (Nat.pow 2 (x % 8)).toUInt8

/-- Light a pixel, counted from the upper left corner. -/
def setPixel (display : Display) (x y : Nat) : Outcome Display :=
  if width ≤ x ∨ height ≤ y then fail .outOfRange
  else
    let byte := display.bytes.toArray.getD (place x y) 0
    .ok ⟨display.bytes.setIfInBounds (place x y) (byte ||| mask x)⟩

/-- Whether a pixel is lit. -/
def pixel (display : Display) (x y : Nat) : Bool :=
  x < width && y < height && display.bytes.toArray.getD (place x y) 0 &&& mask x != 0

/-- How many bits of a byte are set. -/
def bitCount (byte : UInt8) : Nat := (List.range 8).countP fun bit => byte.toNat.testBit bit

/-- How many bits are set. -/
def litCount (display : Display) : Nat :=
  display.toList.foldl (fun count byte => count + bitCount byte) 0

end Display

end Keystroke
