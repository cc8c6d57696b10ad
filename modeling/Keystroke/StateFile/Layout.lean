import Keystroke.Machine.Keyboard

/-!
# Layouts of state files

A state file holds a whole machine. Its layout has a version. Older layouts lack what came later: the
pair of words of the generator, long texts, levels of variables, and the sharing of arrays together
with stacks of more than four levels.
-/

namespace Keystroke.StateFile

/-- The four bytes at the start and near the end of a state file. -/
def magic : List UInt8 := [82, 80, 78, 69]

/-- The newest layout. -/
def currentVersion : Nat := 47

/-- The oldest layout that can be read. -/
def oldestVersion : Nat := 26

/-- Whether a layout holds both words of the generator, and not a seed. -/
def holdsGenerator (version : Nat) : Bool := 30 ≤ version

/-- Whether a layout holds texts of any length. -/
def holdsLongTexts (version : Nat) : Bool := 33 ≤ version

/-- Whether a layout holds levels and marks of variables, lists, and the properties of frames. -/
def holdsLevels (version : Nat) : Bool := 42 ≤ version

/-- Whether a layout holds shared arrays once, and stacks of more than four levels. -/
def holdsSharing (version : Nat) : Bool := 47 ≤ version

/-- Says that numbers are binary and of double precision. -/
def binaryNumbers : UInt8 := 0

/-- Stands for no pending command. -/
def noPending : Nat := 0xFFFF

/-- Stands behind the zero count of an empty list, where the index of a shared array would be. -/
def emptyListMark : Nat := 0xFFFFFFFF

/-- The longest text that is stored in place in a matrix. -/
def shortTextLength : Nat := 6

/-- The longest field with a length of one byte. -/
def maximalShortLength : Nat := 255

/-- The longest name of a platform. -/
def maximalPlatformLength : Nat := 256

/-! ## Codes -/

def noTask : UInt8 := 0
def awaitingKeyTask : UInt8 := 1
def printingTask : UInt8 := 2

def runningBit : UInt8 := 1
def programmingBit : UInt8 := 2

def lockedBit : UInt8 := 1
def cachesEmptyBit : UInt8 := 2

def numberCell : UInt8 := 0
def shortTextCell : UInt8 := 1
def longTextCell : UInt8 := 2

/-- Two conditions as bits. -/
def bits (first second : Bool) : UInt8 := (if first then 1 else 0) ||| (if second then 2 else 0)

end Keystroke.StateFile
