/-!
# Text as UTF-8 bytes

Bytes that are not valid UTF-8 are read with one replacement character for each maximal broken
piece: a lead byte and those of its continuation bytes that could still belong to a character.
-/

namespace Keystroke.Text

/-- The UTF-8 bytes of a text. -/
def toBytes (text : String) : List UInt8 := text.toUTF8.data.toList

/-- The text whose UTF-8 bytes these are, if there is one. -/
def ofBytes? (bytes : List UInt8) : Option String := String.fromUTF8? ⟨bytes.toArray⟩

/-- What stands in for bytes that are no character. -/
def replacement : Char := '\uFFFD'

/-- Whether a byte lies in a closed range. -/
def within (low high : UInt8) (byte : UInt8) : Bool := low ≤ byte && byte ≤ high

/-- How many continuation bytes a lead byte asks for, and the range of the first of them. -/
def continuation? (lead : UInt8) : Option (Nat × UInt8 × UInt8) :=
  if within 0xC2 0xDF lead then some (1, 0x80, 0xBF)
  else if lead == 0xE0 then some (2, 0xA0, 0xBF)
  else if lead == 0xED then some (2, 0x80, 0x9F)
  else if within 0xE1 0xEF lead then some (2, 0x80, 0xBF)
  else if lead == 0xF0 then some (3, 0x90, 0xBF)
  else if within 0xF1 0xF3 lead then some (3, 0x80, 0xBF)
  else if lead == 0xF4 then some (3, 0x80, 0x8F)
  else none

/-- The leading continuation bytes, at most `count`, the first of them in the given range. -/
def continuationBytes : Nat → UInt8 → UInt8 → List UInt8 → List UInt8
  | count + 1, low, high, byte :: rest =>
    if within low high byte then byte :: continuationBytes count 0x80 0xBF rest else []
  | _, _, _, _ => []

/-- The character with these payload bits. -/
def assemble (leadBits : Nat) (tail : List UInt8) : Char :=
  Char.ofNat (tail.foldl (fun value byte => value * 64 + byte.toNat % 64) leadBits)

/-- The first character after a lead byte, and how many of the following bytes it takes. -/
def firstCharacter (lead : UInt8) (rest : List UInt8) : Char × Nat :=
  if lead < 0x80 then (Char.ofNat lead.toNat, 0)
  else
    match continuation? lead with
    | none => (replacement, 0)
    | some (count, low, high) =>
      let tail := continuationBytes count low high rest
      let leadBits := lead.toNat % (if count = 1 then 32 else if count = 2 then 16 else 8)
      if tail.length = count then (assemble leadBits tail, count) else (replacement, tail.length)

/-- Read bytes as text, character by character, replacing what is broken. -/
def repaired : List UInt8 → List Char
  | [] => []
  | lead :: rest =>
    (firstCharacter lead rest).1 :: repaired (rest.drop (firstCharacter lead rest).2)
termination_by bytes => bytes.length
decreasing_by simp only [List.length_drop, List.length_cons]; omega

/-- Read bytes as text; what is not valid is replaced. -/
def ofBytes (bytes : List UInt8) : String :=
  match ofBytes? bytes with
  | some text => text
  | none => String.ofList (repaired bytes)

end Keystroke.Text
