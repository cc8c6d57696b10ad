import Keystroke.Instruction.Codec

/-!
# Reading bytes that may be missing

The reading of an instruction byte by byte, from a source that does not have a byte everywhere: it fails as
soon as a byte is missing. Only the groups of a number may run out of bytes, and then count as broken.
-/

namespace Keystroke.Codec

/-- Bytes by their places; at some there may be none. -/
abbrev Source := Nat → Option UInt8

namespace Source

/-- Read the groups of a number from a text with some size; inside, `none` stands for groups of which none is
the last. -/
def groups (source : Source) (size place : Nat) : Nat → UInt32 → Nat → Option (Option (UInt32 × Nat))
  | 0, _, _ => some none
  | limit + 1, number, count =>
    if place + count < size then do
      let byte ← source (place + count)
      let number := number <<< 7 ||| (byte &&& 0x7F).toUInt32
      if byte &&& 0x80 != 0 then return some (number, count + 1)
      else groups source size place limit number (count + 1)
    else some none

/-- Read some bytes. -/
def bytes (source : Source) (place : Nat) : Nat → Option (List UInt8)
  | 0 => some []
  | count + 1 => do
    let byte ← source place
    let rest ← bytes source (place + 1) count
    return byte :: rest

/-- Read bytes up to a zero, which must be in front of the end. -/
def bytesToZero (source : Source) (size place : Nat) : Option (List UInt8) :=
  if place < size then do
    let byte ← source place
    if byte = 0 then return []
    else
      let rest ← bytesToZero source size (place + 1)
      return byte :: rest
  else none
termination_by size - place

/-- Read an argument and count its bytes. -/
def argument (source : Source) (size : Nat) (opcode : Opcode) (code : ArgumentCode)
    (textFollows : Bool) (place : Nat) : Option (Argument × Nat) :=
  match code with
  | .none => some (.none, 0)
  | .number | .negativeNumber | .indirectNumber => do
    let (number, length) := (← groups source size place 5 0 0).getD (0, size - place)
    if opcode = .number then
      let magnitude := Binary64.ofNat number.toNat
      return (.literal (if code = .negativeNumber then -magnitude else magnitude) none, length)
    else if code = .indirectNumber then return (.indirect (.number number), length)
    else return (.direct (.number number), length)
  | .stack => do
    let letter ← source place
    return (.direct (.stack ((StackRegister.ofLetter? letter).getD .x)), 1)
  | .indirectStack => do
    let letter ← source place
    return (.indirect (.stack ((StackRegister.ofLetter? letter).getD .x)), 1)
  | .localLabel => do
    let letter ← source place
    return (.localLabel letter, 1)
  | .text => do
    let length ← source place
    let text ← bytes source (place + 1) length.toNat
    return (.direct (.text text), 1 + length.toNat)
  | .indirectText => do
    let length ← source place
    let text ← bytes source (place + 1) length.toNat
    return (.indirect (.text text), 1 + length.toNat)
  | .double => do
    let value ← bytes source place 8
    if textFollows then
      let text ← bytesToZero source size (place + 8)
      return (.literal ⟨(wordOf value).toUInt64⟩ (some (Text.ofBytes text)), 8 + text.length + 1)
    else return (.literal ⟨(wordOf value).toUInt64⟩ none, 8)
  | .longText => do
    let high ← source place
    let low ← source (place + 1)
    let length := high.toNat * 256 + low.toNat
    let text ← bytes source (place + 2) length
    return (.longText text, 2 + length)

/-- Read the instruction at an address of a text with some size. -/
def decode (source : Source) (size address : Nat) : Option Decoded := do
  let second ← source (address + 1)
  let first ← source address
  let opcode := (headerOpcode? first second).getD .null
  let code := (ArgumentCode.ofHeader? second).getD .none
  let (argument, length) ←
    argument source size opcode code (second &&& textMark != 0) (address + 2)
  if cachesTarget opcode code then
    return ⟨⟨opcode, argument⟩, 2 + length + cacheLength, some (address + 2 + length)⟩
  else return ⟨⟨opcode, argument⟩, 2 + length, none⟩

end Source

/-- Read the instruction at an offset; none where the bytes end in front of what is read. -/
def decode? (bytes : List UInt8) (offset : Nat) : Option Decoded :=
  Source.decode (bytes[·]?) bytes.length offset

/-- The remembered target of a jump, if there is one; none where the bytes end in front of the cache or in it. -/
def readCache? (bytes : List UInt8) (offset : Nat) : Option (Option Nat) :=
  if offset + cacheLength ≤ bytes.length then some (readCache bytes offset) else none

end Keystroke.Codec
