import Keystroke.Error
import Keystroke.Instruction
import Keystroke.Text.Utf8

/-!
# Instructions as bytes

An instruction is two header bytes and its argument. The first header byte holds the low eight bits
of the command's number. The second holds the kind of argument in its low four bits, the high three
bits of the number above them, and in the top bit whether a number literal is followed by its text.

Every kind of argument says where it ends, so a program is walked from its own bytes. A jump to a
number or a letter is followed by four bytes that remember its target; all ones mean that nothing is
remembered. `length?` finds where an instruction ends without reading it; it also serves to check
bytes of unknown origin.
-/

namespace Keystroke.Codec

/-- How the argument of an instruction is stored. -/
inductive ArgumentCode where
  | none
  | number
  | negativeNumber
  | stack
  | text
  | localLabel
  | double
  | longText
  | indirectNumber
  | indirectStack
  | indirectText
deriving DecidableEq, Repr, Inhabited

namespace ArgumentCode

/-- The four bits that stand for an argument code. -/
def bits : ArgumentCode → UInt8
  | none => 0
  | number => 1
  | negativeNumber => 2
  | stack => 3
  | text => 4
  | localLabel => 5
  | double => 6
  | longText => 7
  | indirectNumber => 9
  | indirectStack => 11
  | indirectText => 12

/-- The argument code in the low four bits of the second header byte. -/
def ofHeader? (header : UInt8) : Option ArgumentCode :=
  match (header &&& 0x0F).toNat with
  | 0 => some none
  | 1 => some number
  | 2 => some negativeNumber
  | 3 => some stack
  | 4 => some text
  | 5 => some localLabel
  | 6 => some double
  | 7 => some longText
  | 9 => some indirectNumber
  | 11 => some indirectStack
  | 12 => some indirectText
  | _ => Option.none

end ArgumentCode

/-- Marks a number literal whose text follows. -/
def textMark : UInt8 := 0x80

/-- The size of a jump cache. -/
def cacheLength : Nat := 4

/-- The longest encoded instruction, long texts apart. -/
def maximalLength : Nat := 100

/-- Whether a jump with this kind of argument remembers its target. -/
def cachesTarget (opcode : Opcode) (code : ArgumentCode) : Bool :=
  opcode.hasTargetCache && (code = .number || code = .localLabel)

/-! ## Numbers in groups of seven bits -/

/-- The groups of a number, the last one marked, in front of the groups already written. -/
def groupsBefore : Nat → Nat → List UInt8 → List UInt8
  | 0, _, written => written
  | fuel + 1, number, written =>
    if number < 128 then number.toUInt8 :: written
    else groupsBefore fuel (number / 128) ((number % 128).toUInt8 :: written)

/-- A number in groups of seven bits, the highest first; the top bit marks the last group. -/
def groups (number : UInt32) : List UInt8 :=
  let last := (number.toNat % 128 + 128).toUInt8
  if number.toNat < 128 then [last] else groupsBefore 5 (number.toNat / 128) [last]

/-- Read the groups of a number, at most five; also tells how many there were. -/
def readGroups (bytes : List UInt8) : Option (UInt32 × Nat) :=
  go 5 0 0 bytes
where
  go : Nat → UInt32 → Nat → List UInt8 → Option (UInt32 × Nat)
    | limit + 1, number, count, byte :: rest =>
      let number := number <<< 7 ||| (byte &&& 0x7F).toUInt32
      if byte &&& 0x80 != 0 then some (number, count + 1) else go limit number (count + 1) rest
    | _, _, _, _ => none

/-- The bytes of a word, the highest first. -/
def wordBytes (count : Nat) (word : Nat) : List UInt8 :=
  (List.range count).reverse.map fun place => (word / Nat.pow 256 place).toUInt8

/-- The word with these bytes, the highest first. -/
def wordOf (bytes : List UInt8) : Nat := bytes.foldl (fun word byte => word * 256 + byte.toNat) 0

/-! ## Writing -/

/-- The integer that stands for a literal without a text: whole, within thirty-one bits and a sign,
and not the negative zero. -/
def smallInteger? (value : Binary64) : Option Int :=
  match value.toInt? with
  | some integer =>
    if integer.natAbs ≤ 2147483647 ∧ value.bits ≠ Binary64.signMask then some integer else none
  | none => none

/-- A short text behind its length. -/
def textBytes (bytes : List UInt8) : Outcome (List UInt8) :=
  if bytes.length > Argument.maximalTextLength then fail .nameTooLong
  else .ok (bytes.length.toUInt8 :: bytes)

/-- A literal, in full or as a small integer; also tells whether its text follows. -/
def literalBytes (value : Binary64) : Option String → Outcome (ArgumentCode × Bool × List UInt8)
  | some text =>
    let bytes := Text.toBytes text
    if bytes.contains 0 then fail .invalidData
    else .ok (.double, true, wordBytes 8 value.bits.toNat ++ bytes ++ [0])
  | none =>
    match smallInteger? value with
    | some integer =>
      .ok (if integer < 0 then .negativeNumber else .number, false,
        groups integer.natAbs.toUInt32)
    | none => .ok (.double, false, wordBytes 8 value.bits.toNat)

/-- An argument as bytes; also tells whether the text of a literal follows. -/
def argumentBytes : Argument → Outcome (ArgumentCode × Bool × List UInt8)
  | .none => .ok (.none, false, [])
  | .direct (.number number) => .ok (.number, false, groups number)
  | .indirect (.number number) => .ok (.indirectNumber, false, groups number)
  | .direct (.stack register) => .ok (.stack, false, [register.letter])
  | .indirect (.stack register) => .ok (.indirectStack, false, [register.letter])
  | .direct (.text bytes) => return (.text, false, ← textBytes bytes)
  | .indirect (.text bytes) => return (.indirectText, false, ← textBytes bytes)
  | .localLabel letter =>
    if Argument.isLocalLabel letter then .ok (.localLabel, false, [letter])
    else failWith .invalidData "NOT A LOCAL LABEL"
  | .literal value text => literalBytes value text
  | .longText bytes =>
    if bytes.length > Argument.maximalLongTextLength then failWith .invalidData "STRING TOO LONG"
    else .ok (.longText, false, wordBytes 2 bytes.length ++ bytes)

/-- The two header bytes. -/
def header (opcode : Opcode) (code : ArgumentCode) (textFollows : Bool) : List UInt8 :=
  [opcode.code.toUInt8,
   (opcode.code / 256 % 8 * 16).toUInt8 ||| code.bits ||| (if textFollows then textMark else 0)]

/-- A jump cache that remembers nothing. -/
def emptyCache : List UInt8 := List.replicate cacheLength 0xFF

/-- The bytes of an instruction. -/
def encode (instruction : Instruction) : Outcome (List UInt8) := do
  let (code, textFollows, argument) ← argumentBytes instruction.argument
  let cache := if cachesTarget instruction.opcode code then emptyCache else []
  let bytes := header instruction.opcode code textFollows ++ argument ++ cache
  if code ≠ .longText ∧ bytes.length > maximalLength then
    failWith .invalidData "INSTRUCTION TOO LONG"
  else return bytes

/-! ## Finding the end -/

/-- The command named by the header bytes. -/
def headerOpcode? (first second : UInt8) : Option Opcode :=
  Opcode.ofCode? (first.toNat + (second >>> 4 &&& 7).toNat * 256)

/-- The length of the bytes up to and including the first zero. -/
def lengthToZero? : List UInt8 → Option Nat
  | [] => none
  | byte :: rest => if byte = 0 then some 1 else (lengthToZero? rest).map (· + 1)

/-- The length that an argument claims to have. -/
def argumentLength? (code : ArgumentCode) (textFollows : Bool) (bytes : List UInt8) : Option Nat :=
  match code with
  | .none => some 0
  | .number | .negativeNumber | .indirectNumber => (readGroups bytes).map (·.2)
  | .stack | .indirectStack | .localLabel => some 1
  | .text | .indirectText => bytes.head?.map fun length => 1 + length.toNat
  | .double =>
    if textFollows then (lengthToZero? (bytes.drop 8)).map (8 + ·) else some 8
  | .longText =>
    match bytes with
    | high :: low :: _ => some (2 + (high.toNat * 256 + low.toNat))
    | _ => none

/-- The length of the instruction at the start of the bytes, if there is a complete one. -/
def lengthAtStart? : List UInt8 → Option Nat
  | first :: second :: rest => do
    let opcode ← headerOpcode? first second
    let code ← ArgumentCode.ofHeader? second
    let argument ← argumentLength? code (second &&& textMark != 0) rest
    let cache := if cachesTarget opcode code then cacheLength else 0
    if argument + cache ≤ rest.length then some (2 + argument + cache) else none
  | _ => none

/-- The length of the instruction at an offset, if there is a complete one. -/
def length? (bytes : List UInt8) (offset : Nat) : Option Nat := lengthAtStart? (bytes.drop offset)

/-- The length of the instruction at an offset; if it is not complete, what is left of the bytes. -/
def length (bytes : List UInt8) (offset : Nat) : Nat :=
  (length? bytes offset).getD (bytes.length - offset)

/-! ## Reading -/

/-- An instruction that was read, its length, and the offset of its jump cache if it has one. -/
structure Decoded where
  instruction : Instruction
  length : Nat
  cache : Option Nat
deriving DecidableEq, Inhabited

/-- The number in groups at the start of the bytes; broken groups count as zero up to the end. -/
def numberAtStart (bytes : List UInt8) : UInt32 × Nat := (readGroups bytes).getD (0, bytes.length)

/-- The stack register with a letter; an unknown letter stands for X. -/
def registerAtStart (bytes : List UInt8) : StackRegister :=
  (StackRegister.ofLetter? (bytes.headD 0)).getD .x

/-- The short text behind its length. -/
def textAtStart (bytes : List UInt8) : List UInt8 :=
  (bytes.drop 1).take (bytes.headD 0).toNat

/-- Read an argument and count its bytes. -/
def readArgument (opcode : Opcode) (code : ArgumentCode) (textFollows : Bool)
    (bytes : List UInt8) : Argument × Nat :=
  match code with
  | .none => (.none, 0)
  | .number | .negativeNumber | .indirectNumber =>
    let (number, length) := numberAtStart bytes
    let argument : Argument :=
      if opcode = .number then
        let magnitude := Binary64.ofNat number.toNat
        .literal (if code = .negativeNumber then -magnitude else magnitude) none
      else if code = .indirectNumber then .indirect (.number number)
      else .direct (.number number)
    (argument, length)
  | .stack => (.direct (.stack (registerAtStart bytes)), 1)
  | .indirectStack => (.indirect (.stack (registerAtStart bytes)), 1)
  | .localLabel => (.localLabel (bytes.headD 0), 1)
  | .text => (.direct (.text (textAtStart bytes)), 1 + (bytes.headD 0).toNat)
  | .indirectText => (.indirect (.text (textAtStart bytes)), 1 + (bytes.headD 0).toNat)
  | .double =>
    let value : Binary64 := ⟨(wordOf (bytes.take 8)).toUInt64⟩
    if textFollows then
      let text := (bytes.drop 8).takeWhile (· ≠ 0)
      (.literal value (some (Text.ofBytes text)), 8 + text.length + 1)
    else (.literal value none, 8)
  | .longText =>
    let length := wordOf (bytes.take 2)
    (.longText ((bytes.drop 2).take length), 2 + length)

/-- Read the instruction at an offset. Where there is no command the `null` command is read. -/
def decode (bytes : List UInt8) (offset : Nat) : Decoded :=
  let here := bytes.drop offset
  let first := here.headD 0
  let second := (here.drop 1).headD 0
  let opcode := (headerOpcode? first second).getD .null
  let code := (ArgumentCode.ofHeader? second).getD .none
  let (argument, length) := readArgument opcode code (second &&& textMark != 0) (here.drop 2)
  if cachesTarget opcode code then
    ⟨⟨opcode, argument⟩, 2 + length + cacheLength, some (offset + 2 + length)⟩
  else ⟨⟨opcode, argument⟩, 2 + length, none⟩

/-! ## Jump caches -/

/-- The remembered target of a jump, if there is one. -/
def readCache (bytes : List UInt8) (offset : Nat) : Option Nat :=
  let field := (bytes.drop offset).take cacheLength
  if field = emptyCache then none else some (wordOf field)

/-- Overwrite the bytes from an offset on. -/
def overwrite (bytes : List UInt8) (offset : Nat) (new : List UInt8) : List UInt8 :=
  bytes.take offset ++ new ++ bytes.drop (offset + new.length)

/-- Remember a target, or forget it. -/
def writeCache (bytes : List UInt8) (offset : Nat) (target : Option Nat) : List UInt8 :=
  overwrite bytes offset ((target.map (wordBytes cacheLength)).getD emptyCache)

end Keystroke.Codec
