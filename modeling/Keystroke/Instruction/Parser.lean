import Keystroke.Decimal.Reading
import Keystroke.Error
import Keystroke.Instruction
import Keystroke.Opcode.Typed
import Keystroke.Text.Blank
import Keystroke.Text.Utf8

/-!
# Instructions as typed

One line of text is one instruction: a number, a text between quotation marks, or the name of a
command with its argument as a listing shows it, such as `STO 05`, `RCL IND ST X` or `XEQ "AREA"`.
-/

namespace Keystroke

/-- What a typed line means. -/
inductive TypedLine where
  | empty
  | complete (instruction : Instruction)
  /-- The command needs an argument that the line does not give. -/
  | pending (opcode : Opcode)
deriving DecidableEq, Inhabited

namespace TypedLine

/-- The bytes between the quotation marks around a text. -/
def unquote (text : List Char) : Outcome (List UInt8) :=
  let unterminated := failWith .invalidData "UNTERMINATED STRING"
  match Text.trim text with
  | '"' :: inner =>
    match inner.reverse with
    | '"' :: reversed => .ok (Text.toBytes (String.ofList reversed.reverse))
    | _ => unterminated
  | _ => unterminated

/-- The finite number that a text denotes, if it begins and goes on like one. -/
def number? (text : List Char) : Option Binary64 :=
  match text with
  | [] => none
  | first :: _ =>
    if (Decimal.isDigit first || ['.', '-', '+'].contains first) &&
        text.all (fun c => Decimal.isDigit c || ['.', '-', '+', 'e', 'E'].contains c) then
      (Decimal.read? text).filter Binary64.isFinite
    else none

/-- The stack register behind the letters `ST`. -/
def stackRegister? (text : List Char) : Option StackRegister :=
  match Text.trim text with
  | [letter] => if letter.toNat < 128 then StackRegister.ofLetter? letter.toNat.toUInt8 else none
  | _ => none

/-- An argument that is not indirect. -/
def directArgument (text : List Char) : Outcome Argument :=
  let text := Text.trim text
  if text.head? = some '"' then do
    let name ← unquote text
    if name.length > Argument.maximalTextLength then fail .nameTooLong
    else return .direct (.text name)
  else if ['S', 'T', ' '].isPrefixOf (Text.upper text) then
    match stackRegister? (text.drop 3) with
    | some register => .ok (.direct (.stack register))
    | none => failWith .invalidData "BAD STACK REGISTER"
  else if !text.isEmpty && text.all Decimal.isDigit then
    let number := Decimal.digitsValue text
    if number < 0x100000000 then .ok (.direct (.number number.toUInt32)) else fail .outOfRange
  else
    match text with
    | [letter] =>
      if letter.toNat < 128 && Argument.isLocalLabel letter.toNat.toUInt8 then
        .ok (.localLabel letter.toNat.toUInt8)
      else failWith .invalidData "BAD ARGUMENT"
    | _ => failWith .invalidData "BAD ARGUMENT"

/-- An argument, direct or behind the letters `IND`. -/
def argument (text : List Char) : Outcome Argument :=
  if ['I', 'N', 'D', ' '].isPrefixOf (Text.upper text) then do
    match ← directArgument (text.drop 4) with
    | .direct operand => return .indirect operand
    | _ => failWith .invalidData "BAD INDIRECT"
  else directArgument text

/-- The greatest number that a kind of argument admits. -/
def numberLimit? : ArgumentKind → Option Nat
  | .upTo9 => some 9
  | .upTo11 => some 11
  | .upTo99 => some 99
  | _ => none

/-- Refuse an argument that does not suit the command. -/
def checkArgument (opcode : Opcode) (argument : Argument) : Outcome Unit :=
  match opcode.argumentKind, argument with
  | kind, .direct (.number number) =>
    if ((numberLimit? kind).map fun limit => decide (number.toNat > limit)).getD false then
      fail .outOfRange
    else
      match kind with
      | .program => failWith .invalidData "GLOBAL LABEL EXPECTED"
      | .named | .matrix => failWith .invalidData "NAME EXPECTED"
      | _ => .ok ()
  | .program, .localLabel _ => failWith .invalidData "GLOBAL LABEL EXPECTED"
  | .label, .direct (.stack _) | .program, .direct (.stack _) =>
    failWith .invalidData "LABEL EXPECTED"
  | kind, .localLabel _ =>
    if kind ≠ .label ∧ opcode ≠ .label then failWith .invalidData "BAD ARGUMENT" else .ok ()
  | _, _ => .ok ()

/-- Complete a command with the trimmed text of its argument. -/
def withArgument (opcode : Opcode) (text : List Char) : Outcome TypedLine :=
  if text.isEmpty then
    .ok (if opcode.argumentKind = .none then .complete (.plain opcode) else .pending opcode)
  else
    match opcode.argumentKind with
    | .none => failWith .invalidData "UNEXPECTED ARGUMENT"
    | .longText => return .complete ⟨opcode, .longText (← unquote text)⟩
    | _ => do
      let argument ← argument text
      checkArgument opcode argument
      return .complete ⟨opcode, argument⟩

/-- Read the argument of a command that was typed before. -/
def parseArgument (opcode : Opcode) (text : String) : Outcome TypedLine :=
  withArgument opcode (Text.trim text.toList)

/-- The command named by the first words, as many as possible, and how many they are. -/
def command? (words : List (List Char)) : Option (Opcode × Nat) :=
  [3, 2, 1].findSome? fun count =>
    if count ≤ words.length then
      (Opcode.ofTyped? (List.intercalate [' '] (words.take count))).map fun opcode =>
        (opcode, count)
    else none

/-- Read a line of text. -/
def parse (line : String) : Outcome TypedLine :=
  let text := Text.trim line.toList
  if text.isEmpty then .ok .empty
  else if text.head? = some '"' then do
    let bytes ← unquote text
    if bytes.length > Argument.maximalTextLength then
      return .complete ⟨.longText, .longText bytes⟩
    else return .complete ⟨.shortText, .direct (.text bytes)⟩
  else
    match number? text with
    | some value =>
      .ok (.complete ⟨.number, Argument.typedLiteral value (some (String.ofList text))⟩)
    | none =>
      match command? (Text.words text) with
      | some (opcode, count) => withArgument opcode (Text.afterWords count text)
      | none => failWith .nonexistent "UNKNOWN COMMAND"

end TypedLine

end Keystroke
