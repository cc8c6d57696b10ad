import Keystroke.Binary64
import Keystroke.Decimal.Notation
import Keystroke.Opcode

/-!
# Instructions

A command together with its argument. A number literal keeps the text it was typed with, unless that
is the text written for its value anyway.
-/

namespace Keystroke

/-- One of the five named registers of the stack. -/
inductive StackRegister where
  | x
  | y
  | z
  | t
  /-- The last value of X that a command consumed. -/
  | lastX
deriving DecidableEq, Repr, Inhabited

namespace StackRegister

/-- The letter of a register. -/
def letter : StackRegister → UInt8
  | x => 88
  | y => 89
  | z => 90
  | t => 84
  | lastX => 76

/-- The register with a letter, upper or lower case. -/
def ofLetter? (letter : UInt8) : Option StackRegister :=
  if letter = 88 ∨ letter = 120 then some x
  else if letter = 89 ∨ letter = 121 then some y
  else if letter = 90 ∨ letter = 122 then some z
  else if letter = 84 ∨ letter = 116 then some t
  else if letter = 76 ∨ letter = 108 then some lastX
  else none

/-- The distance from the top of the stack; the last X is not on the stack. -/
def depth? : StackRegister → Option Nat
  | x => some 0
  | y => some 1
  | z => some 2
  | t => some 3
  | lastX => none

end StackRegister

/-- What an argument names: a number, a stack register, or a text. -/
inductive Operand where
  | number (number : UInt32)
  | stack (register : StackRegister)
  | text (bytes : List UInt8)
deriving DecidableEq, Inhabited

/-- The argument of an instruction. -/
inductive Argument where
  | none
  | direct (operand : Operand)
  /-- The argument is what is found at the operand. -/
  | indirect (operand : Operand)
  /-- A label of one letter, visible in its own program only. -/
  | localLabel (letter : UInt8)
  /-- A number, with its text if that differs from the text written for the value. -/
  | literal (value : Binary64) (text : Option String)
  /-- A text that may be longer than a name. -/
  | longText (bytes : List UInt8)
deriving DecidableEq, Inhabited

namespace Argument

/-- The longest name or short text. -/
def maximalTextLength : Nat := 15

/-- The longest text of any kind. -/
def maximalLongTextLength : Nat := 65535

/-- A number literal as typed; the text is kept only where it cannot be written from the value. -/
def typedLiteral (value : Binary64) (text : Option String) : Argument :=
  .literal value (text.filter fun typed => typed != Decimal.plainText value)

/-- Whether a letter may be a local label: `A` to `J` and `a` to `e`. -/
def isLocalLabel (letter : UInt8) : Bool := (65 ≤ letter && letter ≤ 74) || (97 ≤ letter && letter ≤ 101)

def isIndirect : Argument → Bool
  | .indirect _ => true
  | _ => false

/-- Whether two arguments mean the same; the values of literals are compared as numbers, so that a NaN
means nothing. -/
def agrees : Argument → Argument → Bool
  | .literal value text, .literal other otherText => value.equals other && text == otherText
  | argument, other => argument == other

/-- The text of an argument that is one. -/
def text? : Argument → Option (List UInt8)
  | .direct (.text bytes) | .indirect (.text bytes) | .longText bytes => some bytes
  | _ => Option.none

end Argument

/-- A command with its argument. -/
structure Instruction where
  opcode : Opcode
  argument : Argument
deriving DecidableEq, Inhabited

namespace Instruction

/-- A command without an argument. -/
def plain (opcode : Opcode) : Instruction := ⟨opcode, .none⟩

def isEnd (instruction : Instruction) : Bool := instruction.opcode == .endOfProgram

/-- A label that is found from every program. -/
def isGlobalLabel (instruction : Instruction) : Bool :=
  match instruction with
  | ⟨.label, .direct (.text _)⟩ => true
  | _ => false

end Instruction

end Keystroke
