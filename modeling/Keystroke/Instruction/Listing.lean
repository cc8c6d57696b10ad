import Keystroke.Instruction
import Keystroke.Text.Utf8

/-!
# Instructions as listed

The text of an instruction in a listing: the name of the command and its argument.
-/

namespace Keystroke.Instruction

/-- A text between quotation marks. -/
def quoted (bytes : List UInt8) : String := "\"" ++ Text.ofBytes bytes ++ "\""

/-- How many digits a number argument has at least. -/
def numberWidth (opcode : Opcode) : Nat := if opcode = .size then 4 else 2

/-- The longest number literal that is listed in full. -/
def maximalLiteralLength : Nat := 22

/-- A number literal as listed; a long one loses its beginning to a mark of omission. -/
def literalText (text : String) : String :=
  let characters := text.toList
  if characters.length > maximalLiteralLength then
    String.ofList ('…' :: characters.drop (characters.length - maximalLiteralLength + 1))
  else text

/-- An operand as listed, its number with at least `width` digits. -/
def operandText (width : Nat) : Operand → String
  | .number number => Decimal.paddedDigits width number.toNat
  | .stack register => String.ofList ['S', 'T', ' ', Char.ofNat register.letter.toNat]
  | .text bytes => quoted bytes

/-- An instruction as listed. -/
def listing (instruction : Instruction) : String :=
  let command := instruction.opcode.display
  match instruction.opcode, instruction.argument with
  | .number, .literal value text => literalText (text.getD (Decimal.plainText value))
  | .shortText, .direct (.text bytes) => quoted bytes
  | _, .none => command
  | opcode, .direct operand => command ++ " " ++ operandText (numberWidth opcode) operand
  | _, .indirect operand => command ++ " IND " ++ operandText 2 operand
  | _, .localLabel letter => command ++ " " ++ String.singleton (Char.ofNat letter.toNat)
  | _, .literal value _ => command ++ " " ++ Decimal.plainText value
  | _, .longText bytes => command ++ " " ++ quoted bytes

end Keystroke.Instruction
