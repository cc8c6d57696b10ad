import Keystroke.Decimal.Reading
import Keystroke.Error

/-!
# Number entry

The number that is being keyed in: a mantissa of up to twelve digits and an exponent of up to three,
exactly as shown.
-/

namespace Keystroke

/-- The text of a number that is being keyed in. -/
structure Entry where
  text : List Char
deriving DecidableEq, Inhabited

namespace Entry

def maximalMantissaDigits : Nat := 12

def maximalExponentDigits : Nat := 3

def empty : Entry := ⟨[]⟩

/-- What is in front of the exponent mark. -/
def mantissa (entry : Entry) : List Char := entry.text.takeWhile (· ≠ 'E')

/-- What is behind the exponent mark, if there is one. -/
def exponent? (entry : Entry) : Option (List Char) :=
  match entry.text.dropWhile (· ≠ 'E') with
  | [] => none
  | _ :: exponent => some exponent

/-- A text without the minus signs at its start. -/
def withoutSign (text : List Char) : List Char := text.dropWhile (· = '-')

/-- Whether the part that is being keyed in has all its digits; an exponent is measured in bytes. -/
def isFull (entry : Entry) : Bool :=
  match entry.exponent? with
  | some exponent =>
    maximalExponentDigits ≤ (String.ofList (withoutSign exponent)).utf8ByteSize
  | none => maximalMantissaDigits ≤ (entry.mantissa.filter Decimal.isDigit).length

/-- Key in a digit; one too many is ignored. -/
def digit (entry : Entry) (digit : Char) : Entry :=
  if entry.isFull then entry else ⟨entry.text ++ [digit]⟩

/-- Key in the point, with a zero in front of it if no digit is there. -/
def dot (entry : Entry) : Entry :=
  if entry.text.contains '.' || entry.text.contains 'E' then entry
  else if (withoutSign entry.mantissa).isEmpty then ⟨entry.text ++ ['0', '.']⟩
  else ⟨entry.text ++ ['.']⟩

/-- Begin the exponent, with a one in front of it if no digit is there. -/
def exponent (entry : Entry) : Entry :=
  if entry.text.contains 'E' then entry
  else if entry.text.any Decimal.isDigit then ⟨entry.text ++ ['E']⟩
  else ⟨entry.text ++ ['1', 'E']⟩

/-- Put a minus sign in front, or take it away. -/
def toggleSign : List Char → List Char
  | '-' :: rest => rest
  | text => '-' :: text

/-- Change the sign of the part that is being keyed in. -/
def changeSign (entry : Entry) : Entry :=
  match entry.exponent? with
  | some exponent => ⟨entry.mantissa ++ 'E' :: toggleSign exponent⟩
  | none => ⟨toggleSign entry.text⟩

/-- Take the last character away; also tells whether anything worth keeping is left. -/
def backspace (entry : Entry) : Bool × Entry :=
  let shorter := entry.text.dropLast
  (!shorter.isEmpty && shorter ≠ ['-'], ⟨shorter⟩)

/-- The number keyed in; what is missing counts as zero. -/
def value (entry : Entry) : Outcome Binary64 :=
  let bare := withoutSign entry.mantissa
  let mantissa := if bare.isEmpty || bare = ['.'] then ['0'] else entry.mantissa
  let exponent :=
    match entry.exponent? with
    | none | some [] | some ['-'] => ['0']
    | some exponent => exponent
  match Decimal.read? (mantissa ++ 'E' :: exponent) with
  | none => fail .invalidData
  | some value => if value.isFinite then .ok value else fail .outOfRange

end Entry

end Keystroke
