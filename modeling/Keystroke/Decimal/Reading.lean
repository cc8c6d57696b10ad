import Keystroke.Decimal.Digits

/-!
# Reading numbers

A numeral is an optional sign, digits with at most one point among them and at least one digit, and
optionally a letter e with an optional sign and at least one digit. Its value is rounded to nearest.
-/

namespace Keystroke.Decimal

def isDigit (character : Char) : Bool := '0' ≤ character && character ≤ '9'

/-- The natural number that a run of digits denotes. -/
def digitsValue (digits : List Char) : Nat :=
  digits.foldl (fun value digit => value * 10 + (digit.toNat - 48)) 0

/-- Split off a leading sign; `true` stands for minus. -/
def takeSign : List Char → Bool × List Char
  | '-' :: rest => (true, rest)
  | '+' :: rest => (false, rest)
  | text => (false, text)

/-- The exponent that follows the mantissa, zero if nothing follows. -/
def readExponent? : List Char → Option Int
  | [] => some 0
  | mark :: rest =>
    if mark = 'e' ∨ mark = 'E' then
      let (negative, digits) := takeSign rest
      if digits.isEmpty || !digits.all isDigit then none
      else some (if negative then -(digitsValue digits : Int) else digitsValue digits)
    else none

/-- The number nearest to `digits * 10 ^ exponent`; far beyond the range it is infinite or zero. -/
def nearest (digits : Nat) (exponent : Int) : Binary64 :=
  let size := (Nat.toDigits 10 digits).length + exponent
  if digits = 0 then 0
  else if size > 400 then Binary64.infinity
  else if size < -400 then 0
  else Binary64.ofFloat (Float.ofScientific digits (decide (exponent < 0)) exponent.natAbs)

/-- The number that a numeral denotes. -/
def read? (text : List Char) : Option Binary64 :=
  let (negative, text) := takeSign text
  let whole := text.takeWhile isDigit
  let afterWhole := text.dropWhile isDigit
  let (places, afterMantissa) :=
    match afterWhole with
    | '.' :: rest => (rest.takeWhile isDigit, rest.dropWhile isDigit)
    | rest => ([], rest)
  if whole.isEmpty && places.isEmpty then none
  else
    match readExponent? afterMantissa with
    | none => none
    | some exponent =>
      let magnitude := nearest (digitsValue (whole ++ places)) (exponent - places.length)
      some (if negative then -magnitude else magnitude)

end Keystroke.Decimal
