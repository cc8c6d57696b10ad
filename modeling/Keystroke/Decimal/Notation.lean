import Keystroke.Decimal.Digits

/-!
# Numbers as text

Positional and scientific notation, with the fewest digits that identify a number or with a fixed
count of digits behind the point.
-/

namespace Keystroke.Decimal

/-- The decimal digits of a natural number. -/
def digitText (n : Nat) : String := String.ofList (Nat.toDigits 10 n)

/-- Digits filled up with zeros on the left to at least the given width. -/
def paddedDigits (width n : Nat) : String :=
  String.ofList (List.replicate (width - (Nat.toDigits 10 n).length) '0' ++ Nat.toDigits 10 n)

/-- Digits with a point before the last `places` of them. -/
def pointed (digits : String) (places : Nat) : String :=
  if places = 0 then digits
  else
    let whole := digits.toList.length - places
    String.ofList (digits.toList.take whole ++ '.' :: digits.toList.drop whole)

/-- A decimal without an exponent. -/
def positional (decimal : Decimal) : String :=
  if 0 ≤ decimal.exponent then digitText (decimal.digits * Nat.pow 10 decimal.exponent.toNat)
  else
    let places := (-decimal.exponent).toNat
    pointed (paddedDigits (places + 1) decimal.digits) places

/-- A decimal with one digit before the point and its exponent behind the mark. -/
def scientific (decimal : Decimal) (mark : Char) : String :=
  let digits := digitText decimal.digits
  let places := digits.toList.length - 1
  s!"{pointed digits places}{mark}{decimal.exponent + places}"

/-- What to write for a number that is not finite. -/
def notFinite (x : Binary64) : String :=
  if x.isNaN then "NaN" else if x.isNegative then "-inf" else "inf"

/-- Put the sign before the text of the magnitude. -/
def signed (x : Binary64) (magnitude : String) : String :=
  if x.isNegative then "-" ++ magnitude else magnitude

/-- The fewest digits that identify a number, without an exponent. -/
def plainText (x : Binary64) : String :=
  if !x.isFinite then notFinite x
  else if x.isZero then signed x "0"
  else signed x (Magnitude.of x).shortest.positional

/-- The fewest digits that identify a number, with an exponent. -/
def exponentText (mark : Char) (x : Binary64) : String :=
  if !x.isFinite then notFinite x
  else if x.isZero then signed x s!"0{mark}0"
  else signed x ((Magnitude.of x).shortest.scientific mark)

/-- A number rounded to a fixed count of places behind the point. -/
def fixedText (places : Nat) (x : Binary64) : String :=
  if !x.isFinite then notFinite x
  else
    let digits := (Magnitude.of x).roundedAt (-(places : Int))
    signed x (pointed (paddedDigits (places + 1) digits) places)

/-- A number rounded to one digit before the point and a fixed count behind it, with an exponent. -/
def fixedExponentText (mark : Char) (places : Nat) (x : Binary64) : String :=
  if !x.isFinite then notFinite x
  else if x.isZero then
    signed x s!"{pointed (paddedDigits (places + 1) 0) places}{mark}0"
  else
    let decimal := (Magnitude.of x).significant (places + 1)
    signed x
      s!"{pointed (digitText decimal.digits) places}{mark}{decimal.exponent + places}"

end Keystroke.Decimal
