import Keystroke.Decimal.Notation
import Keystroke.Flags
import Keystroke.Value.Function

/-!
# Values as shown

The text of a value on the display and on paper, in the display mode that the flags hold.
-/

namespace Keystroke

namespace Binary64

/-- From here on a number is shown with an exponent. -/
def positionalLimit : Binary64 := 1e12

/-- A number with an exponent that is a multiple of three. -/
def shownEngineering (digits : Nat) (x : Binary64) : String :=
  if x.isZero then Decimal.fixedText digits 0 ++ "E0"
  else
    let exponent := x.abs.log10.floor.toInt32
    let multiple := exponent - exponent % 3
    let mantissa := x / powInt 10 multiple
    s!"{Decimal.fixedText (digits - (exponent - multiple).toNat) mantissa}E{multiple}"

/-- A number with all its digits; one without places keeps its point. -/
def shownInFull (x : Binary64) : String :=
  let size := x.abs
  if size.isZero ∨ ((1e-4 : Binary64) ≤ size ∧ size < positionalLimit) then
    let text := Decimal.plainText x
    if text.toList.contains '.' then text else text ++ "."
  else Decimal.exponentText 'E' x

/-- A number with a fixed count of places; with an exponent where it is too large for that or would
be shown as zero. -/
def shownFixed (digits : Nat) (x : Binary64) : String :=
  let size := x.abs
  let smallest := 0.5 * powInt 10 (-(digits : Int))
  if positionalLimit ≤ size ∨ (!size.isZero ∧ size < smallest) then
    Decimal.fixedExponentText 'E' digits x
  else if digits = 0 then Decimal.fixedText 0 x ++ "."
  else Decimal.fixedText digits x

/-- A number in a display mode. -/
def shown (mode : DisplayMode) (x : Binary64) : String :=
  if x.isNaN then "NaN"
  else if x.isInfinite then if x.isNegative then "-∞" else "∞"
  else
    match mode with
    | .all => x.shownInFull
    | .fixed digits => x.shownFixed digits
    | .scientific digits => Decimal.fixedExponentText 'E' digits x
    | .engineering digits => x.shownEngineering digits

end Binary64

/-- A complex number in rectangular or polar form. -/
def ComplexNumber.shown (flags : Flags) (z : ComplexNumber) : String :=
  let mode := flags.displayMode
  if flags.get Flags.polar then
    let size := z.re.hypot z.im
    let angle := flags.angleMode.ofRadians (z.im.atan2 z.re)
    s!"{size.shown mode} ∠{angle.shown mode}"
  else if z.im < 0 then s!"{z.re.shown mode} -i{(-z.im).shown mode}"
  else s!"{z.re.shown mode} i{z.im.shown mode}"

/-- A value as shown. -/
def Value.shown (flags : Flags) : Value → String
  | .null => "<Null>"
  | .real x => x.shown flags.displayMode
  | .complex z => z.shown flags
  | .text bytes => "\"" ++ Text.ofBytes bytes ++ "\""
  | .realMatrix _ grid => s!"[ {grid.rows}×{grid.cols} Matrix ]"
  | .complexMatrix _ grid => s!"[ {grid.rows}×{grid.cols} Cpx Matrix ]"
  | .list _ items => "\x7b " ++ s!"{items.length}-Elem List" ++ " \x7d"

end Keystroke
