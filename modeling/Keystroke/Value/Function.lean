import Keystroke.Flags
import Keystroke.Value.Arithmetic

/-!
# Functions of one value

Functions of a number, applied to a matrix element by element.
-/

namespace Keystroke

namespace AngleMode

/-- An angle in radians. -/
def toRadians (mode : AngleMode) (x : Binary64) : Binary64 :=
  match mode with
  | .degrees => x.toRadians
  | .radians => x
  | .gradians => x * Binary64.pi / 200

/-- An angle given in radians. -/
def ofRadians (mode : AngleMode) (x : Binary64) : Binary64 :=
  match mode with
  | .degrees => x.toDegrees
  | .radians => x
  | .gradians => x * 200 / Binary64.pi

end AngleMode

namespace Value

/-- Apply a function to a real number or to every element of a real matrix. -/
def onReal (f : Binary64 → Outcome Binary64) : Value → Outcome Value
  | .real x => do return .real (← (← f x).checked)
  | .realMatrix _ grid => mapReal f grid
  | .text _ => fail .alphaDataIsInvalid
  | _ => fail .invalidType

/-- A function of a real number that is defined where the condition holds. -/
def whereDefined (isDefined : Binary64 → Bool) (f : Binary64 → Binary64) (x : Binary64) :
    Outcome Binary64 :=
  if isDefined x then .ok (f x) else fail .invalidData

def negate : Value → Outcome Value
  | .complex z => .ok (.complex (-z))
  | .complexMatrix _ grid => .ok (newComplexMatrix (grid.map fun z => -z))
  | value => onReal (fun x => .ok (-x)) value

def sqrt : Value → Outcome Value
  | .complex z => do
    let logarithm ← z.ln
    return .complex (← (ComplexNumber.exp ⟨logarithm.re / 2, logarithm.im / 2⟩).checked)
  | value => onReal (whereDefined (fun x => !decide (x < 0)) Binary64.sqrt) value

def ln : Value → Outcome Value
  | .complex z => do return .complex (← (← z.ln).checked)
  | value => onReal (whereDefined (fun x => !decide (x ≤ 0)) Binary64.ln) value

def log : Value → Outcome Value :=
  onReal (whereDefined (fun x => !decide (x ≤ 0)) Binary64.log10)

def exp : Value → Outcome Value
  | .complex z => do return .complex (← z.exp.checked)
  | value => onReal (fun x => .ok x.exp) value

def reciprocal : Value → Outcome Value
  | .complex z => do return .complex (← ComplexNumber.divide ⟨1, 0⟩ z)
  | value => onReal (fun x => if x.equals 0 then fail .divideByZero else .ok (1 / x)) value

def absolute : Value → Outcome Value
  | .complex z => do return .real (← (z.re.hypot z.im).checked)
  | value => onReal (fun x => .ok x.abs) value

/-- One, zero or minus one by the sign; a complex number keeps its direction, and a text counts as
zero. -/
def sign : Value → Outcome Value
  | .text _ => .ok (.real 0)
  | .complex z =>
    let size := z.re.hypot z.im
    .ok (.complex (if size.equals 0 then ⟨0, 0⟩ else ⟨z.re / size, z.im / size⟩))
  | value => onReal (fun x => .ok (if 0 < x then 1 else if x < 0 then -1 else 0)) value

def sin (mode : AngleMode) : Value → Outcome Value := onReal fun x => .ok (mode.toRadians x).sin

def cos (mode : AngleMode) : Value → Outcome Value := onReal fun x => .ok (mode.toRadians x).cos

def tan (mode : AngleMode) : Value → Outcome Value :=
  onReal fun x =>
    let angle := mode.toRadians x
    if angle.cos.equals 0 then fail .outOfRange else .ok angle.tan

/-- Whether a number is no cosine of an angle. -/
def exceedsOne (x : Binary64) : Bool := decide (1 < x.abs)

def asin (mode : AngleMode) : Value → Outcome Value :=
  onReal (whereDefined (fun x => !exceedsOne x) fun x => mode.ofRadians x.asin)

def acos (mode : AngleMode) : Value → Outcome Value :=
  onReal (whereDefined (fun x => !exceedsOne x) fun x => mode.ofRadians x.acos)

def atan (mode : AngleMode) : Value → Outcome Value := onReal fun x => .ok (mode.ofRadians x.atan)

def acosh : Value → Outcome Value :=
  onReal (whereDefined (fun x => !decide (x < 1)) Binary64.acosh)

def atanh : Value → Outcome Value :=
  onReal (whereDefined (fun x => !decide (1 ≤ x.abs)) Binary64.atanh)

def lnOnePlus : Value → Outcome Value :=
  onReal (whereDefined (fun x => !decide (x ≤ -1)) Binary64.lnOnePlus)

/-- The product of the numbers from one to `n`; beyond one hundred and seventy it is infinite. -/
def factorialOf (n : Nat) : Binary64 :=
  (List.range (min n 171)).foldl (fun product k => product * Binary64.ofNat (k + 1)) 1

def factorial : Value → Outcome Value :=
  onReal (whereDefined (fun x => !decide (x < 0) && x.fractionalPart.equals 0)
    fun x => factorialOf (x.toNatUpTo 0xFFFFFFFFFFFFFFFF))

def gamma : Value → Outcome Value :=
  onReal (whereDefined (fun x => !(decide (x ≤ 0) && x.fractionalPart.equals 0)) Binary64.gamma)

end Value

namespace Binary64

/-- Hours, minutes and seconds written as `H.MMSSss`, in decimal hours. -/
def hoursOfMinutesSeconds (x : Binary64) : Binary64 :=
  let size := x.abs
  let hours := size.truncate
  let minutes := ((size - hours) * 100 + 1e-9).truncate
  let seconds := (size - hours) * 10000 - minutes * 100
  x.signum * (hours + minutes / 60 + seconds / 3600)

/-- Decimal hours, written as `H.MMSSss`. -/
def minutesSecondsOfHours (x : Binary64) : Binary64 :=
  let size := x.abs
  let hours := size.truncate
  let allMinutes := (size - hours) * 60
  let minutes := (allMinutes + 1e-9).truncate
  let seconds := (allMinutes - minutes) * 60
  x.signum * (hours + minutes / 100 + seconds / 10000)

end Binary64

end Keystroke
