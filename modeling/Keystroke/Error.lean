/-!
# Errors

Every way in which a command can fail, with its number and its message. Five of the kinds are
signals between the parts of the machine and are never shown. A crash is not an error of the machine:
there is no result at all, and nothing goes on.
-/

namespace Keystroke

/-- Why a command did not complete. -/
inductive ErrorKind where
  | alphaDataIsInvalid
  | insufficientMemory
  | notYetImplemented
  | outOfRange
  | divideByZero
  | invalidType
  | invalidData
  | dimensionError
  | sizeError
  | internalError
  | nonexistent
  | restrictedOperation
  | yes
  | no
  | stop
  | labelNotFound
  | noRealVariables
  | noComplexVariables
  | noMatrixVariables
  | noMenuVariables
  | statMathError
  | invalidForecastModel
  | returnLost
  | singularMatrix
  | solveWithinSolve
  | integrateWithinIntegrate
  | run
  | interrupted
  | printingIsDisabled
  | interruptible
  | noVariables
  | returnStackFull
  | stackDepthError
  | invalidContext
  | nameTooLong
  | programLocked
  | nextProgramLocked
  | tooFewArguments
  /-- What is computed does not exist: a number below zero where only words are, or a byte behind the last
  one. The program that runs the machine ends there. -/
  | crash
deriving DecidableEq, Repr, Inhabited

namespace ErrorKind

/-- Every kind that can be asked for by its number, in the order of the numbers. -/
def all : List ErrorKind :=
  [alphaDataIsInvalid, insufficientMemory, notYetImplemented, outOfRange, divideByZero, invalidType,
   invalidData, dimensionError, sizeError, internalError, nonexistent, restrictedOperation, yes, no,
   stop, labelNotFound, noRealVariables, noComplexVariables, noMatrixVariables, noMenuVariables,
   statMathError, invalidForecastModel, returnLost, singularMatrix, solveWithinSolve,
   integrateWithinIntegrate, run, interrupted, printingIsDisabled, interruptible, noVariables,
   returnStackFull, stackDepthError, invalidContext, nameTooLong, programLocked, nextProgramLocked,
   tooFewArguments]

/-- Kinds are numbered from one. -/
def code (kind : ErrorKind) : Nat := kind.ctorIdx + 1

/-- The kind with a number, if there is one. -/
def ofCode? : Nat → Option ErrorKind
  | 0 => none
  | number + 1 => all[number]?

/-- What travels like an error but is never shown. -/
def isSignal : ErrorKind → Bool
  | yes | no | stop | run | interruptible | crash => true
  | _ => false

/-- Errors that a running solver takes as a failed sample. -/
def isFailedSample : ErrorKind → Bool
  | outOfRange | divideByZero | invalidData | statMathError => true
  | _ => false

/-- The text of a kind; three signals and a crash have none. -/
def text? : ErrorKind → Option String
  | alphaDataIsInvalid => some "Alpha Data Is Invalid"
  | insufficientMemory => some "Insufficient Memory"
  | notYetImplemented => some "Not Yet Implemented"
  | outOfRange => some "Out of Range"
  | divideByZero => some "Divide by 0"
  | invalidType => some "Invalid Type"
  | invalidData => some "Invalid Data"
  | dimensionError => some "Dimension Error"
  | sizeError => some "Size Error"
  | internalError => some "Internal Error"
  | nonexistent => some "Nonexistent"
  | restrictedOperation => some "Restricted Operation"
  | yes => some "Yes"
  | no => some "No"
  | labelNotFound => some "Label Not Found"
  | noRealVariables => some "No Real Variables"
  | noComplexVariables => some "No Complex Variables"
  | noMatrixVariables => some "No Matrix Variables"
  | noMenuVariables => some "No Menu Variables"
  | statMathError => some "Stat Math Error"
  | invalidForecastModel => some "Invalid Forecast Model"
  | returnLost => some "Solve/Integ RTN Lost"
  | singularMatrix => some "Singular Matrix"
  | solveWithinSolve => some "Solve(Solve)"
  | integrateWithinIntegrate => some "Integ(Integ)"
  | interrupted => some "Interrupted"
  | printingIsDisabled => some "Printing Is Disabled"
  | noVariables => some "No Variables"
  | returnStackFull => some "RTN Stack Full"
  | stackDepthError => some "Stack Depth Error"
  | invalidContext => some "Invalid Context"
  | nameTooLong => some "Name Too Long"
  | programLocked => some "Program Locked"
  | nextProgramLocked => some "Next Program Locked"
  | tooFewArguments => some "Too Few Arguments"
  | stop | run | interruptible | crash => none

end ErrorKind

/-- A failure: its kind, and what exactly was wrong where that is worth saying. -/
structure Error where
  kind : ErrorKind
  detail : String
deriving DecidableEq, Repr, Inhabited

namespace Error

/-- An error with nothing to add to its kind. -/
def plain (kind : ErrorKind) : Error := ⟨kind, ""⟩

instance : Coe ErrorKind Error := ⟨plain⟩

/-- The text shown for an error. -/
def message (error : Error) : String :=
  match error.kind.text? with
  | none => s!"Error {error.kind.code}"
  | some text => if error.detail.isEmpty then text else s!"{text}; {error.detail}"

end Error

/-- A result or the error that stood in its way. -/
abbrev Outcome := Except Error

/-- Fail for a reason that needs no further words. -/
def fail {α : Type} (kind : ErrorKind) : Outcome α := .error (.plain kind)

/-- Fail with a detail. -/
def failWith {α : Type} (kind : ErrorKind) (detail : String) : Outcome α := .error ⟨kind, detail⟩

end Keystroke
