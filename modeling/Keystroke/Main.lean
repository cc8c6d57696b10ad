import Keystroke.Terminal

/-!
# The program

A conversation with a calculator on the terminal: everything that reads, prints or touches files.
-/

namespace Keystroke.Terminal

/-- Say that something failed. -/
def report (error : Error) : IO Unit := IO.eprintln (emphasized error.message)

/-- Ask for a line; there is none at the end of the input. -/
def ask (question : String) : IO (Option String) := do
  let output ← IO.getStdout
  output.putStr question
  output.flush
  let line ← (← IO.getStdin).getLine
  return if line.isEmpty then none else some line

/-- A generator that nobody can guess. -/
def randomGenerator : IO Generator := do
  let bytes ← IO.getRandomBytes 16
  let word (part : List UInt8) : UInt64 := (Codec.wordOf part).toUInt64
  return ⟨word (bytes.toList.take 8), word (bytes.toList.drop 8)⟩

/-- The machine from the state file, or a new one. -/
def openMachine (options : Options) : IO Machine := do
  let generator ← randomGenerator
  let machine := Machine.initial generator
  match ← (IO.FS.readBinFile options.statePath).toBaseIO with
  | .ok bytes =>
    let (error?, machine) := restore bytes.toList generator machine
    if let some error := error? then report error
    return machine
  | .error (.noFileOrDirectory ..) => return machine
  | .error _ =>
    report fileError
    return machine

/-- Write the machine to the state file. -/
def closeMachine (options : Options) (machine : Machine) : IO Unit := do
  match StateFile.write StateFile.currentVersion platform machine with
  | .error error => report error
  | .ok bytes =>
    try IO.FS.writeBinFile options.statePath ⟨bytes.toArray⟩
    catch _ => report fileError

/-- The end of a conversation with a machine that crashes. -/
def crashed : IO.Error := IO.userError "the calculator has crashed"

/-- Let the machine work, show what it says, and enter the lines that are typed, to the last. -/
partial def converse (options : Options) (machine : Machine) : IO Machine := do
  let (event, worked) := ({ machine with drawn := ← randomGenerator } : Machine).execute options.turns
  if worked.hasCrashed then throw crashed
  (printedLines worked).forM fun line => IO.println line
  let quiet := { worked with calls := [] }
  match event with
  | .running => converse options quiet
  | .errors errors =>
    errors.forM fun error => IO.println (emphasized error.message)
    converse options quiet
  | .message text =>
    IO.println text
    converse options quiet
  | .input question =>
    match ← ask s!"{question}? " with
    | none => return quiet
    | some line => converse options (quiet.enter line).2
  | .stopped =>
    match shownLines quiet with
    | .ok lines => lines.forM fun line => IO.println line
    | .error _ => throw crashed
    match ← ask (promptOf quiet) with
    | none => return quiet
    | some line =>
      match (Request.ofLine line).perform quiet with
      | none => return quiet
      | some next => converse options next

end Keystroke.Terminal

open Keystroke.Terminal in
/-- Hold a conversation. -/
def main (arguments : List String) : IO UInt32 := do
  match Options.withArguments {} arguments with
  | .error error =>
    IO.eprintln error.message
    IO.eprintln usage
    return 2
  | .ok options =>
    let machine ← converse options (← openMachine options)
    if options.savesState then closeMachine options machine
    return 0
