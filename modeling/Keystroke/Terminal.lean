import Keystroke.StateFile.Reader
import Keystroke.StateFile.Writer

/-!
# The terminal

What stands on a terminal between two lines: the stack or the current program line, and a prompt that
tells what the machine waits for. A line is a command, a list of keys to press or the word that ends
the conversation. The options say where the machine is kept from one conversation to the next.
-/

namespace Keystroke.Terminal

/-! ## Options -/

/-- How a conversation is held. -/
structure Options where
  /-- The path of the state file. -/
  statePath : String := "rpn.state"
  /-- How many turns the machine works before the terminal looks at what it printed. -/
  turns : Nat := 5000
  /-- Whether the machine is written back at the end. -/
  savesState : Bool := true
deriving DecidableEq, Repr, Inhabited

/-- Why arguments are refused. -/
inductive OptionError where
  | unexpected (argument : String)
  | missingValue (option : String)
  | invalidCount (text : String)
deriving DecidableEq, Repr, Inhabited

/-- The text shown for refused arguments. -/
def OptionError.message : OptionError → String
  | .unexpected argument => s!"unexpected argument {argument}"
  | .missingValue option => s!"a value is required for {option}"
  | .invalidCount text => s!"not a count of turns: {text}"

/-- What can be given on the command line. -/
def usage : String :=
  "usage: rpn [--state FILE] [--cycles COUNT] [--no-save]"

/-- A natural number written with decimal digits alone. -/
def countOf? (text : String) : Option Nat :=
  let digits := text.toList
  if digits.isEmpty || !digits.all Char.isDigit then none else some (Decimal.digitsValue digits)

/-- Take options from arguments; later ones win. -/
def Options.withArguments (options : Options) : List String → Except OptionError Options
  | [] => .ok options
  | ["--state"] => .error (.missingValue "--state")
  | "--state" :: path :: rest => { options with statePath := path }.withArguments rest
  | ["--cycles"] => .error (.missingValue "--cycles")
  | "--cycles" :: text :: rest =>
    match countOf? text with
    | some turns => { options with turns }.withArguments rest
    | none => .error (.invalidCount text)
  | "--no-save" :: rest => { options with savesState := false }.withArguments rest
  | argument :: _ => .error (.unexpected argument)

/-! ## Lines -/

/-- What a line asks for. -/
inductive Request where
  | quit
  | press (keys : List Key)
  | enter (line : String)
deriving DecidableEq, Inhabited

/-- The number of the last key. -/
def lastKey : Nat := 37

/-- A key by its number, behind an `S` if it is shifted. -/
def keyOf? (word : List Char) : Option Key :=
  let (isShifted, digits) :=
    match word with
    | 'S' :: rest | 's' :: rest => (true, rest)
    | _ => (false, word)
  match countOf? (String.ofList digits) with
  | some code => if 1 ≤ code ∧ code ≤ lastKey then some ⟨isShifted, code.toUInt8⟩ else none
  | none => none

/-- Read a line. A list of keys with one that does not exist is entered as a command. -/
def Request.ofLine (line : String) : Request :=
  match Text.words line.toList with
  | first :: rest =>
    if rest.isEmpty && Machine.isWord first "QUIT" then .quit
    else if Machine.isWord first "KEY" then
      match rest.mapM keyOf? with
      | some keys => .press keys
      | none => .enter line
    else .enter line
  | [] => .enter line

/-- Do what a line asks for; there is no machine left to talk to once it is left. -/
def Request.perform (machine : Machine) : Request → Option Machine
  | .quit => none
  | .press keys => some (keys.foldl (fun machine key => machine.press key) machine)
  | .enter line => some (machine.enter line).2

/-! ## What is shown -/

/-- How many levels of a stack without a fixed size are shown. -/
def shownLevels : Nat := 8

/-- The name of a level of the stack. -/
def levelName (distance : Nat) : String :=
  match distance with
  | 0 => "x"
  | 1 => "y"
  | 2 => "z"
  | 3 => "t"
  | _ => s!"{distance + 1}"

/-- The upper end of the stack, the deepest level first. -/
def stackLines (machine : Machine) : List String :=
  let stack := machine.stack
  let count := if stack.isBig then min stack.depth shownLevels else Stack.fourLevels
  (List.range count).reverse.filterMap fun distance =>
    (stack.get? distance).map fun value =>
      s!"{levelName distance}: {value.shown machine.flags}"

/-- The current line while a program is entered, otherwise the stack. -/
def shownLines (machine : Machine) : Outcome (List String) := do
  if machine.isProgramming then return [← machine.currentLine] else return stackLines machine

/-- What stands in front of the line that is typed. -/
def promptOf (machine : Machine) : String :=
  match machine.pending, machine.entry with
  | some opcode, _ => s!"{opcode.name} _ "
  | none, some entry => s!"{String.ofList entry.text}_ "
  | none, none => if machine.isProgramming then "PRGM> " else "> "

/-- The lines that the machine has printed, the first one first. -/
def printedLines (machine : Machine) : List String :=
  machine.calls.reverse.filterMap fun
    | .printed line => some (Text.ofBytes line)
    | .pixelChanged _ _ | .repainted => none

/-- The text of an error, made to stand out. -/
def emphasized (text : String) : String := "\x1b[1m" ++ text ++ "\x1b[0m"

/-! ## State files -/

/-- The name that state files bear. -/
def platform : String := "rpn-engine 0.1.0"

/-- Take over a machine from the bytes of a state file, and what there is to say about it. -/
def restore (bytes : List UInt8) (generator : Generator) (machine : Machine) :
    Option Error × Machine :=
  match StateFile.versionOf bytes with
  | .error error => (some error, machine)
  | .ok version =>
    match StateFile.load version bytes generator machine with
    | (.loaded, left) => (none, left)
    | (.damaged, left) => (some ⟨.invalidData, "STATE FILE DAMAGED, MEMORY CLEARED"⟩, left)
    | (.tooNew, left) => (some ⟨.invalidData, "STATE FILE FROM A NEWER VERSION"⟩, left)

/-- The error for a state file that cannot be opened or written. -/
def fileError : Error := ⟨.internalError, "STATE FILE I/O"⟩

end Keystroke.Terminal
