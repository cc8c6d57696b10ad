import Keystroke.StateFile.Layout

/-!
# Reading state files

A file is read field by field, in the order in which it was written. Nothing is taken over unless all
of it is sound. Files older than long texts may hold matrix texts longer than they should be; if one is
met, the file is read again from its start with such texts cut.
-/

namespace Keystroke.StateFile

/-- Why a file was not taken over. -/
inductive Damage where
  /-- A matrix text is longer than its layout allows. -/
  | longMatrixText
  | malformed
deriving DecidableEq, Repr, Inhabited

/-- What is still to be read, and what has to be remembered from before. -/
structure Input where
  bytes : List UInt8
  /-- The shared arrays by their indices; one that is being read is not there yet. -/
  shared : Array (Option Value) := #[]
  nextStorage : Nat := 0

/-- Reads something from the input. -/
abbrev Reader := StateT Input (Except Damage)

/-- How a file is read. -/
structure ReaderContext where
  version : Nat
  /-- Whether overlong matrix texts are cut, and not refused. -/
  cutsTexts : Bool

namespace Reader

/-- Refuse the file. -/
def refuse {α : Type} : Reader α := throw .malformed

/-- Refuse the file unless a condition holds. -/
def require (condition : Bool) : Reader Unit := if condition then pure () else refuse

/-- Take a result, refusing the file if there is none. -/
def sound {α : Type} : Outcome α → Reader α
  | .ok value => pure value
  | .error _ => refuse

/-- Take a value, refusing the file if there is none. -/
def present {α : Type} : Option α → Reader α
  | some value => pure value
  | none => refuse

/-! ## Fields -/

def byte : Reader UInt8 := do
  let input ← get
  match input.bytes with
  | [] => refuse
  | byte :: rest =>
    set { input with bytes := rest }
    return byte

/-- So many bytes. -/
def bytes (count : Nat) : Reader (List UInt8) := do
  let input ← get
  let taken := input.bytes.take count
  require (taken.length == count)
  set { input with bytes := input.bytes.drop count }
  return taken

def flag : Reader Bool := do
  match (← byte).toNat with
  | 0 => return false
  | 1 => return true
  | _ => refuse

/-- A word of so many bytes, the highest first. -/
def word (count : Nat) : Reader Nat := do return Codec.wordOf (← bytes count)

/-- A signed number of thirty-two bits. -/
def integer : Reader Int := do return (← word 4 : Int).bmod 0x100000000

def word64 : Reader UInt64 := do return (← word 8).toUInt64

def real : Reader Binary64 := do return ⟨← word64⟩

def complex : Reader ComplexNumber := do return ⟨← real, ← real⟩

/-- A field with a length of one byte. -/
def short : Reader (List UInt8) := do bytes (← byte).toNat

/-- A field with a length of four bytes. -/
def long : Reader (List UInt8) := do bytes (← word 4)

/-- A field with a length of one byte that must be valid text. -/
def shortText : Reader String := do present (Text.ofBytes? (← short))

/-- An address; minus one is the top of a program. -/
def address : Reader (Option Nat) := do
  match ← integer with
  | .ofNat address => return some address
  | .negSucc 0 => return none
  | .negSucc _ => refuse

/-- The same kind of thing several times. -/
def many {α : Type} (read : Reader α) (count : Nat) : Reader (List α) := go count []
where
  go : Nat → List α → Reader (List α)
    | 0, reversed => return reversed.reverse
    | count + 1, reversed => do
      let item ← read
      go count (item :: reversed)

/-- A count and so many things of one kind. -/
def counted {α : Type} (read : Reader α) : Reader (List α) := do many read (← word 4)

/-! ## Values -/

/-- What the count of an array says. -/
inductive ArrayHead where
  /-- The contents follow, for an array that is shared or not. -/
  | contents (count : Nat) (isShared : Bool)
  /-- The array was read before. -/
  | earlier (index : Nat)
  | emptyList

/-- The count of an array. -/
def arrayHead (version : Nat) : Reader ArrayHead := do
  let count ← integer
  if !holdsSharing version then
    require (0 ≤ count)
    return .contents count.toNat false
  else if count = 0 then
    let index ← word 4
    return if index = emptyListMark then .emptyList else .earlier index
  else if 0 < count then return .contents count.toNat false
  else
    require (-0x80000000 < count)
    return .contents count.natAbs true

/-- An array that was read before, which must be of the expected kind. -/
def earlierArray (index typeCode : Nat) : Reader Value := do
  match (← get).shared[index]? with
  | some (some value) => if value.typeCode = typeCode then return value else refuse
  | _ => refuse

/-- Take the next index, if the array is shared. -/
def reserve (isShared : Bool) : Reader Nat := do
  let input ← get
  if isShared then set { input with shared := input.shared.push none }
  return input.shared.size

/-- Give a new array its storage and, if it is shared, put it at its index. -/
def finish (isShared : Bool) (index : Nat) (value : Value) : Reader Value := do
  let input ← get
  let value := value.storedAt (some input.nextStorage)
  set { input with
    nextStorage := input.nextStorage + 1
    shared := if isShared then input.shared.setIfInBounds index (some value) else input.shared }
  return value

/-- An element of a real matrix in a layout that holds long texts. -/
def longCell : Reader Cell := do
  let code ← byte
  if code = numberCell then return .number (← real)
  else if code = shortTextCell then
    let text ← short
    require (text.length ≤ shortTextLength)
    return .text text
  else if code = longTextCell then
    let text ← long
    require (text.length ≤ Value.maximalTextLength)
    return .text text
  else refuse

/-- An element of a real matrix in an older layout. -/
def oldCell (cutsTexts : Bool) : Reader Cell := do
  if ← flag then
    let length := (← byte).toNat
    if shortTextLength < length ∧ !cutsTexts then throw .longMatrixText
    return .text ((← bytes length).take shortTextLength)
  else return .number (← real)

/-- An element of a real matrix. -/
def cell (context : ReaderContext) : Reader Cell :=
  if holdsLongTexts context.version then longCell else oldCell context.cutsTexts

/-- A text value. -/
def text (version : Nat) : Reader Value := do
  sound (Value.ofText (← if holdsLongTexts version then long else short))

/-- The elements of a matrix with so many rows, behind the count of columns. -/
def grid {α : Type} (element : Reader α) (rows : Nat) : Reader (Grid α) := do
  let cols ← integer
  require (0 < cols)
  let cells ← many element (rows * cols.toNat)
  sound (Grid.ofCells rows cols.toNat cells.toArray)

/-- An array with the given kind, whose contents are read by a function of the count. -/
def array (version typeCode : Nat) (whenEmpty : Reader Value) (contents : Nat → Reader Value) :
    Reader Value := do
  match ← arrayHead version with
  | .earlier index => earlierArray index typeCode
  | .emptyList => whenEmpty
  | .contents count isShared =>
    let index ← reserve isShared
    finish isShared index (← contents count)

/-- A value in which arrays are nested less than `depth` deep. -/
def valueWithin (context : ReaderContext) : Nat → Reader Value
  | 0 => refuse
  | depth + 1 => do
    let typeCode := (← byte).toNat
    match typeCode with
    | 0 => return .null
    | 1 => return .real (← real)
    | 2 => return .complex (← complex)
    | 3 => array context.version typeCode refuse fun rows => do
      return .newRealMatrix (← grid (cell context) rows)
    | 4 => array context.version typeCode refuse fun rows => do
      return .newComplexMatrix (← grid complex rows)
    | 5 => text context.version
    | 6 =>
      if holdsLevels context.version then
        array context.version typeCode (finish false 0 (.list none [])) fun count => do
          return .list none (← many (valueWithin context depth) count)
      else refuse
    | _ => refuse

/-- A value; arrays cannot be nested deeper than there are bytes. -/
def value (context : ReaderContext) : Reader Value := do
  valueWithin context ((← get).bytes.length + 1)

/-! ## The parts of a machine -/

/-- Something behind a flag that says whether it is there. -/
def optional {α : Type} (read : Reader α) : Reader (Option α) := do
  if ← flag then return some (← read) else return none

/-- Unfinished work. -/
def task : Reader (Option Task) := do
  let code ← byte
  if code = noTask then return none
  else if code = awaitingKeyTask then return some .awaitingKey
  else if code = printingTask then return some (.printingCatalog (← word 4))
  else refuse

/-- A pending command. -/
def pending : Reader (Option Opcode) := do
  let code ← word 2
  if code = noPending then return none else return some (← present (Opcode.ofCode? code))

/-- A name of a variable. -/
def name : Reader (List UInt8) := do
  let name ← short
  sound (Variable.checkName name)
  return name

/-- The matrix editor. -/
def editor (version : Nat) : Reader Editor := do
  let isEditing ← flag
  let name ← name
  let level ← integer
  let row ← word 4
  let col ← word 4
  let path ← if holdsLevels version then counted (word 4) else pure []
  return { isEditing, name, level, row, col, path }

/-- The question of a program. -/
def prompt : Reader Prompt := do
  let instruction ← long
  require (Codec.length? instruction 0 == some instruction.length)
  let decoded := (Codec.decode instruction 0).instruction
  require (decoded.opcode == .input)
  return ⟨decoded.argument, ← shortText⟩

/-- The generator. -/
def generator (version : Nat) : Reader Generator := do
  if holdsGenerator version then return ⟨← word64, ← word64⟩ else return .ofSeed (← real)

/-- A key. -/
def key : Reader Key := do return ⟨← flag, ← byte⟩

/-- The waiting keys. -/
def keys : Reader KeyQueue := do
  let keys ← many key (← byte).toNat
  require (keys.length ≤ KeyQueue.capacity)
  return ⟨keys⟩

/-- The stack. -/
def stack (context : ReaderContext) : Reader Stack := do
  let isBig ← if holdsSharing context.version then flag else pure false
  let depth ← word 4
  require (isBig || depth == Stack.fourLevels)
  return .ofValues isBig (← many (value context) depth).reverse

/-- The text register. -/
def alpha : Reader (List UInt8) := do
  let alpha ← short
  require (alpha.length ≤ Machine.maximalAlphaLength)
  return alpha

/-- The flags. -/
def flags : Reader Flags := do sound (Flags.ofList (← many flag (← byte).toNat))

/-- A variable. -/
def variableEntry (context : ReaderContext) : Reader Variable := do
  let name ← name
  let (level, marks) ←
    if holdsLevels context.version then pure (← integer, ← byte)
    else pure (Variable.globalLevel, 0)
  return { name, level, marks, value := ← value context }

/-- A program. -/
def program : Reader Program := do
  let text ← long
  let bits ← byte
  sound (Program.ofBytes text (bits &&& cachesEmptyBit != 0) (bits &&& lockedBit != 0))

/-- Whether a place is in a program: at its top, or at an address up to its end. -/
def isPlace (library : Library) (program : Nat) (address : Option Nat) : Bool :=
  match library.get? program, address with
  | none, _ => false
  | some _, none => true
  | some program, some address => address ≤ program.endAddress

/-- A return frame. -/
def frame (version : Nat) (library : Library) : Reader Frame := do
  let caller ← present (Caller.ofCode? (← integer))
  let address ← address
  match caller with
  | .program index => require (isPlace library index address)
  | .solver | .integrator => pure ()
  let plain : Frame := { caller, address }
  if holdsLevels version then return plain.withBits (← byte) else return plain

/-- The return stack. -/
def returns (version : Nat) (library : Library) : Reader Returns := do
  let frames ← counted (frame version library)
  sound (frames.foldlM BoundedStack.push Returns.initial)

/-- The solver. -/
def solver : Reader Solver := do
  return {
    chosenFunction := ← short
    function := ← short
    variableName := ← short
    keepsRunning := ← flag
    program := ← word 4
    address := ← address
    stage := ← byte
    sampled := ← byte
    alternates := ← flag
    patience := ← integer
    retryGuess := ← real
    lower := ← real
    upper := ← real
    probe := ← real
    lowerResult := ← real
    upperResult := ← real
    previousPoint := ← real
    currentPoint := ← real
    currentResult := ← real
    middle := ← real
    middleResult := ← real }

/-- So many numbers. -/
def reals (count : Nat) : Reader (Vector Binary64 count) := do
  let numbers := (← many real count).toArray
  if size : numbers.size = count then return ⟨numbers, size⟩ else refuse

/-- The integrator. -/
def integrator : Reader Integrator := do
  return {
    chosenFunction := ← short
    function := ← short
    variableName := ← short
    keepsRunning := ← flag
    program := ← word 4
    address := ← address
    stage := ← byte
    lowerLimit := ← real
    upperLimit := ← real
    accuracy := ← real
    origin := ← real
    width := ← real
    difference := ← real
    pass := ← word 4
    taken := ← word 4
    filled := ← word 4
    stepSize := ← real
    sum := ← real
    column := ← reals 5
    table := ← reals 6
    wanted := ← word 4
    parameter := ← real
    weight := ← real
    sampled := ← real
    integral := ← real
    previousResult := ← real }

/-- The magic bytes and the expected version. -/
def signature (version : Nat) : Reader Unit := do
  require ((← bytes 4) == magic)
  require ((← word 4) == version)

/-- The name of the platform, which is skipped. -/
def platform : Nat → Reader Unit
  | 0 => do require ((← byte) == 0)
  | limit + 1 => do if (← byte) ≠ 0 then platform limit

/-- Everything between the signatures. -/
def body (context : ReaderContext) : Reader Machine := do
  let version := context.version
  let mode ← byte
  let task ← task
  let entry ← optional shortText
  let pending ← pending
  let pendingDigits ← shortText
  let editor ← optional (editor version)
  let prompt ← optional prompt
  let lastError ← word 2
  let generator ← generator version
  let printsOnStop ← flag
  let keys ← keys
  let display ← sound (Display.ofBytes (← bytes Display.blank.toList.length))
  let program ← word 4
  let address ← address
  let stack ← stack context
  let lastX ← value context
  let alpha ← alpha
  let flags ← flags
  let bindings ← sound (Variables.ofList (← counted (variableEntry context)))
  let library ← sound (Library.ofList (← counted Reader.program))
  require (isPlace library program address)
  let returns ← returns version library
  let solver ← solver
  let integrator ← integrator
  return {
    program, address, stack, lastX, alpha, bindings, library, returns, flags
    isRunning := mode &&& runningBit != 0
    isProgramming := mode &&& programmingBit != 0
    entry := entry.map fun text => ⟨text.toList⟩
    pending
    pendingDigits := pendingDigits.toList
    editor, prompt, lastError, generator, printsOnStop, keys, display, solver, integrator, task
    nextStorage := (← get).nextStorage }

/-- A whole file. -/
def file (context : ReaderContext) : Reader Machine := do
  signature context.version
  require (oldestVersion ≤ context.version)
  platform maximalPlatformLength
  require ((← byte) == binaryNumbers)
  let machine ← body context
  signature context.version
  return machine.checkEditor

end Reader

/-- Read a machine from a file in a layout. -/
def read? (version : Nat) (bytes : List UInt8) : Option Machine :=
  match (Reader.file ⟨version, false⟩).run { bytes } with
  | .ok (machine, _) => some machine
  | .error .longMatrixText =>
    ((Reader.file ⟨version, true⟩).run { bytes }).toOption.map Prod.fst
  | .error .malformed => none

/-- The version that the start of a file gives. -/
def versionOf (bytes : List UInt8) : Outcome Nat :=
  if bytes.length < 8 then failWith .invalidData "TRUNCATED STATE FILE"
  else if bytes.take 4 ≠ magic then failWith .invalidData "NOT A STATE FILE"
  else .ok (Codec.wordOf ((bytes.drop 4).take 4))

/-- What became of a file. -/
inductive LoadOutcome where
  | loaded
  /-- The file was damaged, and the machine is new. -/
  | damaged
  /-- The file has a layout from the future, and nothing was changed. -/
  | tooNew
deriving DecidableEq, Repr, Inhabited

/-- Replace a machine by the one in a file. If the file is damaged the machine is made new, with the
given generator. The host keeps what it was told. -/
def load (version : Nat) (bytes : List UInt8) (generator : Generator) (machine : Machine) :
    LoadOutcome × Machine :=
  if currentVersion < version then (.tooNew, machine)
  else
    match read? version bytes with
    | some read => (.loaded, { read with calls := .repainted :: machine.calls, memory := machine.memory })
    | none => (.damaged, machine.reset generator)

end Keystroke.StateFile
