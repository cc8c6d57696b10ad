import Keystroke.StateFile.Layout

/-!
# Writing state files

Fields follow one another without marks between them; numbers have their highest byte first. In the
newest layout an array that several places hold is written once: at its first place its count is
negative and it gets the next index, and elsewhere a zero count is followed by that index. An index is
taken before the contents are written, as they may hold shared arrays themselves.
-/

namespace Keystroke.StateFile

abbrev Bytes := List UInt8

/-! ## Fields -/

def flagField (condition : Bool) : Bytes := [if condition then 1 else 0]

def word16Field (word : Nat) : Bytes := Codec.wordBytes 2 word

def word32Field (word : Nat) : Bytes := Codec.wordBytes 4 word

def word64Field (word : UInt64) : Bytes := Codec.wordBytes 8 word.toNat

/-- A signed number of thirty-two bits. -/
def integerField (integer : Int) : Bytes := word32Field (integer % 0x100000000).toNat

def realField (x : Binary64) : Bytes := word64Field x.bits

/-- A count; one that does not fit into thirty-two bits is refused. -/
def countField (count : Nat) : Outcome Bytes :=
  if count < 0x100000000 then .ok (word32Field count) else fail .insufficientMemory

/-- A field with a length of one byte. -/
def shortField (bytes : Bytes) : Outcome Bytes :=
  if bytes.length ≤ maximalShortLength then .ok (bytes.length.toUInt8 :: bytes)
  else failWith .invalidData "FIELD TOO LONG"

/-- A field with a length of four bytes. -/
def longField (bytes : Bytes) : Outcome Bytes := return (← countField bytes.length) ++ bytes

/-- A text value: older layouts hold its start only. -/
def textField (version : Nat) (bytes : Bytes) : Outcome Bytes :=
  if holdsLongTexts version then longField bytes else shortField (bytes.take maximalShortLength)

/-- An address; minus one is the top of a program. -/
def addressField : Option Nat → Outcome Bytes
  | none => .ok (integerField (-1))
  | some address =>
    if address < 0x80000000 then .ok (word32Field address) else failWith .internalError "PC"

/-- Fields one after the other. -/
def fields (parts : List (Outcome Bytes)) : Outcome Bytes := return (← parts.mapM id).flatten

/-- A field behind a flag that says whether it is there. -/
def optionalField {α : Type} (field : α → Outcome Bytes) : Option α → Outcome Bytes
  | none => .ok (flagField false)
  | some value => return flagField true ++ (← field value)

/-! ## Arrays -/

mutual

/-- Count a value among the holders of its storage, behind those counted before. What a list holds
counts once however many places hold the list. -/
def holdersOf (counted : List Nat) : Value → List Nat
  | .realMatrix (some storage) _ | .complexMatrix (some storage) _ => storage :: counted
  | .list (some storage) items =>
    if counted.contains storage then storage :: counted
    else holdersOfAll (storage :: counted) items
  | .list none items => holdersOfAll counted items
  | _ => counted

/-- Count a list of values among the holders of their storage. -/
def holdersOfAll (counted : List Nat) : List Value → List Nat
  | [] => counted
  | value :: rest => holdersOfAll (holdersOf counted value) rest

end

/-- The values that a machine holds, in the order in which the newest layout holds them. -/
def heldValues (machine : Machine) : List Value :=
  machine.stack.values.reverse ++ machine.lastX :: machine.bindings.entries.map Variable.value

/-- The storages that several places hold. -/
def sharedStorages (machine : Machine) : List Nat :=
  let counted := holdersOfAll [] (heldValues machine)
  counted.filter fun storage => 1 < counted.count storage

/-- What writing values depends on. -/
structure WriterContext where
  version : Nat
  /-- The storages that several places hold. -/
  shared : List Nat

/-- Writes values, remembering the shared storages written so far in the order of their indices. -/
abbrev Writer := StateT (List Nat) Outcome

/-- The count in front of an array, and whether its contents follow. -/
def arrayHead (context : WriterContext) (storage : Storage) (count : Nat) :
    Writer (Bytes × Bool) := do
  if 0x80000000 ≤ count then fail .insufficientMemory
  if !holdsSharing context.version then return (word32Field count, true)
  if count = 0 then return (word32Field 0 ++ word32Field emptyListMark, false)
  match storage.filter context.shared.contains with
  | none => return (word32Field count, true)
  | some storage =>
    let written ← get
    match written.idxOf? storage with
    | some index => return (word32Field 0 ++ word32Field index, false)
    | none =>
      set (written ++ [storage])
      return (integerField (-(count : Int)), true)

/-- An element of a real matrix. -/
def cellField (version : Nat) : Cell → Outcome Bytes
  | .number x => .ok (numberCell :: realField x)
  | .text bytes => do
    if !holdsLongTexts version then
      return shortTextCell :: (← shortField (bytes.take shortTextLength))
    else if bytes.length ≤ shortTextLength then return shortTextCell :: (← shortField bytes)
    else return longTextCell :: (← longField bytes)

/-- The contents of a matrix, behind its count of columns. -/
def gridField {α : Type} (element : α → Outcome Bytes) (grid : Grid α) : Outcome Bytes := do
  return word32Field grid.cols ++ (← grid.cells.toList.mapM element).flatten

/-- An array: its kind, its count, and its contents if they follow. -/
def arrayField (context : WriterContext) (value : Value) (count : Nat) (contents : Writer Bytes) :
    Writer Bytes := do
  let (head, follows) ← arrayHead context value.storage count
  let contents ← if follows then contents else pure []
  return value.typeCode.toUInt8 :: head ++ contents

mutual

/-- A value. -/
def valueField (context : WriterContext) : Value → Writer Bytes
  | .null => return [0]
  | .real x => return 1 :: realField x
  | .complex z => return 2 :: realField z.re ++ realField z.im
  | .text bytes => do return 5 :: (← textField context.version bytes)
  | .realMatrix storage grid =>
    arrayField context (.realMatrix storage grid) grid.rows
      (gridField (cellField context.version) grid)
  | .complexMatrix storage grid =>
    arrayField context (.complexMatrix storage grid) grid.rows
      (gridField (fun z => .ok (realField z.re ++ realField z.im)) grid)
  | .list storage items =>
    if holdsLevels context.version then
      arrayField context (.list storage items) items.length (valueFields context items)
    else failWith .invalidType "LIST IN OLD LAYOUT"

/-- Values one after the other. -/
def valueFields (context : WriterContext) : List Value → Writer Bytes
  | [] => return []
  | value :: rest => do
    let first ← valueField context value
    return first ++ (← valueFields context rest)

end

/-! ## The parts of a machine -/

/-- Unfinished work. -/
def taskField : Option Task → Outcome Bytes
  | none => .ok [noTask]
  | some .awaitingKey => .ok [awaitingKeyTask]
  | some (.printingCatalog next) => return printingTask :: (← countField next)

/-- A text that must be short. -/
def shortTextField (text : String) : Outcome Bytes := shortField (Text.toBytes text)

/-- What the machine is doing, and what is being typed. -/
def inputFields (machine : Machine) : Outcome Bytes :=
  fields [
    .ok [bits machine.isRunning machine.isProgramming],
    taskField machine.task,
    optionalField shortTextField (machine.entry.map fun entry => String.ofList entry.text),
    .ok (word16Field ((machine.pending.map Opcode.code).getD noPending)),
    shortTextField (String.ofList machine.pendingDigits)]

/-- The matrix editor; older layouts hold no path. -/
def editorFields (version : Nat) (editor : Editor) : Outcome Bytes :=
  fields [
    .ok (flagField editor.isEditing),
    shortField editor.name,
    .ok (integerField editor.level),
    countField editor.row,
    countField editor.col,
    if holdsLevels version then fields (countField editor.path.length :: editor.path.map countField)
    else .ok []]

/-- The question of a program. -/
def promptFields (prompt : Prompt) : Outcome Bytes := do
  let instruction ← Codec.encode ⟨.input, prompt.argument⟩
  fields [longField instruction, shortTextField prompt.label]

/-- The generator; older layouts hold the random number that its second word stands for. -/
def generatorField (version : Nat) (generator : Generator) : Bytes :=
  if holdsGenerator version then word64Field generator.first ++ word64Field generator.second
  else realField (Generator.fraction generator.second)

/-- The last error, the generator, printing, the waiting keys and the display. -/
def deviceFields (version : Nat) (machine : Machine) : Bytes :=
  word16Field machine.lastError ++ generatorField version machine.generator ++
    flagField machine.printsOnStop ++
    machine.keys.keys.length.toUInt8 ::
      machine.keys.keys.flatMap (fun key => flagField key.isShifted ++ [key.code]) ++
    machine.display.toList

/-- The values of the stack, X first, as a layout holds them: an older one holds four levels. -/
def heldLevels (version : Nat) (stack : Stack) : List Value :=
  if holdsSharing version then stack.values else Stack.fitFour stack.values

/-- The variables that a layout holds: one without levels has no place for private ones. -/
def heldVariables (version : Nat) (bindings : Variables) : List Variable :=
  if holdsLevels version then bindings.entries
  else bindings.entries.filter fun entry => !entry.has Variable.privateMark

/-- A variable; older layouts hold no levels and marks. -/
def variableField (context : WriterContext) (entry : Variable) : Writer Bytes := do
  let name ← shortField entry.name
  let place := if holdsLevels context.version then integerField entry.level ++ [entry.marks] else []
  return name ++ place ++ (← valueField context entry.value)

/-- Everything that holds values. -/
def valuesFields (context : WriterContext) (machine : Machine) : Writer Bytes := do
  let version := context.version
  let levels := heldLevels version machine.stack
  let mode := if holdsSharing version then flagField machine.stack.isBig else []
  let depth ← countField levels.length
  let stack ← valueFields context levels.reverse
  let lastX ← valueField context machine.lastX
  let alpha ← shortField machine.alpha
  let flags := machine.flags.toList.length.toUInt8 :: machine.flags.toList.flatMap flagField
  let bindings := heldVariables version machine.bindings
  let count ← countField bindings.length
  let entries ← bindings.mapM (variableField context)
  return mode ++ depth ++ stack ++ lastX ++ alpha ++ flags ++ count ++ entries.flatten

/-- A program: its bytes and its two properties. -/
def programField (program : Program) : Outcome Bytes := do
  return (← longField program.text) ++ [bits program.isLocked program.cachesEmpty]

/-- A return frame; older layouts hold no properties of frames. -/
def frameField (version : Nat) (frame : Frame) : Outcome Bytes := do
  return integerField frame.caller.code ++ (← addressField frame.address) ++
    if holdsLevels version then [frame.bits] else []

/-- The programs, and the return stack from its bottom. -/
def programFields (version : Nat) (machine : Machine) : Outcome Bytes :=
  fields <|
    countField machine.library.count :: machine.library.programs.map programField ++
      countField machine.returns.depth :: machine.returns.items.reverse.map (frameField version)

/-- The solver. -/
def solverFields (solver : Solver) : Outcome Bytes :=
  fields [
    shortField solver.chosenFunction,
    shortField solver.function,
    shortField solver.variableName,
    .ok (flagField solver.keepsRunning),
    countField solver.program,
    addressField solver.address,
    .ok ([solver.stage, solver.sampled] ++ flagField solver.alternates ++
      integerField solver.patience ++
      [solver.retryGuess, solver.lower, solver.upper, solver.probe, solver.lowerResult,
        solver.upperResult, solver.previousPoint, solver.currentPoint, solver.currentResult,
        solver.middle, solver.middleResult].flatMap realField)]

/-- The integrator. -/
def integratorFields (integrator : Integrator) : Outcome Bytes :=
  fields [
    shortField integrator.chosenFunction,
    shortField integrator.function,
    shortField integrator.variableName,
    .ok (flagField integrator.keepsRunning),
    countField integrator.program,
    addressField integrator.address,
    .ok (integrator.stage ::
      [integrator.lowerLimit, integrator.upperLimit, integrator.accuracy, integrator.origin,
        integrator.width, integrator.difference].flatMap realField),
    countField integrator.pass,
    countField integrator.taken,
    countField integrator.filled,
    .ok (([integrator.stepSize, integrator.sum] ++ integrator.column.toList ++
      integrator.table.toList).flatMap realField),
    countField integrator.wanted,
    .ok ([integrator.parameter, integrator.weight, integrator.sampled, integrator.integral,
      integrator.previousResult].flatMap realField)]

/-- The magic bytes and the version, which stand at both ends of a file. -/
def signature (version : Nat) : Bytes := magic ++ word32Field version

/-- The name of the platform, ended by a zero. -/
def platformField (platform : String) : Bytes :=
  (Text.toBytes platform).map (fun byte => if byte = 0 then 32 else byte) ++ [0]

/-- Write a machine in a layout. What the layout cannot hold is dropped or refused. -/
def write (version : Nat) (platform : String) (machine : Machine) : Outcome Bytes := do
  if version < oldestVersion ∨ currentVersion < version then
    failWith .invalidData "NO SUCH STATE VERSION"
  let context : WriterContext := ⟨version, sharedStorages machine⟩
  let input ← fields [inputFields machine, optionalField (editorFields version) machine.editor,
    optionalField promptFields machine.prompt]
  let place ← fields [countField machine.program, addressField machine.address]
  let (values, _) ← (valuesFields context machine).run []
  let rest ← fields [programFields version machine, solverFields machine.solver,
    integratorFields machine.integrator]
  return signature version ++ platformField platform ++ [binaryNumbers] ++ input ++
    deviceFields version machine ++ place ++ values ++ rest ++ signature version

end Keystroke.StateFile
