import Keystroke.Program

/-!
# The program library

All programs of a machine, at least one, with a table of the labels that are found from everywhere.
The table lists the global labels and the ends of all programs in their order. Edits that move bytes
shift it; edits that add or remove a label or an end build it anew.
-/

namespace Keystroke

/-- An entry of the label table: a global label, or without a name the end of a program. -/
structure Label where
  name : Option (List UInt8)
  program : Nat
  address : Nat
deriving DecidableEq, Inhabited

/-- The programs of a machine and their labels. -/
structure Library where
  programs : List Program
  labels : List Label
deriving DecidableEq, Inhabited

namespace Library

/-- The label table entry for a line, if it has one. -/
def labelOfLine? (program : Nat) (line : Nat × Codec.Decoded) : Option Label :=
  let instruction := line.2.instruction
  if instruction.isGlobalLabel then
    instruction.argument.text?.map fun name => ⟨some name, program, line.1⟩
  else if instruction.isEnd then some ⟨none, program, line.1⟩
  else none

/-- The label table of programs, numbered from `first` on. -/
def labelsFrom : Nat → List Program → List Label
  | _, [] => []
  | first, program :: rest =>
    program.lines.filterMap (labelOfLine? first) ++ labelsFrom (first + 1) rest

/-- Programs with their label table. -/
def ofPrograms (programs : List Program) : Library := ⟨programs, labelsFrom 0 programs⟩

/-- One empty program. -/
def initial : Library := ofPrograms [.empty]

/-- Programs of unknown origin, of which there must be one. -/
def ofList (programs : List Program) : Outcome Library :=
  if programs.isEmpty then failWith .invalidData "NO PROGRAMS" else .ok (ofPrograms programs)

def count (library : Library) : Nat := library.programs.length

def get? (library : Library) (program : Nat) : Option Program := library.programs[program]?

/-- Build the label table anew. -/
def rebuild (library : Library) : Library := ofPrograms library.programs

/-- Replace a program without touching the label table. -/
def set (library : Library) (index : Nat) (program : Program) : Library :=
  { library with programs := library.programs.set index program }

/-- The words that an address can be, one more than the largest. -/
def addressSpace : Int := 0x10000000000000000

/-- Where an address of a program of some size is moved to. One that leaves the program in front of its
start, or was outside of it before, wraps around like a word. -/
def movedAddress (size address : Nat) (distance : Int) : Nat :=
  let moved := (address : Int) + distance
  if address ≤ size ∧ 0 ≤ moved then moved.toNat else (moved % addressSpace).toNat

/-- Move the labels of a program that are at or behind an address. -/
def shiftLabels (library : Library) (program : Nat) (address : Nat) (distance : Int) :
    Library :=
  let size := ((library.get? program).map Program.size).getD 0
  { library with
    labels := library.labels.map fun label =>
      if label.program = program ∧ address ≤ label.address then
        { label with address := movedAddress size label.address distance }
      else label }

/-- Where a global label is; of several with one name the last counts. -/
def findGlobal? (library : Library) (name : List UInt8) : Option (Nat × Nat) :=
  (library.labels.reverse.find? fun label => label.name == some name).map fun label =>
    (label.program, label.address)

/-- The first global label of a program, by which the program is called. -/
def firstLabel? (library : Library) (program : Nat) : Option (List UInt8) :=
  (library.labels.find? fun label => label.program == program && label.name.isSome).bind (·.name)

/-- The program at an index, which must exist. -/
def existing (library : Library) (index : Nat) : Outcome Program :=
  match library.get? index with
  | some program => .ok program
  | none => fail .nonexistent

/-- Lock or unlock a program. -/
def setLocked (library : Library) (index : Nat) (isLocked : Bool) : Library :=
  { library with
    programs := library.programs.modify index fun program => { program with isLocked } }

/-- Cut a program in two: an end is put at the address, and what follows becomes the next program. -/
def split (library : Library) (index : Nat) (program : Program) (address : Nat)
    (ending : List UInt8) : Library :=
  let head : Program := { program with text := program.text.take address ++ ending }
  let tail : Program := (⟨program.text.drop address, false, false⟩ : Program).emptyCaches
  ofPrograms (library.programs.take index ++ head :: tail :: library.programs.drop (index + 1))

/-- Insert an instruction at an address. An end cuts the program in two. -/
def insert (library : Library) (index : Nat) (address : Nat) (instruction : Instruction) :
    Outcome Library := do
  let bytes ← Codec.encode instruction
  let program ← library.existing index
  if program.isLocked then fail .programLocked
  else if program.endAddress < address then failWith .internalError "INSERT PAST END"
  else
    let program := program.emptyCaches
    if instruction.isEnd then return library.split index program address bytes
    else
      let edited := program.insertBytes address bytes
      return if instruction.isGlobalLabel then (library.set index edited).rebuild
        else (library.shiftLabels index address bytes.length).set index edited

/-- Join a program, cut off at an address, with the next one. -/
def join (library : Library) (index : Nat) (program next : Program) (address : Nat) :
    Library :=
  let joined : Program :=
    { program with text := program.text.take address ++ next.text, cachesEmpty := false }
  ofPrograms (library.programs.take index ++ joined.emptyCaches :: library.programs.drop (index + 2))

/-- Delete the instruction at an address. Deleting an end joins the next program; the end of the
last program stays, and then the answer is `false`. -/
def delete (library : Library) (index : Nat) (address : Nat) : Outcome (Bool × Library) := do
  let program ← library.existing index
  if program.size ≤ address then failWith .internalError "DELETE PAST END"
  else
    let decoded ← program.read address
    if decoded.instruction.isEnd then
      match library.get? (index + 1) with
      | none => return (false, library)
      | some next =>
        if program.isLocked then fail .programLocked
        else if next.isLocked then fail .nextProgramLocked
        else return (true, library.join index program.emptyCaches next address)
    else if program.isLocked then fail .programLocked
    else
      let edited := program.emptyCaches.removeBytes address decoded.length
      return (true,
        if decoded.instruction.isGlobalLabel then (library.set index edited).rebuild
        else (library.shiftLabels index address (-(decoded.length : Int))).set index edited)

/-- Remove a program. An empty one takes its place if it was the only one, or if it was the last and
the one before is not empty. -/
def clear (library : Library) (index : Nat) : Outcome Library := do
  let program ← library.existing index
  if program.isLocked then fail .programLocked
  else
    let rest := library.programs.eraseIdx index
    let lastIsEmpty := (rest.getLast?.map Program.isEmpty).getD false
    if rest.isEmpty || (index = rest.length && !lastIsEmpty) then
      return ofPrograms (rest ++ [.empty])
    else return ofPrograms rest

/-- Make sure that the last program is empty; also gives its index. -/
def openNew (library : Library) : Outcome (Nat × Library) := do
  let index := library.count - 1
  let last ← library.existing index
  if last.isEmpty then return (index, library)
  else
    let extended ← library.insert index last.endAddress (.plain .endOfProgram)
    return (extended.count - 1, extended)

/-- Read an instruction for execution, remembering a jump target that had to be looked up. -/
def fetch (library : Library) (index : Nat) (address : Nat) (wantTarget : Bool) :
    Outcome (Program.Fetched × Library) :=
  match library.get? index with
  | none => failWith .internalError "NO SUCH PROGRAM"
  | some program => do
    let (fetched, program) ← program.fetch address wantTarget
    return (fetched, library.set index program)

/-- The text of a line; the end of the last program stands between points. -/
def lineText (isLast : Bool) (instruction : Instruction) : String :=
  if instruction.isEnd && isLast then ".END." else instruction.listing

/-- The listing of a program: its size, then its lines by their numbers. -/
def listing (library : Library) (index : Nat) : List String :=
  match library.get? index with
  | none => []
  | some program =>
    let isLast := index + 1 == library.count
    let size := "00 \x7b " ++ s!"{program.size}-Byte Prgm" ++ " \x7d"
    size :: program.lines.mapIdx fun place line =>
      Decimal.paddedDigits 2 (place + 1) ++ " " ++ lineText isLast line.2.instruction

end Library

end Keystroke
