import Keystroke.Instruction.Listing
import Keystroke.Instruction.Source

/-!
# Programs

A program is the bytes of its instructions one after the other, the last of them its end. Lines are
found by walking the bytes from the start.
-/

namespace Keystroke

/-- A program. -/
structure Program where
  /-- The bytes of the instructions. -/
  text : List UInt8
  /-- Whether every jump cache is known to be empty. -/
  cachesEmpty : Bool
  isLocked : Bool
deriving DecidableEq, Inhabited

/-- Where a jump inside a program leads. -/
inductive JumpTarget where
  /-- The instruction is no such jump. -/
  | none
  | found (address : Nat)
  | notFound
deriving DecidableEq, Repr, Inhabited

namespace Program

/-- The bytes of an end without an argument. -/
def endBytes : List UInt8 := Codec.header .endOfProgram .none false

/-- A program that has an end only. -/
def empty : Program := ⟨endBytes, true, false⟩

def size (program : Program) : Nat := program.text.length

/-- Where the closing end is: at the last two bytes. -/
def endAddress (program : Program) : Nat := program.size - 2

/-- Whether the program has an end only. -/
def isEmpty (program : Program) : Bool := program.endAddress == 0

/-- The instruction at the address of a line. -/
def decode (program : Program) (address : Nat) : Codec.Decoded :=
  Codec.decode program.text address

/-- Read the instruction at an address, which need not be that of a line: where the bytes end in front of what
is read, there is a crash. -/
def read (program : Program) (address : Nat) : Outcome Codec.Decoded :=
  match Codec.decode? program.text address with
  | some decoded => .ok decoded
  | none => fail .crash

theorem length_pos (text : List UInt8) (address : Nat) :
    0 < (Codec.decode text address).length := by
  simp only [Codec.decode]
  split <;> simp only <;> omega

/-- The instructions from an address on, with their addresses. -/
def linesFrom (text : List UInt8) (address : Nat) : List (Nat × Codec.Decoded) :=
  if address < text.length then
    (address, Codec.decode text address) ::
      linesFrom text (address + (Codec.decode text address).length)
  else []
termination_by text.length - address
decreasing_by
  have positive := length_pos text address
  omega

/-- All instructions of a program, with their addresses. -/
def lines (program : Program) : List (Nat × Codec.Decoded) := linesFrom program.text 0

/-- Whether bytes are complete instructions, the last of them the only end. -/
def check (text : List UInt8) (address : Nat) (ended : Bool) : Outcome Unit :=
  if address < text.length then
    if ended then failWith .invalidData "BYTES AFTER END"
    else
      match Codec.length? text address with
      | none => failWith .invalidData "BAD PROGRAM"
      | some length =>
        if 0 < length then
          check text (address + length) (Codec.decode text address).instruction.isEnd
        else failWith .invalidData "BAD PROGRAM"
  else if ended then .ok ()
  else failWith .invalidData "PROGRAM WITHOUT END"
termination_by text.length - address
decreasing_by omega

/-- A program with bytes of unknown origin. -/
def ofBytes (text : List UInt8) (cachesEmpty isLocked : Bool) : Outcome Program := do
  check text 0 false
  return ⟨text, cachesEmpty, isLocked⟩

/-- The address behind the instruction at an address. -/
def next (program : Program) (address : Nat) : Nat :=
  address + Codec.length program.text address

/-- The last instruction of a walk that starts in front of an address. -/
def lastBefore (program : Program) (limit : Nat) (last : Option Nat) :
    Nat → Nat → Option Nat
  | 0, _ => last
  | fuel + 1, address =>
    if address < limit ∧ address < program.size then
      lastBefore program limit (some address) fuel (program.next address)
    else last

/-- The instruction before an address, found by walking from the start. -/
def previous (program : Program) (address : Nat) : Option Nat :=
  lastBefore program address none (program.size + 1) 0

/-- The number of the line at an address, counted from one. -/
def lineNumber (program : Program) (address : Nat) : Nat :=
  (program.lines.takeWhile fun line => line.1 < address).length + 1

/-- The address of a line, counted from one. -/
def addressOfLine? (program : Program) (line : Nat) : Option Nat :=
  if line = 0 then none else (program.lines[line - 1]?).map (·.1)

/-- The bytes with every jump cache empty. -/
def withoutCaches (text : List UInt8) : List UInt8 :=
  (linesFrom text 0).foldl (fun text line =>
    match line.2.cache with
    | some place => Codec.writeCache text place none
    | none => text) text

/-- Empty every jump cache. -/
def emptyCaches (program : Program) : Program :=
  if program.cachesEmpty then program
  else { program with text := withoutCaches program.text, cachesEmpty := true }

/-- Whether the instruction at an address is the label that a jump argument means. -/
def isLabelAt (program : Program) (argument : Argument) (address : Nat) : Outcome Bool := do
  let instruction := (← program.read address).instruction
  return instruction.opcode == .label && instruction.argument.agrees argument

/-- The first label that an argument means, from an address up to a limit. -/
def labelBetween (program : Program) (argument : Argument) (limit : Nat) :
    Nat → Nat → Outcome (Option Nat)
  | 0, _ => .ok none
  | fuel + 1, address =>
    if address < limit then do
      if ← program.isLabelAt argument address then return some address
      else labelBetween program argument limit fuel (program.next address)
    else .ok none

/-- The nearest label that an argument means, searched onward from an address and then, once, from
the start of the program. -/
def findLabel (program : Program) (start : Option Nat) (argument : Argument) :
    Outcome (Option Nat) := do
  let start := min (start.getD 0) program.endAddress
  let fuel := program.size + 1
  match ← program.labelBetween argument program.endAddress fuel start with
  | some address => return some address
  | none => program.labelBetween argument start fuel 0

/-- An instruction read for execution. -/
structure Fetched where
  instruction : Instruction
  /-- The address behind it. -/
  next : Nat
  target : JumpTarget
deriving DecidableEq, Inhabited

/-- The target that a jump cache remembers, if it does. -/
def cachedTarget (program : Program) (place : Nat) : Outcome (Option Nat) :=
  match Codec.readCache? program.text place with
  | some target => .ok target
  | none => fail .crash

/-- Read the instruction at an address. If it is a jump inside the program and its target is wanted,
find that through the jump cache, which the program remembers. -/
def fetch (program : Program) (address : Nat) (wantTarget : Bool) : Outcome (Fetched × Program) := do
  let decoded ← program.read address
  let next := address + decoded.length
  match wantTarget, decoded.cache with
  | true, some place =>
    match ← program.cachedTarget place with
    | some target => return (⟨decoded.instruction, next, .found target⟩, program)
    | none =>
      match ← program.findLabel (some next) decoded.instruction.argument with
      | some target =>
        return (⟨decoded.instruction, next, .found target⟩,
          { program with
            text := Codec.writeCache program.text place (some target)
            cachesEmpty := false })
      | none => return (⟨decoded.instruction, next, .notFound⟩, program)
  | _, _ => return (⟨decoded.instruction, next, .none⟩, program)

/-- Put bytes at an address. -/
def insertBytes (program : Program) (address : Nat) (bytes : List UInt8) : Program :=
  { program with text := program.text.take address ++ bytes ++ program.text.drop address }

/-- Remove bytes at an address. -/
def removeBytes (program : Program) (address : Nat) (count : Nat) : Program :=
  { program with text := program.text.take address ++ program.text.drop (address + count) }

end Program

end Keystroke
