import Keystroke.Value

/-!
# Variables

Named values at levels: globals at level minus one, locals at the depth of the call that made them.
The table is kept in the order of levels, so what belongs to a call and to the calls below it is the
end of the table.
-/

namespace Keystroke

/-- A named value. -/
structure Variable where
  name : List UInt8
  level : Int
  /-- Which of the marks `hiddenMark`, `hidingMark` and `privateMark` the variable has. -/
  marks : UInt8
  value : Value
deriving Inhabited

namespace Variable

/-- The level of global variables. -/
def globalLevel : Int := -1

/-- Marks a variable that a deeper one of the same name hides. -/
def hiddenMark : UInt8 := 1

/-- Marks a variable that hides an older one, which appears again when this one goes. -/
def hidingMark : UInt8 := 2

/-- Marks a variable that is seen from its own level only. -/
def privateMark : UInt8 := 4

/-- Whether a variable has a mark. -/
def has (entry : Variable) (mark : UInt8) : Bool := entry.marks &&& mark != 0

def isGlobal (entry : Variable) : Bool := entry.level == globalLevel

/-- Whether a variable can be seen from a level at all. -/
def isSeenFrom (entry : Variable) (level : Int) : Bool :=
  !entry.has privateMark || entry.level == level

/-- The longest name. -/
def maximalNameLength : Nat := 7

/-- Refuse an empty or overlong name. -/
def checkName (name : List UInt8) : Outcome Unit :=
  if name.isEmpty then failWith .invalidData "EMPTY NAME"
  else if name.length > maximalNameLength then fail .nameTooLong
  else .ok ()

end Variable

/-- The position of the last item with a property. -/
def lastIndex? {α : Type} (property : α → Bool) : List α → Option Nat
  | [] => none
  | item :: rest =>
    match lastIndex? property rest with
    | some index => some (index + 1)
    | none => if property item then some 0 else none

/-- The table of all variables. -/
structure Variables where
  entries : List Variable
deriving Inhabited

namespace Variables

open Variable (globalLevel)

def empty : Variables := ⟨[]⟩

/-- Whether levels never decrease along a table. -/
def inLevelOrder : List Variable → Bool
  | first :: second :: rest => first.level ≤ second.level && inLevelOrder (second :: rest)
  | _ => true

/-- A table that must be in the order of levels. -/
def ofList (entries : List Variable) : Outcome Variables :=
  if inLevelOrder entries then .ok ⟨entries⟩
  else failWith .invalidData "VARIABLE LEVELS OUT OF ORDER"

/-- The variables that a catalog shows from a level. -/
def visible (table : Variables) (level : Int) : List Variable :=
  table.entries.filter fun entry =>
    !entry.has Variable.hiddenMark && entry.isSeenFrom level

def localCount (table : Variables) : Nat :=
  (table.entries.filter fun entry => !entry.isGlobal).length

/-- The position of the variable that a name means at a level. -/
def lookup? (table : Variables) (name : List UInt8) (level : Int) : Option Nat :=
  lastIndex? (fun entry => entry.name == name && entry.isSeenFrom level) table.entries

def get? (table : Variables) (index : Nat) : Option Variable := table.entries[index]?

/-- The value that a name has at a level. -/
def value? (table : Variables) (name : List UInt8) (level : Int) : Option Value :=
  ((table.lookup? name level).bind table.get?).map (·.value)

/-- Change the variable at a position. -/
def modify (table : Variables) (index : Nat) (change : Variable → Variable) : Variables :=
  ⟨table.entries.modify index change⟩

/-- Replace the value of the variable at a position. -/
def setValue (table : Variables) (index : Nat) (value : Value) : Variables :=
  table.modify index fun entry => { entry with value }

/-- Put a variable behind the globals. -/
def insertGlobal (table : Variables) (name : List UInt8) (value : Value) : Variables :=
  let globals := table.entries.takeWhile Variable.isGlobal
  let locals := table.entries.dropWhile Variable.isGlobal
  ⟨globals ++ ⟨name, globalLevel, 0, value⟩ :: locals⟩

/-- Replace the value of what a name means at a level, or make a global entry. -/
def store (table : Variables) (name : List UInt8) (value : Value) (level : Int) :
    Outcome Variables := do
  Variable.checkName name
  match table.lookup? name level with
  | some index => return table.setValue index value
  | none => return table.insertGlobal name value

/-- Make or replace a local entry. One that is new hides the latest of its name; also tells
whether it did. -/
def storeLocal (table : Variables) (name : List UInt8) (value : Value) (level : Int)
    (marks : UInt8) : Outcome (Bool × Variables) := do
  Variable.checkName name
  match lastIndex? (fun entry => entry.name == name) table.entries with
  | none => return (false, ⟨table.entries ++ [⟨name, level, marks, value⟩]⟩)
  | some index =>
    let older := table.entries.getD index default
    if older.level = level then return (false, table.setValue index value)
    else if older.has Variable.hiddenMark then
      return (false, ⟨table.entries ++ [⟨name, level, marks, value⟩]⟩)
    else
      let covered := table.modify index fun entry =>
        { entry with marks := entry.marks ||| Variable.hiddenMark }
      return (true, ⟨covered.entries ++ [⟨name, level, marks ||| Variable.hidingMark, value⟩]⟩)

/-- Remove the variable at a position; what it hid appears again. -/
def removeAt (table : Variables) (index : Nat) : Variables :=
  match table.entries[index]? with
  | none => table
  | some removed =>
    let rest : Variables := ⟨table.entries.eraseIdx index⟩
    if removed.has Variable.hidingMark then
      let wasHidden (entry : Variable) : Bool :=
        entry.name == removed.name && entry.has Variable.hiddenMark
      match lastIndex? wasHidden (table.entries.take index) with
      | some older => rest.modify older fun entry =>
          { entry with marks := entry.marks &&& ~~~Variable.hiddenMark }
      | none => rest
    else rest

/-- Remove what a name means at a level, if that is global or belongs to the level. -/
def purge (table : Variables) (name : List UInt8) (level : Int) :
    Option (Variable × Variables) := do
  let index ← table.lookup? name level
  let entry ← table.get? index
  if entry.isGlobal || entry.level == level then
    return (entry, table.removeAt index)
  else none

/-- Remove the locals at the end of the table that belong to a level or a deeper one; also counts
them. -/
def purgeFromLevel (table : Variables) (level : Int) : Nat × Variables :=
  go table.entries.length 0 table
where
  go : Nat → Nat → Variables → Nat × Variables
    | 0, count, table => (count, table)
    | fuel + 1, count, table =>
      match table.entries.getLast? with
      | none => (count, table)
      | some last =>
        if last.level < level || last.isGlobal then (count, table)
        else go fuel (count + 1) (table.removeAt (table.entries.length - 1))

end Variables

end Keystroke
