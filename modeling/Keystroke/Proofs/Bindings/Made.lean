import Mathlib
import Keystroke.Machine.Keyboard

/-!
# How tables of variables are made

A machine changes its table only by the operations of tables. So what every operation keeps holds of the
table of every machine, whatever commands were executed and however they ended.
-/

namespace Keystroke

open Machine (packageName parkedEditorName keptMarks)

/-- All of a variable but its value. -/
def Variable.heading (entry : Variable) : List UInt8 × Int × UInt8 := (entry.name, entry.level, entry.marks)

/-- The tables that a machine comes to have: that of a new machine, what the operations make of a table, and
what files give back. -/
inductive Variables.IsMade : Variables → Prop
  | new (memory : Nat) : IsMade (Machine.newRegisters memory)
  | setValue {table : Variables} (made : IsMade table) (index : Nat) (value : Value) :
      IsMade (table.setValue index value)
  | store {table after : Variables} {name : List UInt8} {value : Value} {level : Int}
      (made : IsMade table) (stores : table.store name value level = .ok after) : IsMade after
  /-- Marks are given only to what a call keeps. -/
  | storeLocal {table after : Variables} {name : List UInt8} {value : Value} {depth : Nat} {marks : UInt8}
      {hides : Bool} (made : IsMade table)
      (given : marks = 0 ∨ marks = keptMarks ∧ (name = packageName ∨ name = parkedEditorName))
      (stores : table.storeLocal name value depth marks = .ok (hides, after)) : IsMade after
  | purge {table after : Variables} {name : List UInt8} {level : Int} {entry : Variable}
      (made : IsMade table) (purges : table.purge name level = some (entry, after)) : IsMade after
  | purgeFromLevel {table : Variables} (made : IsMade table) (level : Int) :
      IsMade (table.purgeFromLevel level).2
  /-- A layout with levels gives back all but how values share their arrays. -/
  | reread {table : Variables} {entries : List Variable} (made : IsMade table)
      (same : entries.map Variable.heading = table.entries.map Variable.heading) : IsMade ⟨entries⟩
  /-- A layout without levels gives back globals that have no marks. -/
  | flattened {entries : List Variable}
      (plain : ∀ entry ∈ entries, entry.level = Variable.globalLevel ∧ entry.marks = 0) : IsMade ⟨entries⟩

/-- The table of a machine was made by operations. -/
def Machine.HasMadeTable (machine : Machine) : Prop := machine.bindings.IsMade

end Keystroke
