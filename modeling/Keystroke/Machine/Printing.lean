import Keystroke.Machine.Operand

/-!
# Printing

Lines for the printer. Printing fails where there is no printer, and does nothing while a program runs
with the printer switched off.
-/

namespace Keystroke.Machine

/-- The text of a matrix element as printed. -/
def cellText : Cell → String
  | .number x => Decimal.plainText x
  | .text bytes => "\"" ++ Text.ofBytes bytes ++ "\""

/-- A line for each element of a grid, behind its row and column counted from one. -/
def gridLines {α : Type} (text : α → String) (grid : Grid α) : List String :=
  grid.cells.toList.mapIdx fun place element =>
    s!"{place / grid.cols + 1}:{place % grid.cols + 1}={text element}"

/-- The lines that a value is printed in. -/
def valueLines (flags : Flags) (label : String) : Value → List String
  | .realMatrix _ grid =>
    s!"{label}=[{grid.rows}×{grid.cols} Matrix]" :: gridLines cellText grid
  | .complexMatrix _ grid =>
    s!"{label}=[{grid.rows}×{grid.cols} Cpx Matrix]" :: gridLines (·.shown flags) grid
  | .list _ items =>
    (s!"{label}=" ++ "\x7b " ++ s!"{items.length}-Elem List" ++ " \x7d") ::
      items.mapIdx fun place item => s!"{place + 1}={item.shown flags}"
  | value => [s!"{label}={value.shown flags}"]

/-- Whether lines are printed now. -/
def printerReady (machine : Machine) : Outcome Bool :=
  if machine.flags.get Flags.printerExists then
    .ok (!machine.isRunning || machine.flags.get Flags.printerEnabled)
  else fail .printingIsDisabled

/-- Hand lines to the printer. -/
def tellLines (machine : Machine) (lines : List String) : Machine :=
  lines.foldl (fun machine line => machine.tell (.printed (Text.toBytes line))) machine

/-- Print the lines that are made from the machine, if lines are printed now. -/
def printLines (lines : Machine → Outcome (List String)) : Action Unit := do
  let machine ← get
  if ← machine.printerReady then
    set (machine.tellLines (← lines machine))

/-- Print one line. -/
def printText (text : String) : Action Unit := printLines fun _ => .ok [text]

/-- Print X. -/
def printX : Action Unit :=
  printLines fun machine => do return valueLines machine.flags "X" (← machine.stack.x)

/-- Print a variable. -/
def printVariable (name : List UInt8) : Action Unit :=
  printLines fun machine => do
    return valueLines machine.flags (Text.ofBytes name) (← machine.variableNamed name)

/-- The name of a stack level, counted from the top. -/
def levelName (distance : Nat) : String := ["X", "Y", "Z", "T"].getD distance (toString (distance + 1))

/-- Print the stack, X last. -/
def printStack : Action Unit :=
  printLines fun machine => .ok
    (machine.stack.values.mapIdx fun distance value =>
      s!"{levelName distance}={value.shown machine.flags}").reverse

/-- Print the text register. -/
def printAlpha : Action Unit := do
  let machine ← get
  if ← machine.printerReady then set (machine.tell (.printed machine.alpha))

/-- Print the variable at a place of the catalog; the next turn prints the one behind it. -/
def printCatalogFrom (place : Nat) : Action Unit := do
  let machine ← get
  if ← machine.printerReady then
    match (machine.bindings.visible machine.level)[place]? with
    | none => return
    | some entry =>
      let lines := valueLines machine.flags (Text.ofBytes entry.name) entry.value
      set { machine.tellLines lines with task := some (.printingCatalog (place + 1)) }

end Keystroke.Machine
