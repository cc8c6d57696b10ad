import Keystroke.Opcode
import Keystroke.Text.Blank

/-!
# Commands by the name typed for them

A command is found by its listed name. Letters may be typed in either case, and plain characters may
stand for those that an ordinary keyboard lacks: a slash for the division sign, `->` for an arrow.
-/

namespace Keystroke.Opcode

/-- Typed names that stand for another one as a whole. -/
def spelledOut : List (String × String) :=
  [("/", "÷"), ("*", "×"), ("RDN", "R↓"), ("CHS", "+/-"), ("SWAP", "X<>Y")]

/-- Replacements inside a typed name, in this order. The exchange sign is put aside meanwhile, so
that it is not read as a comparison. -/
def respellings : List (String × String) :=
  [("STO/", "STO÷"), ("STO*", "STO×"), ("RCL/", "RCL÷"), ("RCL*", "RCL×"), ("<>", "\u0001"),
   ("!=", "≠"), ("<=", "≤"), (">=", "≥"), ("->", "→"), ("\u0001", "<>"), ("SIGMA", "Σ")]

/-- The listed spelling of a typed name. -/
def listedName (typed : List Char) : List Char :=
  let name := Text.upper typed
  match spelledOut.find? fun entry => entry.1.toList = name with
  | some entry => entry.2.toList
  | none =>
    respellings.foldl (fun text entry => Text.substitute entry.1.toList entry.2.toList text) name

/-- The visible command with a typed name, if there is one. -/
def ofTyped? (typed : List Char) : Option Opcode :=
  let name := String.ofList (listedName typed)
  all.find? fun opcode => !opcode.isHidden && opcode.name == name

end Keystroke.Opcode
