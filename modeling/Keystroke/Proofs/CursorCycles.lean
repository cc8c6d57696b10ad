import Mathlib
import Keystroke.Machine.Command
import Keystroke.Proofs.Actions
import Keystroke.Proofs.Listings.Commands

/-!
# Cycles of the cursor

The commands that move the cursor of the matrix editor go round the elements of what is edited: `I+` and `I-` down and
up the columns, `J+` and `J-` along the rows. Each element is visited once before the cursor is back. The arrows to the
right and to the left enter sublists and come back from them.
-/

namespace Keystroke

open Keystroke.Action

namespace Editor

/-! ## Orders of the elements -/

/-- The rows and columns of the elements of an array, one row after the other. -/
def rowMajor (rows cols : Nat) : List (Nat × Nat) := List.range rows ×ˢ List.range cols

/-- The rows and columns of the elements of an array, one column after the other. -/
def columnMajor (rows cols : Nat) : List (Nat × Nat) := (rowMajor cols rows).map Prod.swap

/-- A list of the elements of an array, each of them once. -/
structure IsOrder (rows cols : Nat) (order : List (Nat × Nat)) : Prop where
  length_eq : order.length = rows * cols
  nodup : order.Nodup
  mem_iff (place : Nat × Nat) : place ∈ order ↔ place.1 < rows ∧ place.2 < cols

variable {rows cols total place index : Nat} {order : List (Nat × Nat)}

theorem isOrder_rowMajor (rows cols : Nat) : IsOrder rows cols (rowMajor rows cols) where
  length_eq := by rw [rowMajor, List.length_product, List.length_range, List.length_range]
  nodup := List.nodup_range.product List.nodup_range
  mem_iff _ := List.mem_product.trans (and_congr List.mem_range List.mem_range)

theorem IsOrder.map_swap (isOrder : IsOrder cols rows order) : IsOrder rows cols (order.map Prod.swap) where
  length_eq := by rw [List.length_map, isOrder.length_eq, Nat.mul_comm]
  nodup := isOrder.nodup.map Prod.swap_injective
  mem_iff place := by
    rw [← Prod.swap_swap place, List.mem_map_of_injective Prod.swap_injective, isOrder.mem_iff]
    exact and_comm

example : rowMajor 2 3 = [(0, 0), (0, 1), (0, 2), (1, 0), (1, 1), (1, 2)] := rfl

example : columnMajor 2 3 = [(0, 0), (1, 0), (0, 1), (1, 1), (0, 2), (1, 2)] := rfl

/-- An element stands in the row-by-row order where its row and column say. -/
theorem rowMajor_eq_map (rows cols : Nat) :
    rowMajor rows cols = (List.range (rows * cols)).map fun place => (place / cols, place % cols) := by
  induction rows with
  | zero => simp [rowMajor]
  | succ rows above =>
    have lastRow : (List.range cols).map (Prod.mk rows) =
        (List.range cols).map fun col => ((rows * cols + col) / cols, (rows * cols + col) % cols) := by
      refine List.map_congr_left fun col inside => ?_
      have inside : col < cols := List.mem_range.mp inside
      rw [Nat.mul_comm rows, Nat.mul_add_div (by omega), Nat.div_eq_of_lt inside, Nat.mul_add_mod,
        Nat.mod_eq_of_lt inside, Nat.add_zero]
    calc
      rowMajor (rows + 1) cols = rowMajor rows cols ++ (List.range cols).map (Prod.mk rows) := by
        simp [rowMajor, SProd.sprod, List.product, List.range_succ]
      _ = _ := by
        rw [above, lastRow, Nat.succ_mul, List.range_add, List.map_append, List.map_map]
        rfl

/-- The element at an index of an order, counted round its end. -/
def around (order : List (Nat × Nat)) (index : Nat) : Nat × Nat := order.getD (index % order.length) (0, 0)

theorem around_eq_getElem (inside : index % order.length < order.length) :
    around order index = order[index % order.length] := by
  rw [around, List.getD_eq_getElem _ _ inside]

theorem around_mem (positive : 0 < order.length) (index : Nat) : around order index ∈ order := by
  rw [around_eq_getElem (Nat.mod_lt _ positive)]
  exact List.getElem_mem _

theorem around_add_length (order : List (Nat × Nat)) (index : Nat) :
    around order (index + order.length) = around order index := by
  rw [around, around, Nat.add_mod_right]

theorem around_length {front back : List (Nat × Nat)} {place : Nat × Nat}
    (split : order = front ++ place :: back) : around order front.length = place := by
  have inside : front.length < order.length := by simp [split]
  rw [around, Nat.mod_eq_of_lt inside]
  simp [split]

theorem around_map_swap (order : List (Nat × Nat)) (index : Nat) :
    around (order.map Prod.swap) index = (around order index).swap := by
  rw [around, around, List.length_map]
  exact List.getD_map order (0, 0) Prod.swap

theorem around_rowMajor (positive : 0 < rows * cols) (index : Nat) :
    around (rowMajor rows cols) index = (index % (rows * cols) / cols, index % (rows * cols) % cols) := by
  have length := (isOrder_rowMajor rows cols).length_eq
  rw [around_eq_getElem (by rw [length]; exact Nat.mod_lt _ positive)]
  simp [rowMajor_eq_map]

/-! ## One step in an order -/

/-- A word below half of all words counts as positive. -/
theorem bmod_word {number : Int} (above : -1 ≤ number) (below : number < 2 ^ 63) :
    number.bmod (indexLimit + 1) = number := by
  apply Int.bmod_eq_of_le_mul_two <;> simp only [indexLimit] <;> omega

theorem stepAround_forward (fits : total < 2 ^ 63) (inside : place < total) :
    stepAround total place 1 = (place + 1) % total := by
  have next : (place : Int) + 1 = (place + 1 : Nat) := rfl
  rw [stepAround, bmod_word (by omega) (by omega), next, ← Int.natCast_mod, Int.toNat_natCast]

theorem stepAround_backward (fits : total < 2 ^ 63) (inside : place < total) :
    stepAround total ((place + 1) % total) (-1) = place := by
  have around : (place + 1) % total < total := Nat.mod_lt _ (by omega)
  have back : ((place + 1 : Nat) : Int) + -1 = place := by omega
  rw [stepAround, bmod_word (by omega) (by omega), Int.natCast_mod, Int.emod_add_emod, back, ← Int.natCast_mod,
    Int.toNat_natCast, Nat.mod_eq_of_lt inside]

/-- The row and the column of the cursor. -/
def cursor (editor : Editor) : Nat × Nat := (editor.row, editor.col)

/-- The editor with its cursor on another element. -/
def put (editor : Editor) (place : Nat × Nat) : Editor := { editor with row := place.1, col := place.2 }

/-- A move goes from each element of an array to the next one in an order or to the one before, round its ends. -/
structure Follows (move : Editor → Nat → Nat → Int → Editor) (rows cols : Nat) (order : List (Nat × Nat)) :
    Prop where
  isOrder : IsOrder rows cols order
  forward (editor : Editor) (index : Nat) :
    move (editor.put (around order index)) rows cols 1 = editor.put (around order (index + 1))
  backward (editor : Editor) (index : Nat) :
    move (editor.put (around order (index + 1))) rows cols (-1) = editor.put (around order index)

theorem moveByCols_put (editor : Editor) (inside : place < rows * cols) (distance : Int) :
    (editor.put (place / cols, place % cols)).moveByCols rows cols distance =
      editor.put (stepAround (rows * cols) place distance / cols,
        stepAround (rows * cols) place distance % cols) := by
  rw [moveByCols, if_neg (by omega)]
  simp only [put, Nat.div_add_mod']

theorem follows_moveByCols (positive : 0 < rows * cols) (fits : rows * cols < 2 ^ 63) :
    Follows moveByCols rows cols (rowMajor rows cols) where
  isOrder := isOrder_rowMajor rows cols
  forward editor index := by
    have inside := Nat.mod_lt index positive
    rw [around_rowMajor positive, moveByCols_put editor inside, stepAround_forward fits inside, Nat.mod_add_mod,
      ← around_rowMajor positive]
  backward editor index := by
    have inside := Nat.mod_lt index positive
    rw [around_rowMajor positive, moveByCols_put editor (Nat.mod_lt _ positive), ← Nat.mod_add_mod,
      stepAround_backward fits inside, ← around_rowMajor positive]

/-- The editor with its row for its column. -/
def transposed (editor : Editor) : Editor := editor.put editor.cursor.swap

/-- To move down the columns is to move along the rows of the transposed array. -/
theorem moveByRows_eq (editor : Editor) (rows cols : Nat) (distance : Int) :
    editor.moveByRows rows cols distance = (editor.transposed.moveByCols cols rows distance).transposed := by
  rw [moveByRows, moveByCols, Nat.mul_comm cols rows]
  split <;> rfl

theorem follows_moveByRows (positive : 0 < rows * cols) (fits : rows * cols < 2 ^ 63) :
    Follows moveByRows rows cols (columnMajor rows cols) := by
  rw [Nat.mul_comm] at positive fits
  have along := follows_moveByCols positive fits
  have transposed_put (editor : Editor) (place : Nat × Nat) :
      (editor.put place.swap).transposed = editor.put place := rfl
  refine ⟨along.isOrder.map_swap, fun editor index => ?_, fun editor index => ?_⟩
  · rw [columnMajor, around_map_swap, around_map_swap, moveByRows_eq, transposed_put, along.forward]
    rfl
  · rw [columnMajor, around_map_swap, around_map_swap, moveByRows_eq, transposed_put, along.backward]
    rfl

/-- The editor after the sublist under the cursor was entered. -/
def entered (editor : Editor) : Editor := { editor with path := editor.path ++ [editor.row], row := 0, col := 0 }

end Editor

namespace Machine

open Editor (rowMajor columnMajor around IsOrder Follows)

variable {machine : Machine} {editor : Editor} {target : Value} {rows cols : Nat}

/-! ## Commands that move the cursor -/

/-- Perform the instruction that a line means, if it is complete. -/
def performLine (line : String) : Action Unit := do
  match ← TypedLine.parse line with
  | .complete instruction => perform instruction .none
  | _ => return

/-- The machine that is left when the instruction of a line is performed. -/
def afterLine (line : String) (machine : Machine) : Machine := (performLine line).attempt machine

theorem afterLine_eq {line : String} {left : Machine} (ends : (performLine line).on machine = (.ok (), left)) :
    machine.afterLine line = left :=
  congrArg Prod.snd ends

/-- The machine with another editor. Stack lift is enabled, as most commands leave it. -/
def withEditor (machine : Machine) (editor : Editor) : Machine :=
  { machine with editor := some editor, flags := machine.flags.set Flags.liftDisabled false }

theorem withEditor_withEditor (machine : Machine) (first second : Editor) :
    (machine.withEditor first).withEditor second = machine.withEditor second := by
  simp [withEditor, Flags.set]

/-- A command that enables stack lift and has no other effect than an action. -/
structure IsPlain (opcode : Opcode) (action : Action Unit) : Prop where
  shown : opcode.isHidden = false
  alone : opcode.argumentKind = .none
  enables : opcode.keepsLift = false ∧ opcode.disablesLift = false
  effect_eq (memory : Nat) (flags : Flags) : effect memory flags (.plain opcode) .none = action

/-- A command that changes the editor. -/
theorem IsPlain.on_performLine {opcode : Opcode} {action : Action Unit} (isPlain : IsPlain opcode action)
    (ends : action.on machine = (.ok (), { machine with editor := some editor })) :
    (performLine opcode.name).on machine = (.ok (), machine.withEditor editor) := by
  have parsed : TypedLine.parse opcode.name = .ok (.complete (.plain opcode)) := by
    rw [TypedLine.parse_name isPlain.shown rfl, TypedLine.withArgument]
    simp only [List.isEmpty_nil, if_true, isPlain.alone]
  rw [performLine, parsed, on_bind_ok (on_lift _ _)]
  dsimp only
  rw [perform, on_bind_ok (on_get machine), isPlain.effect_eq, on_bind_ok ends, on_modify, afterCommand]
  simp only [Instruction.plain, isPlain.enables, Bool.false_eq_true, if_false]
  rfl

/-- The cursor of a machine is on an element of what is edited. -/
structure IsOnElement (machine : Machine) (editor : Editor) (target : Value) (rows cols : Nat) : Prop where
  active : machine.editor = some editor
  isEdited : machine.edited = .ok target
  dimensions : Editor.dimensions target = .ok (rows, cols)
  inside : editor.row < rows ∧ editor.col < cols

theorem edited_eq (active : machine.editor = some editor) :
    machine.edited = machine.variableNamed editor.name >>= Editor.follow editor.path := by
  rw [edited, activeEditor, active]
  rfl

theorem IsOnElement.put (isOn : machine.IsOnElement editor target rows cols) {place : Nat × Nat}
    (inside : place.1 < rows ∧ place.2 < cols) :
    (machine.withEditor (editor.put place)).IsOnElement (editor.put place) target rows cols where
  active := rfl
  isEdited := by
    have there : (machine.withEditor (editor.put place)).editor = some (editor.put place) := rfl
    rw [edited_eq there, ← isOn.isEdited, edited_eq isOn.active]
    rfl
  dimensions := isOn.dimensions
  inside := inside

theorem IsOnElement.on_moveCursor (isOn : machine.IsOnElement editor target rows cols)
    (move : Editor → Nat → Nat → Editor) :
    (moveCursor move).on machine = (.ok (), { machine with editor := some (move editor rows cols) }) := by
  have active : machine.activeEditor = .ok editor := by rw [activeEditor, isOn.active]
  rw [moveCursor, on_bind_ok (on_get machine), isOn.isEdited, active]
  show (liftM (Editor.dimensions target) >>= _ : Action Unit).on machine = _
  rw [isOn.dimensions]
  rfl

/-- A pair of commands that move the cursor, one forward and the other backward. -/
structure Moves (move : Editor → Nat → Nat → Int → Editor) (forward backward : String) : Prop where
  forward {machine : Machine} {editor : Editor} {target : Value} {rows cols : Nat}
    (isOn : machine.IsOnElement editor target rows cols) :
    (performLine forward).on machine = (.ok (), machine.withEditor (move editor rows cols 1))
  backward {machine : Machine} {editor : Editor} {target : Value} {rows cols : Nat}
    (isOn : machine.IsOnElement editor target rows cols) :
    (performLine backward).on machine = (.ok (), machine.withEditor (move editor rows cols (-1)))

theorem moves_of_isPlain {move : Editor → Nat → Nat → Int → Editor} {forward backward : Opcode}
    (goesForward : IsPlain forward (moveCursor fun editor rows cols => move editor rows cols 1))
    (goesBackward : IsPlain backward (moveCursor fun editor rows cols => move editor rows cols (-1))) :
    Moves move forward.name backward.name where
  forward isOn := goesForward.on_performLine (isOn.on_moveCursor _)
  backward isOn := goesBackward.on_performLine (isOn.on_moveCursor _)

theorem moves_rows : Moves Editor.moveByRows "I+" "I-" :=
  @moves_of_isPlain _ .rowDown .rowUp ⟨rfl, rfl, ⟨rfl, rfl⟩, fun _ _ => rfl⟩
    ⟨rfl, rfl, ⟨rfl, rfl⟩, fun _ _ => rfl⟩

/-- The arrows down and up; the one that points up is typed as a caret. -/
theorem moves_down_up : Moves Editor.moveByRows "↓" "^" :=
  @moves_of_isPlain _ .cursorDown .cursorUp ⟨rfl, rfl, ⟨rfl, rfl⟩, fun _ _ => rfl⟩
    ⟨rfl, rfl, ⟨rfl, rfl⟩, fun _ _ => rfl⟩

theorem moves_cols : Moves Editor.moveByCols "J+" "J-" :=
  @moves_of_isPlain _ .columnRight .columnLeft ⟨rfl, rfl, ⟨rfl, rfl⟩, fun _ _ => rfl⟩
    ⟨rfl, rfl, ⟨rfl, rfl⟩, fun _ _ => rfl⟩

/-! ## Round the elements -/

/-- The row and the column of the cursor, while there is an editor. -/
def cursor? (machine : Machine) : Option (Nat × Nat) := machine.editor.map Editor.cursor

/-- A pair of commands moves the cursor round the elements of an array in an order, each of the two back where the
other one came from. -/
structure GoesThrough (machine : Machine) (editor : Editor) (rows cols : Nat) (order : List (Nat × Nat))
    (forward backward : String) : Prop where
  isOrder : IsOrder rows cols order
  stays (line : String) (isMove : line = forward ∨ line = backward) :
    ∃ place ∈ order, (performLine line).on machine = (.ok (), machine.withEditor (editor.put place))
  backward_forward : (machine.afterLine forward).afterLine backward = machine.withEditor editor
  forward_backward : (machine.afterLine backward).afterLine forward = machine.withEditor editor
  /-- The elements behind the cursor are visited first, then those in front of it and at last its own. -/
  visited : ∃ front rest, order = front ++ editor.cursor :: rest ∧
    (List.iterate (afterLine forward) (machine.afterLine forward) (rows * cols)).map cursor? =
      (rest ++ front ++ [editor.cursor]).map some
  returned : (afterLine forward)^[rows * cols] machine = machine.withEditor editor

section

variable {move : Editor → Nat → Nat → Int → Editor} {forward backward : String} {order : List (Nat × Nat)}
  {index : Nat}

theorem IsOnElement.around (isOn : machine.IsOnElement editor target rows cols)
    (follows : Follows move rows cols order) (index : Nat) :
    (machine.withEditor (editor.put (around order index))).IsOnElement (editor.put (around order index)) target
      rows cols := by
  have member : editor.cursor ∈ order := (follows.isOrder.mem_iff _).mpr isOn.inside
  exact isOn.put ((follows.isOrder.mem_iff _).mp (Editor.around_mem (List.length_pos_of_mem member) index))

variable (moves : Moves move forward backward) (follows : Follows move rows cols order)
  (isOn : machine.IsOnElement editor target rows cols)

include moves follows isOn

theorem Moves.on_forward (here : editor.cursor = around order index) :
    (performLine forward).on machine = (.ok (), machine.withEditor (editor.put (around order (index + 1)))) := by
  have moved := follows.forward editor index
  rw [← here] at moved
  exact moved ▸ moves.forward isOn

theorem Moves.on_backward (here : editor.cursor = around order (index + 1)) :
    (performLine backward).on machine = (.ok (), machine.withEditor (editor.put (around order index))) := by
  have moved := follows.backward editor index
  rw [← here] at moved
  exact moved ▸ moves.backward isOn

theorem Moves.afterLine_forward (index : Nat) :
    (machine.withEditor (editor.put (around order index))).afterLine forward =
      machine.withEditor (editor.put (around order (index + 1))) := by
  have moved := moves.on_forward follows (isOn.around follows index) rfl
  rw [afterLine_eq moved, withEditor_withEditor]
  rfl

theorem Moves.afterLine_backward (index : Nat) :
    (machine.withEditor (editor.put (around order (index + 1)))).afterLine backward =
      machine.withEditor (editor.put (around order index)) := by
  have moved := moves.on_backward follows (isOn.around follows (index + 1)) rfl
  rw [afterLine_eq moved, withEditor_withEditor]
  rfl

theorem Moves.iterate_forward (here : editor.cursor = around order index) (count : Nat) :
    (afterLine forward)^[count + 1] machine =
      machine.withEditor (editor.put (around order (index + (count + 1)))) := by
  induction count with
  | zero => exact afterLine_eq (moves.on_forward follows isOn here)
  | succ count before =>
    rw [Function.iterate_succ_apply', before, moves.afterLine_forward follows isOn, Nat.add_assoc]

/-- The cursors of as many moves as there are elements are the order, turned until the present one is the last. -/
theorem Moves.map_cursor? (here : editor.cursor = around order index) :
    (List.iterate (afterLine forward) (machine.afterLine forward) order.length).map cursor? =
      (order.rotate (index + 1)).map some := by
  apply List.ext_getElem
  · simp
  · intro count visited inside
    have moved := moves.iterate_forward follows isOn here count
    rw [Function.iterate_succ_apply] at moved
    rw [List.getElem_map, List.getElem_iterate, moved, List.getElem_map, List.getElem_rotate,
      ← Editor.around_eq_getElem, Nat.add_left_comm count]
    rfl

theorem Moves.goesThrough : machine.GoesThrough editor rows cols order forward backward := by
  have member : editor.cursor ∈ order := (follows.isOrder.mem_iff _).mpr isOn.inside
  obtain ⟨front, rest, split⟩ := List.append_of_mem member
  have positive : 0 < order.length := List.length_pos_of_mem member
  have here : editor.cursor = around order front.length := (Editor.around_length split).symm
  -- What is in front of the cursor is one element short of a whole round behind it.
  have behind : editor.cursor = around order (front.length + (order.length - 1) + 1) := by
    rw [Nat.add_assoc, Nat.sub_add_cancel positive, Editor.around_add_length, here]
  have forth := moves.on_forward follows isOn here
  have back := moves.on_backward follows isOn behind
  constructor
  case isOrder => exact follows.isOrder
  case stays =>
    rintro line (rfl | rfl)
    · exact ⟨_, Editor.around_mem positive _, forth⟩
    · exact ⟨_, Editor.around_mem positive _, back⟩
  case backward_forward =>
    rw [afterLine_eq forth, moves.afterLine_backward follows isOn, ← here]
    rfl
  case forward_backward =>
    rw [afterLine_eq back, moves.afterLine_forward follows isOn, ← behind]
    rfl
  case visited =>
    have turned : order.rotate (front.length + 1) = rest ++ front ++ [editor.cursor] := by
      have rotated := List.rotate_append_length_eq (front ++ [editor.cursor]) rest
      simpa [split] using rotated
    refine ⟨front, rest, split, ?_⟩
    rw [← follows.isOrder.length_eq, moves.map_cursor? follows isOn here, turned]
  case returned =>
    obtain ⟨count, same⟩ := Nat.exists_eq_add_one.mpr positive
    rw [← follows.isOrder.length_eq, same, moves.iterate_forward follows isOn here, ← same,
      Editor.around_add_length, ← here]
    rfl

end

/-! ## Into sublists and back -/

/-- The cursor of a machine is on a sublist of the list that is edited. -/
def IsOnSublist (machine : Machine) : Prop :=
  ∃ editor storage items inner subitems, machine.editor = some editor ∧
    machine.edited = .ok (.list storage items) ∧ items[editor.row]? = some (.list inner subitems)

theorem IsOnSublist.on_right (isOn : machine.IsOnSublist) (active : machine.editor = some editor) :
    (performLine "→").on machine = (.ok (), machine.withEditor editor.entered) := by
  have plain : IsPlain .cursorRight enterRight := ⟨rfl, rfl, ⟨rfl, rfl⟩, fun _ _ => rfl⟩
  obtain ⟨_, _, items, _, _, same, isEdited, isSublist⟩ := isOn
  obtain rfl := Option.some.inj (active.symm.trans same)
  have found : machine.activeEditor = .ok editor := by rw [activeEditor, active]
  refine plain.on_performLine ?_
  rw [enterRight, on_bind_ok (on_get machine), found, on_bind_ok (on_lift _ _), isEdited, on_bind_ok (on_lift _ _)]
  simp only [isSublist]
  rfl

theorem on_left (active : machine.editor = some editor.entered) :
    (performLine "←").on machine = (.ok (), machine.withEditor { editor with col := 0 }) := by
  have plain : IsPlain .cursorLeft leaveLeft := ⟨rfl, rfl, ⟨rfl, rfl⟩, fun _ _ => rfl⟩
  have ends : editor.entered.path.getLast? = some editor.row := List.getLast?_concat
  have begins : editor.entered.path.dropLast = editor.path := List.dropLast_concat
  have found : machine.activeEditor = .ok editor.entered := by rw [activeEditor, active]
  refine plain.on_performLine ?_
  rw [leaveLeft, on_bind_ok (on_get machine), found, on_bind_ok (on_lift _ _)]
  simp only [ends, begins]
  rfl

/-- What the arrows do on a sublist: the one to the right enters it, and the one to the left comes back. -/
structure ComesBack (machine : Machine) (editor : Editor) : Prop where
  enters : (performLine "→").on machine = (.ok (), machine.withEditor editor.entered)
  leaves : (performLine "←").on (machine.withEditor editor.entered) = (.ok (), machine.withEditor editor)
  /-- Sublists inside of one another are entered and left one by one. -/
  nested (depth : Nat) (areSublists : ∀ level ≤ depth, ((afterLine "→")^[level] machine).IsOnSublist) :
    (afterLine "→")^[depth + 1] machine = machine.withEditor (Editor.entered^[depth + 1] editor) ∧
      (afterLine "←")^[depth + 1] ((afterLine "→")^[depth + 1] machine) = machine.withEditor editor

theorem iterate_right (active : machine.editor = some editor) {depth : Nat}
    (areSublists : ∀ level ≤ depth, ((afterLine "→")^[level] machine).IsOnSublist) :
    (afterLine "→")^[depth + 1] machine = machine.withEditor (Editor.entered^[depth + 1] editor) := by
  -- The last of the sublists is entered from the one that the others have led to.
  induction depth with
  | zero =>
    rw [Nat.zero_add, Function.iterate_one, Function.iterate_one]
    exact afterLine_eq ((areSublists 0 le_rfl).on_right active)
  | succ depth before =>
    have outside := before fun level within => areSublists level (within.trans (Nat.le_succ depth))
    have isOn := areSublists (depth + 1) le_rfl
    rw [outside] at isOn
    rw [Function.iterate_succ_apply', outside, afterLine_eq (isOn.on_right rfl), withEditor_withEditor,
      ← Function.iterate_succ_apply' Editor.entered]

/-- In lists the cursor has no other column than the first. -/
theorem on_left_withEditor (machine : Machine) (first : editor.col = 0) :
    (performLine "←").on (machine.withEditor editor.entered) = (.ok (), machine.withEditor editor) := by
  have left : (performLine "←").on (machine.withEditor editor.entered) = _ := on_left rfl
  rw [left, withEditor_withEditor, ← first]

theorem iterate_left (machine : Machine) (first : editor.col = 0) (depth : Nat) :
    (afterLine "←")^[depth + 1] (machine.withEditor (Editor.entered^[depth + 1] editor)) =
      machine.withEditor editor := by
  -- The sublist that was entered last is left first.
  induction depth with
  | zero =>
    rw [Nat.zero_add, Function.iterate_one, Function.iterate_one]
    exact afterLine_eq (on_left_withEditor machine first)
  | succ depth outside =>
    have firstInside : (Editor.entered^[depth + 1] editor).col = 0 := by
      rw [Function.iterate_succ_apply']
      rfl
    rw [Function.iterate_succ_apply, Function.iterate_succ_apply' Editor.entered,
      afterLine_eq (on_left_withEditor machine firstInside), outside]

theorem IsOnSublist.comesBack (isSublist : machine.IsOnSublist)
    (isOn : machine.IsOnElement editor target rows cols) : machine.ComesBack editor := by
  have first : editor.col = 0 := by
    obtain ⟨_, _, items, _, _, _, isEdited, _⟩ := isSublist
    obtain rfl := Except.ok.inj (isOn.isEdited.symm.trans isEdited)
    obtain ⟨-, rfl⟩ := Prod.mk.inj (Except.ok.inj isOn.dimensions)
    exact Nat.lt_one_iff.mp isOn.inside.2
  refine ⟨isSublist.on_right isOn.active, on_left_withEditor machine first, fun depth areSublists => ?_⟩
  have entered := iterate_right isOn.active areSublists
  exact ⟨entered, by rw [entered, iterate_left machine first]⟩

/-- The commands that move the cursor keep it inside, undo each other and go round the elements, and a sublist that was
entered is left where it was entered. No array in memory has as many elements as half of all words. -/
theorem cursor_cycles (isOn : machine.IsOnElement editor target rows cols) (fits : rows * cols < 2 ^ 63) :
    machine.GoesThrough editor rows cols (columnMajor rows cols) "I+" "I-" ∧
      machine.GoesThrough editor rows cols (columnMajor rows cols) "↓" "^" ∧
      machine.GoesThrough editor rows cols (rowMajor rows cols) "J+" "J-" ∧
      (machine.IsOnSublist → machine.ComesBack editor) := by
  have positive : 0 < rows * cols :=
    Nat.mul_pos (Nat.zero_lt_of_lt isOn.inside.1) (Nat.zero_lt_of_lt isOn.inside.2)
  have byRows := Editor.follows_moveByRows positive fits
  have byCols := Editor.follows_moveByCols positive fits
  exact ⟨moves_rows.goesThrough byRows isOn, moves_down_up.goesThrough byRows isOn,
    moves_cols.goesThrough byCols isOn, fun isSublist => isSublist.comesBack isOn⟩

/-- An editor of the variable M. -/
def editorAt (row col : Nat) (path : List Nat) : Editor := ⟨false, [77], Variable.globalLevel, row, col, path⟩

/-- A new machine with an editor and a value in the variable M. -/
def indexing (editor : Editor) (value : Value) : Machine :=
  { initial default with
    bindings := ⟨[⟨[77], Variable.globalLevel, 0, value⟩]⟩
    editor := some editor }

/-- Zeros in two rows and two columns. -/
def twoByTwo : Value := .realMatrix (some 1) ⟨2, 2, Vector.replicate 4 (.number 0), Nat.two_pos, Nat.two_pos⟩

/-- A list whose first item is a list with an empty list in it. -/
def innerList : Value := .list (some 2) [.list (some 3) [.list (some 4) []], .zero]

/-- A list with another list as its last item. -/
def outerList : Value := .list (some 1) [.zero, .zero, innerList]

/-- The lower left corner of a matrix, and a sublist of a list that is in a list itself. -/
theorem cursor_cycles_indexing :
    ((indexing (editorAt 1 0 []) twoByTwo).IsOnElement (editorAt 1 0 []) twoByTwo 2 2 ∧ 2 * 2 < 2 ^ 63 ∧
      (indexing (editorAt 1 0 []) twoByTwo).GoesThrough (editorAt 1 0 []) 2 2 (columnMajor 2 2) "I+" "I-" ∧
      (indexing (editorAt 1 0 []) twoByTwo).GoesThrough (editorAt 1 0 []) 2 2 (rowMajor 2 2) "J+" "J-") ∧
    (indexing (editorAt 0 0 [2]) outerList).IsOnElement (editorAt 0 0 [2]) innerList 2 1 ∧ 2 * 1 < 2 ^ 63 ∧
      (indexing (editorAt 0 0 [2]) outerList).IsOnSublist ∧
      (indexing (editorAt 0 0 [2]) outerList).ComesBack (editorAt 0 0 [2]) ∧
      (afterLine "→")^[2] (indexing (editorAt 0 0 [2]) outerList) =
        (indexing (editorAt 0 0 [2]) outerList).withEditor (editorAt 0 0 [2, 0, 0]) := by
  have onCorner : (indexing (editorAt 1 0 []) twoByTwo).IsOnElement (editorAt 1 0 []) twoByTwo 2 2 :=
    ⟨rfl, by rfl, rfl, by decide⟩
  have onItem : (indexing (editorAt 0 0 [2]) outerList).IsOnElement (editorAt 0 0 [2]) innerList 2 1 :=
    ⟨rfl, by rfl, rfl, by decide⟩
  have onSublist : (indexing (editorAt 0 0 [2]) outerList).IsOnSublist :=
    ⟨editorAt 0 0 [2], _, _, _, _, rfl, onItem.isEdited, rfl⟩
  obtain ⟨rows, -, cols, -⟩ := cursor_cycles onCorner (by decide)
  obtain ⟨-, -, -, comesBack⟩ := cursor_cycles onItem (by decide)
  have areSublists (level : Nat) (within : level ≤ 1) :
      ((afterLine "→")^[level] (indexing (editorAt 0 0 [2]) outerList)).IsOnSublist := by
    obtain rfl | rfl := Nat.le_one_iff_eq_zero_or_eq_one.mp within
    · exact onSublist
    · rw [Function.iterate_one, afterLine_eq (comesBack onSublist).enters]
      exact ⟨editorAt 0 0 [2, 0], _, _, _, _, rfl, by rfl, rfl⟩
  exact ⟨⟨onCorner, by decide, rows, cols⟩, onItem, by decide, onSublist, comesBack onSublist,
    ((comesBack onSublist).nested 1 areSublists).1⟩

end Machine

end Keystroke
