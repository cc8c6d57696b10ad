import Mathlib
import Keystroke.Machine.Returning
import Keystroke.Proofs.Calls.Commands
import Keystroke.Proofs.Calls.Kept

/-!
# Laws of calls

A law says what calls a machine may be in. What stays in given calls upholds every law, so only what
enters, leaves or marks a call, searches, or reports an error has to be looked at for a law of its own.
-/

namespace Keystroke

open Outcome Keystroke.Action
open Variable (globalLevel)

/-- What may hold of calls once so many storages were given out. -/
class Calls.Law (law : Calls → Nat → Prop) where
  /-- The names of the variables in which the calls keep things. -/
  names : List (List UInt8)
  /-- The errors that may come of what upholds the law. -/
  permitted : Error → Prop
  ordinary : ∀ {error}, Error.IsOrdinary error → permitted error
  /-- Whether a caller may have one more call. -/
  vacant : Caller → Returns → Prop
  same_names : ∀ {calls bound}, law calls bound → calls.names = names
  stored : ∀ {calls bound}, law calls bound → calls.IsStored bound
  vacant_of_not_mem : ∀ {caller returns}, caller ∉ returns.items.map Frame.caller →
    vacant caller returns
  later : ∀ {calls bound later}, law calls bound → bound ≤ later → law calls later

variable {law : Calls → Nat → Prop} [Calls.Law law]

instance : Error.IsClass (Calls.Law.permitted law) := ⟨Calls.Law.ordinary⟩

/-- A machine whose calls obey a law. -/
def Machine.Obeys (law : Calls → Nat → Prop) (machine : Machine) : Prop :=
  ∃ calls : Calls, law calls machine.nextStorage ∧ machine.IsSettled calls 0

/-- An action that leaves a machine whose calls obey a law, with a result that has a property. -/
abbrev Action.Gives {α : Type} (law : Calls → Nat → Prop) [Calls.Law law] (action : Action α)
    (machine : Machine) (property : α → Machine → Prop) : Prop :=
  action.LeadsIn (Calls.Law.permitted law) machine (Machine.Obeys law) property

/-- An action that leaves a machine whose calls obey a law. -/
abbrev Action.Upholds {α : Type} (law : Calls → Nat → Prop) [Calls.Law law] (action : Action α)
    (machine : Machine) : Prop :=
  action.Gives law machine fun _ _ => True

/-- What stays in lawful calls upholds the law. -/
theorem Action.LeadsIn.gives {α : Type} {action : Action α} {machine : Machine} {calls : Calls}
    {property : α → Machine → Prop}
    (leads : action.LeadsIn (Calls.Law.permitted law) machine
      (Machine.IsSettled calls machine.nextStorage) property)
    (lawful : law calls machine.nextStorage) :
    action.Gives law machine fun result after =>
      property result after ∧ after.IsSettled calls machine.nextStorage :=
  leads.imp
    (fun _ settled => ⟨calls, Calls.Law.later lawful settled.floor, settled.lower (Nat.zero_le _)⟩)
    fun _ _ settled holds => ⟨holds, settled⟩

namespace Machine.Obeys

variable {machine : Machine}

/-- What stays in any calls upholds a law. -/
theorem leads {α : Type} {action : Action α} (obeys : machine.Obeys law)
    {property : α → Machine → Prop}
    (leads : ∀ calls : Calls, calls.names = Calls.Law.names law →
      machine.IsSettled calls machine.nextStorage →
        action.Leads machine (IsSettled calls machine.nextStorage) property) :
    action.Gives law machine property := by
  obtain ⟨calls, lawful, settled⟩ := obeys
  have within : action.LeadsIn (Calls.Law.permitted law) machine _ _ :=
    (leads calls (Calls.Law.same_names lawful) settled.raise).within
  exact (within.gives lawful).imp (fun _ obeysAfter => obeysAfter) fun _ _ _ holds => holds.1

theorem stays {action : Action Unit} (obeys : machine.Obeys law)
    (stays : ∀ calls floor, action.Stays calls floor fun _ _ => True) :
    action.Upholds law machine :=
  obeys.leads fun calls _ settled => stays calls _ machine settled

/-- A machine with the same stack, values and calls obeys the same law. -/
theorem change (obeys : machine.Obeys law) {after : Machine}
    (change : ∀ calls, machine.IsSettled calls 0 → after.IsSettled calls 0)
    (le : machine.nextStorage ≤ after.nextStorage) : after.Obeys law := by
  obtain ⟨calls, lawful, settled⟩ := obeys
  exact ⟨calls, Calls.Law.later lawful le, change calls settled⟩

theorem checkEditor (obeys : machine.Obeys law) : machine.checkEditor.Obeys law := by
  apply obeys.change fun calls settled => settled.checkEditor
  obtain ⟨editor, same, -⟩ := machine.exists_checkEditor
  rw [same]

theorem setEditor (obeys : machine.Obeys law) {editor : Editor}
    (unreserved : editor.name ∉ Calls.Law.names law) :
    ({ machine with editor := some editor } : Machine).Obeys law := by
  obtain ⟨calls, lawful, settled⟩ := obeys
  exact ⟨calls, lawful, settled.setEditor (Calls.Law.same_names lawful ▸ unreserved)⟩

theorem setFlag (obeys : machine.Obeys law) (flag : Nat) (value : Bool) :
    (machine.setFlag flag value).Obeys law :=
  obeys.change (fun _ settled => { settled with }) le_rfl

/-- Another library and another place in it. -/
theorem moved (obeys : machine.Obeys law) (library : Library) (program : Nat)
    (address : Option Nat) : ({ machine with library, program, address } : Machine).Obeys law :=
  obeys.change (fun _ settled => { settled with }) le_rfl

theorem skipLine (obeys : machine.Obeys law) : machine.skipLine.Obeys law := by
  rw [Machine.skipLine]
  split
  · split
    · exact obeys.change (fun _ settled => { settled with }) le_rfl
    · exact obeys
  · exact obeys

theorem leaveEnd (obeys : machine.Obeys law) : machine.leaveEnd.Obeys law := by
  rw [Machine.leaveEnd]
  split
  · split
    · exact obeys.change (fun _ settled => { settled with }) le_rfl
    · exact obeys
  · exact obeys

theorem purgeLevel_of_empty (obeys : machine.Obeys law) (empty : machine.returns.items = []) :
    (machine.purgeLevel 0).Obeys law := by
  obtain ⟨calls, lawful, settled⟩ := obeys
  have stored := Calls.Law.stored lawful
  have depth : machine.returns.depth = 0 := by rw [BoundedStack.depth, empty]; rfl
  have nothing : calls.kept = [] := by
    apply List.eq_nil_iff_forall_not_mem.mpr
    intro entry member
    have levels := stored.levels entry member
    rw [← settled.returns, depth] at levels
    omega
  have purged := settled.bindings.purgeFromLevel (show Variable.globalLevel < 0 by decide)
    stored.marked.hidesNothing
  rw [nothing] at purged
  refine ⟨calls, lawful, { settled with bindings := nothing ▸ purged.deepen ?_ }⟩
  rw [level]
  omega

/-- Going on in a program that has called. -/
theorem resume_program (obeys : machine.Obeys law) {frame : Frame} {index : Nat}
    (caller : frame.caller = .program index) (kind : ReturnKind) :
    (resume frame kind).Upholds law machine := by
  have resumed : ({ machine with program := index, address := frame.address } : Machine).Obeys law :=
    obeys.change (fun _ settled => { settled with }) le_rfl
  rw [resume, caller]
  refine leads_modify ?_
  have moved : (if kind = .no then
      ({ machine with program := index, address := frame.address } : Machine).skipLine
      else { machine with program := index, address := frame.address }).Obeys law := by
    split
    · exact resumed.skipLine
    · exact resumed
  exact leads_ite (fun _ => leads_fail moved rfl) fun _ => ⟨moved, trivial⟩

omit [Calls.Law law] in
theorem ordinary_x (obeys : machine.Obeys law) : IsOrdinary machine.stack.x := by
  obtain ⟨calls, -, settled⟩ := obeys
  exact (ends_x settled).isOrdinary

omit [Calls.Law law] in
theorem ordinary_resolve (obeys : machine.Obeys law) (argument : Argument) :
    IsOrdinary (machine.resolve argument) := by
  obtain ⟨calls, -, settled⟩ := obeys
  exact Machine.ordinary_resolve settled argument

end Machine.Obeys

/-! ## The calls of another machine -/

/-- Two machines in the same calls. -/
structure Machine.InSameCalls (machine other : Machine) : Prop where
  returns : other.returns = machine.returns
  solver : other.solver = machine.solver
  integrator : other.integrator = machine.integrator

/-- What stays in any calls changes neither the frames nor the searches. -/
theorem Machine.Obeys.leads_same {machine : Machine} {α : Type} {action : Action α}
    (obeys : machine.Obeys law) {property : α → Machine → Prop}
    (leads : ∀ calls : Calls, calls.names = Calls.Law.names law →
      machine.IsSettled calls machine.nextStorage →
        action.Leads machine (IsSettled calls machine.nextStorage) property) :
    action.Gives law machine fun result after => property result after ∧ machine.InSameCalls after := by
  obtain ⟨calls, lawful, settled⟩ := obeys
  have within : action.LeadsIn (Calls.Law.permitted law) machine _ _ :=
    (leads calls (Calls.Law.same_names lawful) settled.raise).within
  refine (within.gives lawful).imp (fun _ obeysAfter => obeysAfter)
    fun _ after _ ⟨holds, settledAfter⟩ => ⟨holds, ?_⟩
  exact ⟨settledAfter.returns.trans settled.returns.symm,
    settledAfter.solver.trans settled.solver.symm,
    settledAfter.integrator.trans settled.integrator.symm⟩

/-! ## Other return stacks -/

namespace Machine

variable {machine : Machine} {calls : Calls}

theorem inSameCalls_checkEditor (machine : Machine) : machine.InSameCalls machine.checkEditor := by
  obtain ⟨editor, same, -⟩ := machine.exists_checkEditor
  rw [same]
  exact ⟨rfl, rfl, rfl⟩

/-- Other calls of a machine, which leave free all storages that were free. -/
theorem IsSettled.transfer (settled : machine.IsSettled calls 0) {returns : Returns}
    {kept : List Variable} {bindings : Variables} {next : Nat}
    (settledBindings : bindings.IsSettled calls.names kept returns.depth
      (Calls.free { calls with returns, kept } next))
    (weaken : ∀ number, calls.free machine.nextStorage number →
      Calls.free { calls with returns, kept } next number)
    (taken : ∀ number ∈ Calls.taken { calls with returns, kept }, number < next) :
    ({ machine with bindings, returns, nextStorage := next } : Machine).IsSettled
      { calls with returns, kept } 0 :=
  { settled with
    returns := rfl
    bindings := settledBindings
    stack := fun item member => (settled.stack item member).imp weaken
    lastX := settled.lastX.imp weaken
    floor := Nat.zero_le _
    taken := taken }

/-- One more call, which keeps nothing yet. -/
theorem IsSettled.push (settled : machine.IsSettled calls 0) (frame : Frame) :
    ({ machine with
      returns := { machine.returns with items := frame :: machine.returns.items } } :
      Machine).IsSettled
      { calls with returns := { machine.returns with items := frame :: machine.returns.items } } 0 := by
  refine settled.transfer (settled.bindings.deepen ?_) (fun _ isFree => isFree) settled.taken
  simp [level, BoundedStack.depth]

/-- The call that is left takes with it what it kept and its locals. -/
theorem IsSettled.drop (settled : machine.IsSettled calls 0)
    (marked : Variables.IsSettled.Marked calls.kept) {frame : Frame} {rest : List Frame}
    (items : machine.returns.items = frame :: rest) :
    (({ machine with returns := { machine.returns with items := rest } } : Machine).purgeLevel
      machine.level).IsSettled
      { calls with
        returns := { machine.returns with items := rest }
        kept := calls.kept.filter fun entry => entry.level < machine.level } 0 := by
  have level : machine.level = rest.length + 1 := by simp [Machine.level, BoundedStack.depth, items]
  have sublist : List.Sublist (calls.kept.filter fun entry => entry.level < machine.level)
      calls.kept := List.filter_sublist
  have isLocal : globalLevel < machine.level := by
    rw [level, globalLevel]
    omega
  have purged := (settled.bindings.purgeFromLevel isLocal marked.hidesNothing).imp
    fun _ => Calls.free_of_sublist { machine.returns with items := rest } sublist
  rw [show machine.level - 1 = rest.length by rw [level, add_sub_cancel_right]] at purged
  exact settled.transfer purged (fun _ => Calls.free_of_sublist _ sublist) fun number member =>
    settled.taken number ((sublist.flatMap _).subset member)

/-- The topmost frame has no part in what holds of values. -/
theorem IsSettled.markTop (settled : machine.IsSettled calls 0) (change : Frame → Frame) :
    ({ machine with returns := machine.returns.modifyTop change } : Machine).IsSettled
      { calls with returns := machine.returns.modifyTop change } 0 := by
  refine settled.transfer ?_ (fun _ isFree => isFree) settled.taken
  rw [depth_modifyTop]
  exact settled.bindings

/-- The calls of a new machine, in which nothing is kept. -/
def initialCalls (names : List (List UInt8)) : Calls := ⟨.initial, [], names, default, default, []⟩

theorem isSettled_new {names : List (List UInt8)} (registers : registersName ∉ names) {memory : Nat}
    (room : memory ≤ Grid.sizeLimit) (generator : Generator) :
    (new memory generator).IsSettled (initialCalls names) 0 := by
  have settled : (newRegisters memory).IsSettled names [] 0 (IsFree [] 1) := by
    rw [newRegisters]
    split
    · next grid filled =>
        have small := Grid.ends_filled room 25 1 (Cell.number 0)
        rw [filled] at small
        have fits : (Value.realMatrix (some 0) grid).Fits (IsFree [] 1) := ⟨by simp [IsFree], small⟩
        exact ⟨List.pairwise_singleton .., by simp [globalLevel], by simp [Variable.isKept, registers],
          by simp [fits]⟩
    · exact ⟨List.Pairwise.nil, by simp [Variables.empty], rfl, by simp [Variables.empty]⟩
  exact {
    returns := rfl
    bindings := settled
    stack := fun value member => by
      rw [List.eq_of_mem_replicate member]
      exact Value.within_zero
    lastX := Value.within_zero
    floor := Nat.zero_le _
    taken := by simp [Calls.taken, initialCalls]
    editor := by simp [new]
    registers
    solver := rfl
    integrator := rfl
    keys := Nat.zero_le _
    errors := rfl
    memory := room }

end Machine

end Keystroke
