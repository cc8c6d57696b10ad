import Mathlib
import Keystroke.Proofs.Actions
import Keystroke.Proofs.Calls.Table

/-!
# Machines between calls

What holds of a machine as long as nothing is called and nothing returns: the return stack, what the
calls keep, the searches that wait for a return and the errors so far stay as they are, and all other
values keep to free storages.
-/

namespace Keystroke

open Variable (globalLevel)
open Outcome

/-- The storages of the lists that make up what a call keeps, but not of what is in them. -/
def Value.ownStorages : Value → List Nat
  | .list (some storage) [_] => [storage]
  | .list (some storage) [_, .list (some inner) _, _, _, _, _] => [storage, inner]
  | .list (some storage) [_, _, _, _, _, .list (some inner) _] => [storage, inner]
  | _ => []

/-- The calls of a machine and what only they change. -/
structure Calls where
  returns : Returns
  kept : List Variable
  /-- The names of the variables in which calls keep things. -/
  names : List (List UInt8)
  solver : Solver
  integrator : Integrator
  errors : List Error

/-- The storages that are taken by what the calls keep. -/
def Calls.taken (calls : Calls) : List Nat := calls.kept.flatMap fun entry => entry.value.ownStorages

/-- A storage that was given out and is not taken. -/
def IsFree (taken : List Nat) (bound number : Nat) : Prop :=
  number < bound ∧ number ∉ taken

/-- The storages that values outside of the calls may have. -/
def Calls.free (calls : Calls) (bound : Nat) : Nat → Prop := IsFree calls.taken bound

theorem IsFree.later {taken : List Nat} {bound later number : Nat} (isFree : IsFree taken bound number)
    (le : bound ≤ later) : IsFree taken later number :=
  ⟨isFree.1.trans_le le, isFree.2⟩

/-- A free storage is still free after one behind it was taken. -/
theorem IsFree.take {taken : List Nat} {bound number : Nat}
    (isFree : IsFree taken bound number) {other later : Nat} (lt : number < other)
    (le : bound ≤ later) : IsFree (other :: taken) later number :=
  ⟨isFree.1.trans_le le, List.not_mem_cons_of_ne_of_not_mem lt.ne isFree.2⟩

theorem Calls.free_mono (calls : Calls) {bound later : Nat} (le : bound ≤ later) (number : Nat)
    (isFree : calls.free bound number) : calls.free later number :=
  IsFree.later isFree le

/-- A value that keeps to free storages does so when more are given out. -/
theorem Value.Within.later {shape : Nat → Nat → Prop} {calls : Calls} {bound later : Nat} {value : Value}
    (within : value.Within shape (calls.free bound)) (le : bound ≤ later) :
    value.Within shape (calls.free later) :=
  within.imp (calls.free_mono le)

/-- All values of a stack keep to free storages and to such dimensions. -/
def Stack.Within (shape : Nat → Nat → Prop) (free : Nat → Prop) (stack : Stack) : Prop :=
  ∀ value ∈ stack.values, value.Within shape free

/-- All values of a stack fit. -/
abbrev Stack.Fits (free : Nat → Prop) (stack : Stack) : Prop := stack.Within Grid.IsSmall free

/-- A machine that is in the given calls. -/
structure Machine.IsSettled (calls : Calls) (floor : Nat) (machine : Machine) : Prop where
  returns : machine.returns = calls.returns
  bindings : machine.bindings.IsSettled calls.names calls.kept machine.level
    (calls.free machine.nextStorage)
  stack : machine.stack.Fits (calls.free machine.nextStorage)
  lastX : machine.lastX.Fits (calls.free machine.nextStorage)
  floor : floor ≤ machine.nextStorage
  taken : ∀ number ∈ calls.taken, number < machine.nextStorage
  editor : ∀ editor ∈ machine.editor, editor.name ∉ calls.names
  registers : registersName ∉ calls.names
  solver : machine.solver = calls.solver
  integrator : machine.integrator = calls.integrator
  keys : machine.keys.keys.length ≤ KeyQueue.capacity
  errors : machine.errors = calls.errors
  /-- There is memory for no more than fits a state file. -/
  memory : machine.memory ≤ Grid.sizeLimit

namespace Machine.IsSettled

variable {calls : Calls} {floor : Nat} {machine : Machine}

theorem globalLevel_le (machine : Machine) : globalLevel ≤ machine.level := by
  rw [globalLevel, level]
  omega

/-- Nothing that was given out is forgotten. -/
theorem raise (settled : machine.IsSettled calls floor) :
    machine.IsSettled calls machine.nextStorage :=
  { settled with floor := le_rfl }

theorem lower (settled : machine.IsSettled calls floor) {lower : Nat} (le : lower ≤ floor) :
    machine.IsSettled calls lower :=
  { settled with floor := le.trans settled.floor }

/-- The same machine after storages were given out. -/
theorem giveOut (settled : machine.IsSettled calls floor) {next : Nat}
    (le : machine.nextStorage ≤ next) :
    ({ machine with nextStorage := next } : Machine).IsSettled calls floor :=
  { settled with
    bindings := settled.bindings.imp (calls.free_mono le)
    stack := fun value member => (settled.stack value member).later le
    lastX := settled.lastX.later le
    floor := settled.floor.trans le
    taken := fun number member => (settled.taken number member).trans_le le }

end Machine.IsSettled

/-! ## Actions -/

/-- What holds when an action is done to a machine: one thing of the machine that is left, and another
of a result and this machine. An error is of a permitted class. -/
def Action.LeadsIn {α : Type} (permitted : Error → Prop) (action : Action α) (machine : Machine)
    (always : Machine → Prop) (property : α → Machine → Prop) : Prop :=
  always (action.on machine).2 ∧
    EndsIn permitted (fun result => property result (action.on machine).2) (action.on machine).1

/-- What holds when an action is done to a machine and any error is ordinary. -/
abbrev Action.Leads {α : Type} (action : Action α) (machine : Machine) (always : Machine → Prop)
    (property : α → Machine → Prop) : Prop :=
  action.LeadsIn Error.IsOrdinary machine always property

/-- An action that stays in the given calls. Its result has a property that may depend on the storages
given out so far. -/
def Action.Stays {α : Type} (action : Action α) (calls : Calls) (floor : Nat)
    (property : Nat → α → Prop) : Prop :=
  ∀ machine : Machine, machine.IsSettled calls floor →
    action.Leads machine (Machine.IsSettled calls floor) fun result after =>
      property after.nextStorage result

namespace Action

variable {α β : Type} {permitted : Error → Prop} {machine : Machine} {always : Machine → Prop}
  {property : α → Machine → Prop} {final : β → Machine → Prop}

theorem LeadsIn.bind {action : Action α} {next : α → Action β}
    (leads : action.LeadsIn permitted machine always property)
    (leadsNext : ∀ result after, always after → property result after →
      (next result).LeadsIn permitted after always final) :
    (action >>= next).LeadsIn permitted machine always final := by
  obtain ⟨afterwards, ends⟩ := leads
  rw [LeadsIn, on_bind]
  rcases run : action.on machine with ⟨error | result, after⟩
  · rw [run] at afterwards ends
    exact ⟨afterwards, ends⟩
  · rw [run] at afterwards ends
    exact leadsNext result after afterwards ends

/-- A sequence, where the second part may depend on how the first was left. -/
theorem LeadsIn.bind_run {action : Action α} {next : α → Action β}
    (leads : action.LeadsIn permitted machine always property)
    (leadsNext : ∀ result after, action.on machine = (.ok result, after) → always after →
      (next result).LeadsIn permitted after always final) :
    (action >>= next).LeadsIn permitted machine always final := by
  obtain ⟨afterwards, ends⟩ := leads
  rw [LeadsIn, on_bind]
  rcases run : action.on machine with ⟨error | result, after⟩
  · rw [run] at afterwards ends
    exact ⟨afterwards, ends⟩
  · rw [run] at afterwards
    exact leadsNext result after run afterwards

/-- What holds of a result and the machine that is left with it. -/
theorem LeadsIn.of_ok {action : Action α} (leads : action.LeadsIn permitted machine always property)
    {result : α} {left : Machine} (ran : action.on machine = (.ok result, left)) :
    always left ∧ property result left := by
  rwa [LeadsIn, ran] at leads

/-- What holds of an error and the machine that is left with it. -/
theorem LeadsIn.of_error {action : Action α}
    (leads : action.LeadsIn permitted machine always property) {error : Error} {left : Machine}
    (ran : action.on machine = (.error error, left)) : always left ∧ permitted error := by
  rwa [LeadsIn, ran] at leads

theorem LeadsIn.imp {weaker : Machine → Prop} {other : α → Machine → Prop} {action : Action α}
    (leads : action.LeadsIn permitted machine always property)
    (weaken : ∀ after, always after → weaker after)
    (weakenResult : ∀ result after, always after → property result after → other result after) :
    action.LeadsIn permitted machine weaker other :=
  ⟨weaken _ leads.1, leads.2.imp fun result holds => weakenResult result _ leads.1 holds⟩

/-- Ordinary errors are permitted in any class. -/
theorem LeadsIn.within [Error.IsClass permitted] {action : Action α}
    (leads : action.Leads machine always property) :
    action.LeadsIn permitted machine always property :=
  ⟨leads.1, leads.2.within⟩

theorem leads_get {next : Machine → Action β} (leads : (next machine).LeadsIn permitted machine always final) :
    (get >>= next).LeadsIn permitted machine always final := by
  rwa [LeadsIn, on_bind, on_get]

theorem leads_modify {change : Machine → Machine} {next : Unit → Action β}
    (leads : (next ()).LeadsIn permitted (change machine) always final) :
    (modify change >>= next).LeadsIn permitted machine always final :=
  leads

theorem leads_set {after : Machine} {next : Unit → Action β}
    (leads : (next ()).LeadsIn permitted after always final) :
    (set after >>= next).LeadsIn permitted machine always final :=
  leads

theorem leads_liftIn {outcome : Outcome α} {always' : α → Prop} {next : α → Action β}
    (holds : always machine) (ends : EndsIn permitted always' outcome)
    (leads : ∀ result, always' result → (next result).LeadsIn permitted machine always final) :
    ((liftM outcome : Action α) >>= next).LeadsIn permitted machine always final := by
  rw [LeadsIn, on_bind, on_lift]
  cases outcome with
  | ok result => exact leads result ends
  | error error => exact ⟨holds, ends⟩

theorem leads_lift [Error.IsClass permitted] {outcome : Outcome α} {always' : α → Prop}
    {next : α → Action β} (holds : always machine) (ends : Ends always' outcome)
    (leads : ∀ result, always' result → (next result).LeadsIn permitted machine always final) :
    ((liftM outcome : Action α) >>= next).LeadsIn permitted machine always final :=
  leads_liftIn holds ends.within leads

theorem leads_fail [Error.IsClass permitted] (holds : always machine) {kind : ErrorKind}
    (found : (kind == .returnLost) = false) :
    (liftM (fail kind : Outcome α) : Action α).LeadsIn permitted machine always property :=
  ⟨holds, ends_fail found⟩

theorem leads_failWith (holds : always machine) (kind : ErrorKind) {detail : String}
    (allowed : permitted ⟨kind, detail⟩) :
    (liftM (failWith kind detail : Outcome α) : Action α).LeadsIn permitted machine always property :=
  ⟨holds, allowed⟩

theorem leads_throw (holds : always machine) {error : Error} (allowed : permitted error) :
    (throw error : Action α).LeadsIn permitted machine always property :=
  ⟨holds, allowed⟩

theorem leads_ite {condition : Prop} [Decidable condition] {first second : Action α}
    (yes : condition → first.LeadsIn permitted machine always property)
    (no : ¬ condition → second.LeadsIn permitted machine always property) :
    (if condition then first else second).LeadsIn permitted machine always property := by
  split
  · exact yes ‹_›
  · exact no ‹_›

/-- What an action does may be shown for all storages that were given out before it. -/
theorem leads_raise {calls : Calls} {floor : Nat} {action : Action α}
    (settled : machine.IsSettled calls floor)
    (leads : action.Leads machine (Machine.IsSettled calls machine.nextStorage) property) :
    action.Leads machine (Machine.IsSettled calls floor) property :=
  leads.imp (fun _ settledAfter => settledAfter.lower settled.floor) fun _ _ _ holds => holds

section Stays

variable {calls : Calls} {floor : Nat} {property : Nat → α → Prop} {final : Nat → β → Prop}

theorem Stays.bind {action : Action α} {next : α → Action β}
    (stays : action.Stays calls floor property)
    (staysNext : ∀ bound result, floor ≤ bound → property bound result →
      (next result).Stays calls bound final) :
    (action >>= next).Stays calls floor final := by
  intro machine settled
  refine (stays machine settled).bind fun result after settledAfter holds => ?_
  exact (staysNext after.nextStorage result settledAfter.floor holds after settledAfter.raise).imp
    (fun last settledLast => settledLast.lower settledAfter.floor) fun _ _ _ holds => holds

theorem Stays.imp {weaker : Nat → α → Prop} {action : Action α}
    (stays : action.Stays calls floor property)
    (weaken : ∀ bound result, floor ≤ bound → property bound result → weaker bound result) :
    action.Stays calls floor weaker := fun machine settled =>
  (stays machine settled).imp (fun _ settled => settled) fun result after settledAfter holds =>
    weaken after.nextStorage result settledAfter.floor holds

theorem stays_pure {result : α} (holds : ∀ bound, floor ≤ bound → property bound result) :
    (pure result : Action α).Stays calls floor property := fun _ settled =>
  ⟨settled, holds _ settled.floor⟩

/-- Looking at the machine. What it holds keeps to the storages given out so far. -/
theorem stays_get {next : Machine → Action β}
    (stays : ∀ machine : Machine, machine.IsSettled calls machine.nextStorage →
      (next machine).Stays calls machine.nextStorage final) :
    (get >>= next).Stays calls floor final := by
  intro machine settled
  exact leads_get ((stays machine settled.raise machine settled.raise).imp
    (fun last settledLast => settledLast.lower settled.floor) fun _ _ _ holds => holds)

theorem stays_lift {outcome : Outcome α} {always : α → Prop} {next : α → Action β}
    (ends : Ends always outcome)
    (stays : ∀ result, always result → (next result).Stays calls floor final) :
    ((liftM outcome : Action α) >>= next).Stays calls floor final :=
  fun machine settled => leads_lift settled ends fun result holds => stays result holds machine settled

theorem stays_outcome {outcome : Outcome α} {always : α → Prop} (ends : Ends always outcome) :
    (liftM outcome : Action α).Stays calls floor fun _ => always :=
  fun _ settled => ⟨settled, ends.within⟩

theorem stays_set {after : Machine} (settled : after.IsSettled calls floor) :
    (set after : Action Unit).Stays calls floor fun _ _ => True :=
  fun _ _ => ⟨settled, trivial⟩

theorem stays_modify {change : Machine → Machine}
    (stays : ∀ machine, machine.IsSettled calls floor → (change machine).IsSettled calls floor) :
    (modify change : Action Unit).Stays calls floor fun _ _ => True :=
  fun machine settled => ⟨stays machine settled, trivial⟩

theorem stays_modify_then {change : Machine → Machine} {next : Unit → Action β}
    (staysNext : (next ()).Stays calls floor final)
    (stays : ∀ machine, machine.IsSettled calls floor → (change machine).IsSettled calls floor) :
    (modify change >>= next).Stays calls floor final :=
  fun machine settled => leads_modify (staysNext (change machine) (stays machine settled))

theorem stays_fail {kind : ErrorKind} (found : (kind == .returnLost) = false) :
    (liftM (fail kind : Outcome α) : Action α).Stays calls floor property :=
  fun _ settled => leads_fail settled found

theorem stays_ite {condition : Prop} [Decidable condition] {first second : Action α}
    (yes : condition → first.Stays calls floor property)
    (no : ¬ condition → second.Stays calls floor property) :
    (if condition then first else second).Stays calls floor property := by
  split
  · exact yes ‹_›
  · exact no ‹_›

end Stays

end Action

/-! ## Storages -/

mutual

/-- Numbering a value gives it storages that are not taken. -/
theorem Value.fits_numbered {taken : List Nat} {next : Nat}
    (unused : ∀ number ∈ taken, number < next) : (value : Value) → value.Fits (IsFree taken next) →
    next ≤ (value.numbered next).2 ∧
      (value.numbered next).1.Fits (IsFree taken (value.numbered next).2)
  | .realMatrix none grid, fits | .complexMatrix none grid, fits =>
    ⟨Nat.le_succ next, fun number given => by
      obtain rfl := Option.mem_some.mp given
      exact ⟨Nat.lt_succ_self _, fun member => (unused _ member).false⟩, fits.2⟩
  | .list none items, fits => by
    obtain ⟨le, fit⟩ := Value.allFit_allNumbered unused items fits.2
    rw [Value.numbered]
    refine ⟨le.trans (Nat.le_succ _), fun number given => ?_, ?_⟩
    · obtain rfl := Option.mem_some.mp given
      exact ⟨Nat.lt_succ_self _, fun member => (unused _ member).not_ge le⟩
    · exact AllWithin.imp (fun _ isFree => isFree.later (Nat.le_succ _)) fit
  | .realMatrix (some storage) grid, fits => ⟨le_rfl, fits⟩
  | .complexMatrix (some storage) grid, fits => ⟨le_rfl, fits⟩
  | .list (some storage) items, fits => ⟨le_rfl, fits⟩
  | .null, _ | .real _, _ | .complex _, _ | .text _, _ => ⟨le_rfl, trivial⟩

theorem Value.allFit_allNumbered {taken : List Nat} {next : Nat}
    (unused : ∀ number ∈ taken, number < next) : (values : List Value) →
    AllFit (IsFree taken next) values →
    next ≤ (Value.allNumbered next values).2 ∧
      AllFit (IsFree taken (Value.allNumbered next values).2) (Value.allNumbered next values).1
  | [], _ => ⟨le_rfl, trivial⟩
  | value :: rest, ⟨fits, fit⟩ => by
    obtain ⟨le, fitsValue⟩ := Value.fits_numbered unused value fits
    obtain ⟨leRest, fitRest⟩ := Value.allFit_allNumbered
      (fun number member => (unused number member).trans_le le) rest
      (AllWithin.imp (fun _ isFree => isFree.later le) fit)
    rw [Value.allNumbered]
    exact ⟨le.trans leRest, fitsValue.imp fun _ isFree => isFree.later leRest, fitRest⟩

end

namespace Machine

variable {calls : Calls} {floor : Nat}

theorem leads_adopt {α : Type} {permitted : Error → Prop} {machine : Machine}
    {always : Machine → Prop} {property : α → Machine → Prop} {value : Value}
    {next : Value → Action α}
    (leads : (next (value.numbered machine.nextStorage).1).LeadsIn permitted
      { machine with nextStorage := (value.numbered machine.nextStorage).2 } always property) :
    (adopt value >>= next).LeadsIn permitted machine always property := by
  rwa [Action.LeadsIn, Action.on_bind,
    show (adopt value).on machine = (.ok (value.numbered machine.nextStorage).1,
      { machine with nextStorage := (value.numbered machine.nextStorage).2 }) from rfl]

theorem leads_newStorage {α : Type} {permitted : Error → Prop} {machine : Machine}
    {always : Machine → Prop} {property : α → Machine → Prop} {count : Nat} {next : Nat → Action α}
    (leads : (next machine.nextStorage).LeadsIn permitted
      { machine with nextStorage := machine.nextStorage + count } always property) :
    (newStorage count >>= next).LeadsIn permitted machine always property :=
  leads

theorem stays_adopt {value : Value} (fits : value.Fits (calls.free floor)) :
    (adopt value).Stays calls floor fun bound value => value.Fits (calls.free bound) := by
  intro machine settled
  obtain ⟨le, fitsNumbered⟩ := Value.fits_numbered settled.taken value (fits.later settled.floor)
  exact ⟨settled.giveOut le, fitsNumbered⟩

end Machine

end Keystroke
