import Mathlib
import Keystroke.Proofs.Calls.Performed
import Keystroke.Proofs.Typing.Idle

/-!
# Printing the catalog

The catalog is printed one variable at a turn, and between two turns the host may do something else. What is
kept of the work is a place in the catalog. So variables are printed as they stand in the catalog at the start
as long as nothing is moved over that place.
-/

namespace Keystroke

open Keystroke.Action

/-- What tells a variable from the others. -/
def Variable.identity (entry : Variable) : List UInt8 × Int := (entry.name, entry.level)

namespace Machine

/-- The variables that are shown from the present level. -/
def catalog (machine : Machine) : List Variable := machine.bindings.visible machine.level

/-- The variables that are still to be printed. -/
def toCome (machine : Machine) : List Variable :=
  match machine.task with
  | some (.printingCatalog next) => machine.catalog.drop next
  | _ => []

/-- What the machine has told its host between two states. -/
def told (before after : Machine) : List HostCall :=
  (after.calls.take (after.calls.length - before.calls.length)).reverse

/-- The lines of a variable, as they go to the printer. -/
def printedCalls (flags : Flags) (entry : Variable) : List HostCall :=
  (valueLines flags (Text.ofBytes entry.name) entry.value).map fun line => .printed (Text.toBytes line)

/-- Which variables of a list are watched. -/
def watched (isWatched : List UInt8 × Int → Bool) (entries : List Variable) : List (List UInt8 × Int) :=
  (entries.map Variable.identity).filter isWatched

/-- A catalog that is being printed, and what its turns have told so far. The command is given to a machine
that has stopped. Between the turns the host does what leaves the work in progress, and leaves the watched
variables alone that are still to be printed. -/
inductive CatalogRun (isWatched : List UInt8 × Int → Bool) (start : Machine) : List HostCall → Machine → Prop
  | begin (stopped : start.isRunning = false) (noTask : start.task = none)
      (direct : start.isProgramming = false) (ready : start.printerReady = .ok true)
      (goesOn : (start.enterInstruction (.plain .printUser)).task ≠ none) :
      CatalogRun isWatched start (told start (start.enterInstruction (.plain .printUser)))
        (start.enterInstruction (.plain .printUser))
  | turn {calls : List HostCall} {machine : Machine} (earlier : CatalogRun isWatched start calls machine)
      (ready : machine.printerReady = .ok true) (goesOn : machine.turn.task ≠ none) :
      CatalogRun isWatched start (calls ++ told machine machine.turn) machine.turn
  | between {calls : List HostCall} {machine : Machine} (earlier : CatalogRun isWatched start calls machine)
      (input : Input) (goesOn : (machine.after input).task = machine.task)
      (keeps : watched isWatched (machine.after input).toCome = watched isWatched machine.toCome) :
      CatalogRun isWatched start calls (machine.after input)

variable {machine : Machine}

theorem tellLines_eq (machine : Machine) (lines : List String) :
    machine.tellLines lines = { machine with
      calls := (lines.map fun line => HostCall.printed (Text.toBytes line)).reverse ++ machine.calls } := by
  rw [tellLines]
  induction lines generalizing machine with
  | nil => rfl
  | cons line lines rest =>
    rw [List.foldl_cons, rest, tell]
    simp

theorem on_printCatalogFrom (ready : machine.printerReady = .ok true) (place : Nat) :
    (printCatalogFrom place).on machine = (.ok (),
      match machine.catalog[place]? with
      | none => machine
      | some entry => { machine with
          calls := (printedCalls machine.flags entry).reverse ++ machine.calls
          task := some (.printingCatalog (place + 1)) }) := by
  rw [printCatalogFrom, on_bind_ok (on_get _), on_bind, on_lift, ready]
  dsimp only
  rw [if_pos rfl]
  show Action.on (match machine.catalog[place]? with | none => _ | some entry => _) machine = _
  cases found : machine.catalog[place]? with
  | none => rfl
  | some entry =>
    dsimp only
    rw [tellLines_eq]
    rfl

theorem toCome_of_task {next : Nat} (task : machine.task = some (.printingCatalog next)) :
    machine.toCome = machine.catalog.drop next := by
  rw [toCome, task]

theorem told_of_calls {after : Machine} {calls : List HostCall}
    (more : after.calls = calls.reverse ++ machine.calls) : told machine after = calls := by
  simp [told, more]

/-- A turn prints the variable that is next, and goes on with the one behind it. -/
theorem turn_of_printing {next : Nat} (task : machine.task = some (.printingCatalog next))
    (ready : machine.printerReady = .ok true) :
    machine.turn =
      match machine.catalog[next]? with
      | none => { machine with task := none }
      | some entry => { machine with
          calls := (printedCalls machine.flags entry).reverse ++ machine.calls
          task := some (.printingCatalog (next + 1)) } := by
  rw [turn, task]
  show performing (printCatalogFrom next) { machine with task := none } = _
  rw [performing, @on_printCatalogFrom { machine with task := none } ready]
  rfl

/-- The command prints the first variable. -/
theorem enterInstruction_printUser (stopped : machine.isRunning = false) (noTask : machine.task = none)
    (direct : machine.isProgramming = false) (ready : machine.printerReady = .ok true)
    (goesOn : (machine.enterInstruction (.plain .printUser)).task ≠ none) :
    ∃ entry flags printsOnStop, machine.catalog[0]? = some entry ∧
      machine.enterInstruction (.plain .printUser) = { machine with
        flags
        printsOnStop
        calls := (printedCalls machine.flags entry).reverse ++ machine.calls
        task := some (.printingCatalog 1) } := by
  have performed : (perform (.plain .printUser) .none).on { machine with printsOnStop := machine.isTracing } =
      (.ok (), (match machine.catalog[0]? with
        | none => { machine with printsOnStop := machine.isTracing }
        | some entry => { machine with
            printsOnStop := machine.isTracing
            calls := (printedCalls machine.flags entry).reverse ++ machine.calls
            task := some (.printingCatalog 1) } : Machine).afterCommand .printUser) := by
    rw [perform, on_bind_ok (on_get _)]
    show ((printCatalogFrom 0) >>= _ : Action Unit).on _ = _
    rw [on_bind_ok (@on_printCatalogFrom { machine with printsOnStop := machine.isTracing } ready 0)]
    rfl
  have programs : machine.isProgramming = true → isAlwaysExecuted Opcode.printUser = true :=
    fun isProgramming => by rw [direct] at isProgramming; cases isProgramming
  rw [enterInstruction_of_performed stopped programs rfl Opcode.noConfusion performed] at goesOn ⊢
  cases found : machine.catalog[0]? with
  | none =>
    obtain ⟨_, _, _, same, -⟩ := exists_stop_eq
      (({ machine with printsOnStop := machine.isTracing } : Machine).afterCommand .printUser)
    have idle : (({ machine with printsOnStop := machine.isTracing } : Machine).afterCommand
        .printUser).isBusy = false := by
      show (machine.isRunning || machine.task.isSome) = false
      rw [stopped, noTask]
      rfl
    rw [found] at goesOn
    dsimp only at goesOn
    rw [if_neg (Bool.eq_false_iff.mp idle), same] at goesOn
    exact absurd rfl goesOn
  | some entry =>
    refine ⟨entry, machine.flags.set Flags.liftDisabled (Opcode.printUser).disablesLift, machine.isTracing,
      rfl, ?_⟩
    have busy (left : Machine) (printing : left.task = some (.printingCatalog 1)) : left.isBusy = true := by
      rw [isBusy, printing]
      exact Bool.or_true _
    dsimp only
    rw [if_pos (busy _ rfl)]
    rfl

/-! ## What is printed -/

variable {isWatched : List UInt8 × Int → Bool}

theorem watched_append (front behind : List Variable) :
    watched isWatched (front ++ behind) = watched isWatched front ++ watched isWatched behind := by
  simp [watched]

theorem drop_of_getElem? {entries : List Variable} {place : Nat} {entry : Variable}
    (found : entries[place]? = some entry) : entries.drop place = entry :: entries.drop (place + 1) := by
  obtain ⟨inside, rfl⟩ := List.getElem?_eq_some_iff.mp found
  exact List.drop_eq_getElem_cons inside

/-- What is printed and what is still to come are, of the watched variables, those of the catalog at the
start. -/
theorem CatalogRun.conserves {start : Machine} {calls : List HostCall}
    (run : CatalogRun isWatched start calls machine) :
    (∃ next, machine.task = some (.printingCatalog next)) ∧
      ∃ printed : List (Flags × Variable),
        calls = printed.flatMap (fun line => printedCalls line.1 line.2) ∧
        watched isWatched (printed.map (·.2)) ++ watched isWatched machine.toCome =
          watched isWatched start.catalog := by
  induction run with
  | begin stopped noTask direct ready goesOn =>
    obtain ⟨entry, flags, printsOnStop, found, same⟩ :=
      enterInstruction_printUser stopped noTask direct ready goesOn
    rw [same]
    refine ⟨⟨1, rfl⟩, [(start.flags, entry)], ?_, ?_⟩
    · rw [told_of_calls rfl]
      simp
    · rw [← watched_append]
      exact congrArg (watched isWatched) (drop_of_getElem? found).symm
  | @turn calls machine earlier ready goesOn before =>
    obtain ⟨⟨next, task⟩, printed, prints, conserved⟩ := before
    have same := turn_of_printing task ready
    cases found : machine.catalog[next]? with
    | none =>
      rw [found] at same
      exact absurd (by rw [same]) goesOn
    | some entry =>
      rw [found] at same
      rw [same]
      refine ⟨⟨next + 1, rfl⟩, printed ++ [(machine.flags, entry)], ?_, ?_⟩
      · rw [told_of_calls rfl, prints]
        simp
      · rw [← conserved, toCome_of_task task, drop_of_getElem? found, List.map_append, watched_append,
          List.append_assoc, ← watched_append]
        rfl
  | between earlier input goesOn keeps before =>
    obtain ⟨⟨next, task⟩, printed, prints, conserved⟩ := before
    exact ⟨⟨next, goesOn.trans task⟩, printed, prints, keeps ▸ conserved⟩

/-- As long as nothing is done to watched variables that are still to be printed, the turns print the watched
variables of the catalog at the start, each as often as it stands there and in the order of the table: so far
some of them, and all when the work ends. -/
theorem CatalogRun.printed_eq {start : Machine} {calls : List HostCall}
    (run : CatalogRun isWatched start calls machine) :
    ∃ printed : List (Flags × Variable),
      calls = printed.flatMap (fun line => printedCalls line.1 line.2) ∧
      watched isWatched (printed.map (·.2)) <+: watched isWatched start.catalog ∧
      (machine.printerReady = .ok true → machine.turn.task = none →
        told machine machine.turn = [] ∧
          watched isWatched (printed.map (·.2)) = watched isWatched start.catalog) := by
  obtain ⟨⟨next, task⟩, printed, prints, conserved⟩ := run.conserves
  refine ⟨printed, prints, ⟨_, conserved⟩, fun ready ends => ?_⟩
  have same := turn_of_printing task ready
  cases found : machine.catalog[next]? with
  | some entry =>
    rw [found] at same
    rw [same] at ends
    cases ends
  | none =>
    rw [found] at same
    rw [toCome_of_task task, List.drop_of_length_le (List.getElem?_eq_none_iff.mp found)] at conserved
    refine ⟨?_, by simpa [watched] using conserved⟩
    rw [same]
    exact told_of_calls rfl

/-- A machine with the variables A and B. -/
def withTwoVariables : Machine := { initial default with
  bindings := ⟨[⟨[65], Variable.globalLevel, 0, .zero⟩, ⟨[66], Variable.globalLevel, 0, .zero⟩]⟩ }

/-- The machine has printed A, and X is stored in B. -/
def withStoredVariable : Machine :=
  ((withTwoVariables.enterInstruction (.plain .printUser)).after (.press ⟨false, 7⟩)).after (.enter "\"B\"")

/-- Of two variables the second one gets another value before it is printed. -/
theorem printed_eq_storingBetween :
    ∃ calls, CatalogRun (fun _ => true) withTwoVariables calls withStoredVariable.turn ∧
      ∃ printed : List (Flags × Variable),
        calls = printed.flatMap (fun line => printedCalls line.1 line.2) ∧
        watched (fun _ => true) (printed.map (·.2)) =
          [([65], Variable.globalLevel), ([66], Variable.globalLevel)] := by
  have first := @CatalogRun.begin (fun _ => true) withTwoVariables rfl rfl rfl (by decide +kernel)
    (by decide +kernel)
  have pressed := first.between (.press ⟨false, 7⟩) (by decide +kernel) (by decide +kernel)
  have storing := pressed.between (.enter "\"B\"") (by decide +kernel) (by decide +kernel)
  have run := @CatalogRun.turn _ _ _ withStoredVariable storing (by decide +kernel) (by decide +kernel)
  obtain ⟨printed, prints, -, atEnd⟩ := run.printed_eq
  obtain ⟨-, same⟩ := atEnd (by decide +kernel) (by decide +kernel)
  exact ⟨_, run, printed, prints, same⟩

/-! ## What moves over the place -/

section

variable {after : Machine} {next place : Nat} (task : machine.task = some (.printingCatalog next))
  (goesOn : after.task = machine.task) (inFront : place < next)

include task goesOn inFront

/-- When a variable goes that stands in front of the place, the next variable is not printed. -/
theorem toCome_of_erased (erased : after.catalog = machine.catalog.eraseIdx place) :
    after.toCome = machine.toCome.tail := by
  rw [toCome_of_task task, toCome_of_task (goesOn.trans task), erased, List.tail_drop]
  apply List.ext_getElem?
  intro index
  rw [List.getElem?_drop, List.getElem?_drop, List.getElem?_eraseIdx, if_neg (by omega)]
  congr 1
  omega

/-- When a variable comes in front of the place, the one that was printed last is printed again. -/
theorem toCome_of_inserted {entry : Variable}
    (inserted : after.catalog = machine.catalog.insertIdx place entry) :
    after.toCome = machine.catalog.drop (next - 1) := by
  rw [toCome_of_task (goesOn.trans task), inserted]
  apply List.ext_getElem?
  intro index
  rw [List.getElem?_drop, List.getElem?_drop, List.getElem?_insertIdx, if_neg (by omega), if_neg (by omega)]
  congr 1
  omega

end

end Machine

end Keystroke
