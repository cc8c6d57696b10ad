import Mathlib
import Keystroke.Proofs.Calls.Reloads
import Keystroke.Proofs.FourLevels.Reachable
import Keystroke.Proofs.ProgramText

/-!
# What the reader has made sure of

A file may come from anywhere. Of a machine that was read it is known that its places are not behind the
ends of programs that exist, that its programs are complete instructions with one end, that its variables
are in the order of levels, and that its devices and registers have the sizes they must have. It is not
known that a place is the start of a line, nor that a level is not too deep.
-/

namespace Keystroke

/-- A place in a library: the top of a program, or an address that is not behind its end. -/
def Library.HasPlace (library : Library) (index : Nat) (address : Option Nat) : Prop :=
  ∃ program, library.get? index = some program ∧ ∀ place ∈ address, place ≤ program.endAddress

namespace StateFile

open Reader

/-- What a machine is like that was read from bytes of unknown origin. -/
structure IsChecked (machine : Machine) : Prop where
  place : machine.library.HasPlace machine.program machine.address
  /-- A frame of a program leads back to a place in it. -/
  frames : ∀ frame ∈ machine.returns.items, ∀ index, frame.caller = .program index →
    machine.library.HasPlace index frame.address
  depth : machine.returns.depth ≤ maximalReturns
  overflow : machine.returns.limit = maximalReturns ∧ machine.returns.overflow = .returnStackFull
  programs : ∀ program ∈ machine.library.programs, Program.EndsOnce program.text
  labels : machine.library = .ofPrograms machine.library.programs
  names : ∀ entry ∈ machine.bindings.entries, Variable.checkName entry.name = .ok ()
  ordered : machine.bindings.entries.Pairwise fun older newer => older.level ≤ newer.level
  /-- The editor points to something that can be edited. -/
  editor : ∀ editor ∈ machine.editor, machine.editorHasTarget editor = true
  stack : machine.stack.IsFitted
  alpha : machine.alpha.length ≤ Machine.maximalAlphaLength
  keys : machine.keys.keys.length ≤ KeyQueue.capacity
  /-- What the host was told before stays as it was, and there is no news. -/
  quiet : machine.hasNews = false

namespace Reader

variable {α β : Type} {property : α → Prop}

theorem Yields.imp {weaker : α → Prop} {reader : Reader α} (yields : reader.Yields property)
    (weaken : ∀ value, property value → weaker value) : reader.Yields weaker :=
  fun input value rest read => weaken value (yields input value rest read)

theorem yields_refuse : (refuse : Reader α).Yields property := fun _ _ _ read => by cases read

theorem yields_require (condition : Bool) : (require condition).Yields fun _ => condition = true := by
  rw [require]
  split
  · exact yields_pure ‹_›
  · exact yields_refuse

theorem yields_sound (outcome : Outcome α) : (sound outcome).Yields fun value => outcome = .ok value := by
  cases outcome with
  | ok value => exact yields_pure rfl
  | error _ => exact yields_refuse

theorem yields_many_go {reader : Reader α} (yields : reader.Yields property) (count : Nat)
    {reversed : List α} (before : ∀ value ∈ reversed, property value) :
    (many.go reader count reversed).Yields fun values => ∀ value ∈ values, property value := by
  induction count generalizing reversed with
  | zero => exact yields_pure fun value member => before value (List.mem_reverse.mp member)
  | succ count ih =>
      refine yields.bind fun value holds => ih fun other member => ?_
      rcases List.mem_cons.mp member with rfl | member
      · exact holds
      · exact before other member

theorem yields_counted {reader : Reader α} (yields : reader.Yields property) :
    (counted reader).Yields fun values => ∀ value ∈ values, property value :=
  yields_then fun count => yields_many_go yields count fun _ member => absurd member List.not_mem_nil

/-! ## The parts of a machine -/

theorem yields_keys : keys.Yields fun queue => queue.keys.length ≤ KeyQueue.capacity :=
  yields_then fun _ => yields_then fun _ =>
    (yields_require _).bind fun _ fits => yields_pure (of_decide_eq_true fits)

theorem yields_alpha : alpha.Yields fun text => text.length ≤ Machine.maximalAlphaLength :=
  yields_then fun _ => (yields_require _).bind fun _ fits => yields_pure (of_decide_eq_true fits)

theorem yields_name : name.Yields fun name => Variable.checkName name = .ok () :=
  yields_then fun _ => (yields_sound _).bind fun _ fits => yields_pure fits

theorem yields_variableEntry (context : ReaderContext) :
    (variableEntry context).Yields fun entry => Variable.checkName entry.name = .ok () :=
  yields_name.bind fun name fits => by
    split
    · exact yields_then fun _ => yields_then fun _ => yields_then fun _ => yields_then fun _ => yields_pure fits
    · exact yields_then fun _ => yields_then fun _ => yields_pure fits

theorem yields_program : Reader.program.Yields fun program => Program.EndsOnce program.text := by
  refine yields_then fun text => yields_then fun bits => ?_
  refine (yields_sound _).imp fun program checked => ?_
  rw [Program.ofBytes] at checked
  cases check : Program.check text 0 false with
  | error _ => simp [check, bind, Except.bind] at checked
  | ok _ =>
      obtain rfl : _ = program := by simpa [check, bind, Except.bind, pure, Except.pure] using checked
      exact Program.check_eq_ok_iff.mp check

theorem hasPlace_of_isPlace {library : Library} {index : Nat} {address : Option Nat}
    (inside : isPlace library index address = true) : library.HasPlace index address := by
  unfold isPlace at inside
  split at inside
  · cases inside
  · next found => exact ⟨_, found, by simp⟩
  · next program place found => exact ⟨program, found, by simpa using inside⟩

theorem yields_frame (version : Nat) (library : Library) :
    (frame version library).Yields fun frame =>
      ∀ index, frame.caller = .program index → library.HasPlace index frame.address := by
  have marked {plain : Frame}
      (inside : ∀ index, plain.caller = .program index → library.HasPlace index plain.address) :
      (if holdsLevels version then return plain.withBits (← byte) else return plain : Reader Frame).Yields
        fun frame => ∀ index, frame.caller = .program index → library.HasPlace index frame.address := by
    split
    · exact yields_then fun _ => yields_pure inside
    · exact yields_pure inside
  refine yields_then fun code => yields_then fun caller => yields_then fun address => ?_
  cases caller with
  | program index =>
      refine (yields_require _).bind fun _ inside => marked fun other same => ?_
      cases same
      exact hasPlace_of_isPlace inside
  | solver => exact marked fun _ other => by cases other
  | integrator => exact marked fun _ other => by cases other

/-- A return stack that is read is not too deep, and its frames lead back to places. -/
theorem yields_returns (version : Nat) (library : Library) :
    (returns version library).Yields fun returns =>
      (∀ frame ∈ returns.items, ∀ index, frame.caller = .program index →
        library.HasPlace index frame.address) ∧
      returns.depth ≤ maximalReturns ∧ returns.limit = maximalReturns ∧
        returns.overflow = .returnStackFull := by
  refine (yields_counted (yields_frame version library)).bind fun frames inside => ?_
  refine (yields_sound _).imp fun returns pushed => ?_
  obtain ⟨rfl, depth⟩ := of_foldlM_push (Nat.zero_le _) pushed
  refine ⟨fun frame member => inside frame ?_, depth, rfl, rfl⟩
  simpa [Returns.initial, BoundedStack.empty] using member

/-! ## Files -/

/-- Only the editor is not yet checked. -/
theorem yields_checkedBody (context : ReaderContext) : (body context).Yields fun machine =>
    ∀ editor, (∀ pointed ∈ editor, machine.editorHasTarget pointed = true) →
      IsChecked { machine with editor } := by
  rw [body]
  iterate 10 refine yields_then fun _ => ?_
  refine yields_keys.bind fun keys fitKeys => ?_
  iterate 4 refine yields_then fun _ => ?_
  refine (yields_stack context).bind fun stack fitted => yields_then fun lastX => ?_
  refine yields_alpha.bind fun alpha fitAlpha => yields_then fun flags => ?_
  refine (yields_counted (yields_variableEntry context)).bind fun entries named => ?_
  refine (yields_sound _).bind fun bindings isTable => ?_
  refine (yields_counted yields_program).bind fun programs ended => ?_
  refine (yields_sound _).bind fun library isLibrary => ?_
  refine (yields_require _).bind fun _ inside => ?_
  refine (yields_returns _ library).bind fun returns described => ?_
  obtain ⟨frames, depth, overflow⟩ := described
  iterate 3 refine yields_then fun _ => ?_
  obtain ⟨inOrder, rfl⟩ := ofList_eq_ok isTable
  obtain rfl := eq_ofPrograms_of_ofList isLibrary
  exact yields_pure fun editor hasTarget =>
    { place := hasPlace_of_isPlace inside
      frames
      depth
      overflow
      programs := ended
      labels := rfl
      names := named
      ordered := Variables.inLevelOrder_iff.mp inOrder
      editor := hasTarget
      stack := fitted
      alpha := fitAlpha
      keys := fitKeys
      quiet := rfl }

theorem yields_checkedFile (context : ReaderContext) : (file context).Yields IsChecked := by
  rw [file]
  iterate 5 refine yields_then fun _ => ?_
  refine (yields_checkedBody context).bind fun machine checked => yields_then fun _ => yields_pure ?_
  obtain ⟨editor, same, active⟩ := machine.exists_checkEditor
  rw [same]
  exact checked editor fun pointed isPointed => (active pointed isPointed).2

end Reader

theorem isChecked_of_read? {version : Nat} {bytes : List UInt8} {machine : Machine}
    (read : read? version bytes = some machine) : IsChecked machine := by
  rw [read?] at read
  split at read
  · next found left ran =>
      cases read
      exact yields_checkedFile _ _ _ _ ran
  · obtain ⟨result, ran, rfl⟩ := Option.map_eq_some_iff.mp read
    cases outcome : (file ⟨version, true⟩).run { bytes } with
    | error damage => simp [outcome, Except.toOption] at ran
    | ok found =>
        obtain rfl : found = result := by simpa [outcome, Except.toOption] using ran
        exact yields_checkedFile _ _ _ _ outcome
  · cases read

/-- Whatever the bytes are and whichever layout they are said to be in: a machine that is loaded is checked.
Otherwise the machine is made new, or for a layout from the future stays as it is. -/
theorem checked_or_reset_of_load (version : Nat) (bytes : List UInt8) (generator : Generator)
    (machine : Machine) :
    match load version bytes generator machine with
    | (.loaded, after) => IsChecked after
    | (.damaged, after) => after = machine.reset generator
    | (.tooNew, after) => after = machine := by
  rw [load]
  split_ifs
  · rfl
  cases found : read? version bytes with
  | none => rfl
  | some read => exact { isChecked_of_read? found with }

end StateFile

end Keystroke
