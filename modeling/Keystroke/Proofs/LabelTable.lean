import Keystroke.Program.Library
import Keystroke.Proofs.ProgramText

/-!
# The label table

The table of a library lists labels and ends by program and address. Moving the lines behind an edit
moves exactly the entries that are at or behind it, and the last entry with a name is the label that
counts.
-/

namespace Keystroke

namespace Library

/-! ## Entries of one program -/

theorem labelOfLine?_eq_some {program : Nat} {line : Nat × Codec.Decoded} {label : Label}
    (entry : labelOfLine? program line = some label) :
    label.program = program ∧ label.address = line.1 := by
  simp only [labelOfLine?] at entry
  split at entry
  · obtain ⟨name, -, rfl⟩ := Option.map_eq_some_iff.mp entry
    exact ⟨rfl, rfl⟩
  · split at entry
    · obtain rfl := Option.some.inj entry
      exact ⟨rfl, rfl⟩
    · cases entry

/-- A named entry is a global label with this name. -/
theorem labelOfLine?_eq_name {program : Nat} {line : Nat × Codec.Decoded} {name : List UInt8}
    {place : Nat × Nat} :
    labelOfLine? program line = some ⟨some name, place.1, place.2⟩ ↔
      line.2.instruction = ⟨.label, .direct (.text name)⟩ ∧ place = (program, line.1) := by
  obtain ⟨address, ⟨opcode, argument⟩, length, cache⟩ := line
  obtain ⟨ofProgram, ofAddress⟩ := place
  simp only [labelOfLine?, Instruction.isGlobalLabel, Prod.mk.injEq, Instruction.mk.injEq]
  split
  · next bytes isLabel =>
      obtain ⟨rfl, rfl⟩ := Instruction.mk.inj isLabel
      simp [Argument.text?, eq_comm]
  · next noLabel =>
      have other : ¬(opcode = .label ∧ argument = .direct (.text name)) := by
        rintro ⟨rfl, rfl⟩
        exact noLabel name rfl
      simp [other]

/-- The same line further behind has the same entry there. -/
theorem labelOfLine?_add (program address distance : Nat) (decoded : Codec.Decoded) :
    labelOfLine? program (address + distance, decoded.movedBy (address + distance)) =
      (labelOfLine? program (address, decoded.movedBy address)).map
        fun label => { label with address := label.address + distance } := by
  simp only [labelOfLine?, Codec.Decoded.movedBy_instruction]
  by_cases isLabel : decoded.instruction.isGlobalLabel
  · simp [isLabel, Function.comp_def]
  · by_cases isEnd : decoded.instruction.isEnd <;> simp [isLabel, isEnd]

theorem filterMap_placed_add (program address distance : Nat) (chunks : List (List UInt8)) :
    (Program.placed (address + distance) chunks).filterMap (labelOfLine? program) =
      ((Program.placed address chunks).filterMap (labelOfLine? program)).map
        fun label => { label with address := label.address + distance } := by
  induction chunks generalizing address with
  | nil => rfl
  | cons chunk chunks ih =>
      rw [Program.placed, Program.placed, List.filterMap_cons, List.filterMap_cons,
        labelOfLine?_add, Nat.add_right_comm, ih]
      cases labelOfLine? program (address, (Codec.decode chunk 0).movedBy address) <;> rfl

theorem mem_filterMap_placed {program address : Nat} {chunks : List (List UInt8)} {label : Label}
    (member : label ∈ (Program.placed address chunks).filterMap (labelOfLine? program)) :
    ∃ line ∈ Program.placed address chunks, label.program = program ∧ label.address = line.1 := by
  obtain ⟨line, isPlaced, entry⟩ := List.mem_filterMap.mp member
  exact ⟨line, isPlaced, labelOfLine?_eq_some entry⟩

/-! ## Entries of several programs -/

theorem labelsFrom_append (first : Nat) (front back : List Program) :
    labelsFrom first (front ++ back) =
      labelsFrom first front ++ labelsFrom (first + front.length) back := by
  induction front generalizing first with
  | nil => rfl
  | cons program front ih =>
      simp [labelsFrom, ih, Nat.add_comm, Nat.add_left_comm]

/-- Only the lines of programs are in their label table. -/
theorem labelsFrom_congr {programs others : List Program}
    (lines : programs.map Program.lines = others.map Program.lines) (first : Nat) :
    labelsFrom first programs = labelsFrom first others := by
  induction programs generalizing others first with
  | nil =>
      obtain rfl := List.map_eq_nil_iff.mp lines.symm
      rfl
  | cons program programs ih =>
      obtain ⟨other, others, rfl, same, rest⟩ := List.map_eq_cons_iff.mp lines.symm
      rw [labelsFrom, labelsFrom, same, ih rest.symm]

theorem mem_labelsFrom {first : Nat} {programs : List Program} {label : Label} :
    label ∈ labelsFrom first programs ↔
      ∃ (index : Nat) (program : Program), programs[index]? = some program ∧
        label ∈ program.lines.filterMap (labelOfLine? (first + index)) := by
  induction programs generalizing first with
  | nil => simp [labelsFrom]
  | cons program programs ih =>
      rw [labelsFrom, List.mem_append, ih]
      constructor
      · rintro (here | ⟨index, other, found, member⟩)
        · exact ⟨0, program, rfl, here⟩
        · exact ⟨index + 1, other, found, by rwa [Nat.add_comm index, ← Nat.add_assoc]⟩
      · rintro ⟨index, other, found, member⟩
        cases index with
        | zero =>
            obtain rfl := Option.some.inj found
            exact .inl member
        | succ index =>
            exact .inr ⟨index, other, found, by rwa [Nat.add_assoc, Nat.add_comm 1]⟩

theorem program_of_mem_labelsFrom {first : Nat} {programs : List Program} {label : Label}
    (member : label ∈ labelsFrom first programs) :
    first ≤ label.program ∧ label.program < first + programs.length := by
  obtain ⟨index, program, found, entry⟩ := mem_labelsFrom.mp member
  obtain ⟨line, -, entry⟩ := List.mem_filterMap.mp entry
  obtain ⟨within, -⟩ := List.getElem?_eq_some_iff.mp found
  have number := (labelOfLine?_eq_some entry).1
  omega

/-! ## Moving entries -/

/-- Moving the entries of one program from an address on leaves all others where they are. -/
theorem labels_shiftLabels {library : Library} {before after : List Program} {program : Program}
    (programs : library.programs = before ++ program :: after)
    (labels : library.labels = labelsFrom 0 library.programs) {front back : List Label}
    {address : Nat}
    (parts : program.lines.filterMap (labelOfLine? before.length) = front ++ back)
    (inFront : ∀ label ∈ front, label.address < address)
    (behind : ∀ label ∈ back, address ≤ label.address) (distance : Int) :
    (library.shiftLabels before.length address distance).labels =
      labelsFrom 0 before ++ (front ++ back.map fun label =>
          { label with address := movedAddress program.size label.address distance }) ++
        labelsFrom (before.length + 1) after := by
  have found : library.get? before.length = some program := by
    simp [get?, programs]
  have number : ∀ label ∈ front ++ back, label.program = before.length := by
    intro label member
    rw [← parts] at member
    obtain ⟨line, -, entry⟩ := List.mem_filterMap.mp member
    exact (labelOfLine?_eq_some entry).1
  have table : library.labels =
      labelsFrom 0 before ++ (front ++ back) ++ labelsFrom (before.length + 1) after := by
    rw [labels, programs, labelsFrom_append, labelsFrom, Nat.zero_add, parts, List.append_assoc,
      List.append_assoc, List.append_assoc]
  simp only [shiftLabels, found, Option.map_some, Option.getD_some, table, List.map_append]
  congr 1
  · congr 1
    · refine (List.map_congr_left fun label member => ?_).trans (List.map_id _)
      have bounds := program_of_mem_labelsFrom member
      rw [if_neg (by omega)]
      rfl
    · congr 1
      · refine (List.map_congr_left fun label member => ?_).trans (List.map_id _)
        have bound := inFront label member
        rw [if_neg (by omega)]
        rfl
      · refine List.map_congr_left fun label member => ?_
        rw [if_pos ⟨number label (List.mem_append_right front member), behind label member⟩]
  · refine (List.map_congr_left fun label member => ?_).trans (List.map_id _)
    have bounds := program_of_mem_labelsFrom member
    rw [if_neg (by omega)]
    rfl

theorem movedAddress_add {size address : Nat} (within : address ≤ size) (distance : Nat) :
    movedAddress size address distance = address + distance := by
  simp only [movedAddress]
  rw [if_pos ⟨within, by omega⟩]
  omega

theorem movedAddress_sub {size address distance : Nat} (within : address + distance ≤ size) :
    movedAddress size (address + distance) (-(distance : Int)) = address := by
  simp only [movedAddress]
  rw [if_pos ⟨within, by omega⟩]
  omega

/-! ## Finding a label -/

/-- Whether a global label with this name is at a program and an address. -/
def HasGlobalLabel (library : Library) (name : List UInt8) (place : Nat × Nat) : Prop :=
  ∃ program, library.get? place.1 = some program ∧ ∃ line ∈ program.lines,
    line.1 = place.2 ∧ line.2.instruction = ⟨.label, .direct (.text name)⟩

theorem mem_labels_iff {library : Library} (labels : library.labels = labelsFrom 0 library.programs)
    {name : List UInt8} {place : Nat × Nat} :
    ⟨some name, place.1, place.2⟩ ∈ library.labels ↔ library.HasGlobalLabel name place := by
  rw [labels, mem_labelsFrom]
  constructor
  · rintro ⟨index, program, found, member⟩
    obtain ⟨line, isLine, entry⟩ := List.mem_filterMap.mp member
    obtain ⟨isLabel, rfl⟩ := labelOfLine?_eq_name.mp entry
    exact ⟨program, by simpa [get?] using found, line, isLine, rfl, isLabel⟩
  · rintro ⟨program, found, line, isLine, address, isLabel⟩
    refine ⟨place.1, program, found, List.mem_filterMap.mpr ⟨line, isLine, ?_⟩⟩
    refine labelOfLine?_eq_name.mpr ⟨isLabel, ?_⟩
    rw [address, Nat.zero_add]

/-- The label table is in the order of programs and addresses. -/
theorem pairwise_labelsFrom (first : Nat) (programs : List Program) :
    (labelsFrom first programs).Pairwise fun label later =>
      toLex (label.program, label.address) < toLex (later.program, later.address) := by
  induction programs generalizing first with
  | nil => exact List.Pairwise.nil
  | cons program programs ih =>
      rw [labelsFrom, List.pairwise_append]
      refine ⟨?_, ih (first + 1), ?_⟩
      · rw [List.pairwise_filterMap]
        obtain ⟨inOrder, bounds⟩ := Program.pairwise_linesFrom program.text 0
        refine inOrder.imp_of_mem ?_
        intro line later member _ inOrder label entry other otherEntry
        have positive := (bounds line member).2.2
        obtain ⟨sameProgram, atLine⟩ := labelOfLine?_eq_some entry
        obtain ⟨alsoSame, atLater⟩ := labelOfLine?_eq_some otherEntry
        rw [Prod.Lex.toLex_lt_toLex]
        simp only
        omega
      · intro label member other otherMember
        obtain ⟨line, -, entry⟩ := List.mem_filterMap.mp member
        have here := (labelOfLine?_eq_some entry).1
        have later := (program_of_mem_labelsFrom otherMember).1
        rw [Prod.Lex.toLex_lt_toLex]
        simp only
        omega

/-- The label that is found is the last one with its name, by program and then by address. -/
theorem findGlobal?_eq_some_iff {library : Library}
    (labels : library.labels = labelsFrom 0 library.programs) (name : List UInt8)
    (place : Nat × Nat) :
    library.findGlobal? name = some place ↔ library.HasGlobalLabel name place ∧
      ∀ other, library.HasGlobalLabel name other → toLex other ≤ toLex place := by
  have inOrder : library.labels.reverse.Pairwise fun later label =>
      toLex (label.program, label.address) < toLex (later.program, later.address) := by
    rw [List.pairwise_reverse, labels]
    exact pairwise_labelsFrom 0 library.programs
  have isLast : ∀ label, library.labels.reverse.find? (fun label => label.name == some name) =
      some label → label.name = some name ∧ label ∈ library.labels ∧
        ∀ other, library.HasGlobalLabel name other →
          toLex other ≤ toLex (label.program, label.address) := by
    intro label found
    obtain ⟨named, later, earlier, split, passed⟩ := List.find?_eq_some_iff_append.mp found
    have member : label ∈ library.labels := by
      rw [← List.mem_reverse, split]
      simp
    refine ⟨by simpa using named, member, fun other isLabel => ?_⟩
    have entry := (mem_labels_iff labels).mpr isLabel
    rw [← List.mem_reverse, split, List.mem_append, List.mem_cons] at entry
    rw [split, List.pairwise_append, List.pairwise_cons] at inOrder
    rcases entry with inLater | rfl | inEarlier
    · simpa using passed _ inLater
    · exact le_refl _
    · exact le_of_lt (inOrder.2.1.1 _ inEarlier)
  rw [findGlobal?, Option.map_eq_some_iff]
  constructor
  · rintro ⟨⟨labelName, program, address⟩, found, rfl⟩
    obtain ⟨rfl, member, last⟩ := isLast _ found
    exact ⟨(mem_labels_iff labels).mp member, last⟩
  · rintro ⟨isLabel, last⟩
    have entry := (mem_labels_iff labels).mpr isLabel
    cases found : library.labels.reverse.find? fun label => label.name == some name with
    | none =>
        rw [List.find?_eq_none] at found
        simpa using found _ (List.mem_reverse.mpr entry)
    | some label =>
        obtain ⟨named, member, lastFound⟩ := isLast label found
        obtain ⟨labelName, program, address⟩ := label
        obtain rfl : labelName = some name := named
        have foundIsLabel : library.HasGlobalLabel name (program, address) :=
          (mem_labels_iff labels).mp member
        exact ⟨_, rfl, toLex.injective (le_antisymm (last _ foundIsLabel) (lastFound _ isLabel))⟩

theorem findGlobal?_eq_none_iff {library : Library}
    (labels : library.labels = labelsFrom 0 library.programs) (name : List UInt8) :
    library.findGlobal? name = none ↔ ∀ place, ¬library.HasGlobalLabel name place := by
  rw [findGlobal?, Option.map_eq_none_iff, List.find?_eq_none]
  constructor
  · intro unnamed place isLabel
    have entry := (mem_labels_iff labels).mpr isLabel
    simpa using unnamed _ (List.mem_reverse.mpr entry)
  · rintro noLabel ⟨labelName, program, address⟩ member named
    obtain rfl : labelName = some name := by simpa using named
    exact noLabel (program, address) ((mem_labels_iff labels).mp (List.mem_reverse.mp member))

end Library

end Keystroke
