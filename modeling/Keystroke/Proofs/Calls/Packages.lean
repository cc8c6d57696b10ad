import Mathlib
import Keystroke.Proofs.CallPackages
import Keystroke.Proofs.Calls.Memory

/-!
# Packages

A package holds values that keep to free storages, and so does the list it is packed in. What takes the
package of a call changes no more than the stack and the flags, to values that are in the package. A return
from a function takes the inputs from the stack of the caller, which must have had them.
-/

namespace Keystroke

open Outcome Keystroke.Action

/-- The values in a package keep to free storages. -/
def CallPackage.Fits (free : Nat → Prop) (package : CallPackage) : Prop :=
  ∀ saved ∈ package.saved, (∀ value ∈ saved.values, value.Fits free) ∧ saved.lastX.Fits free

/-- The caller's stack in a package has the inputs of the function, in a number that fits in a real. -/
def CallPackage.HasInputs (package : CallPackage) : Prop :=
  ∀ saved ∈ package.saved, saved.inputs ≤ saved.values.length ∧ saved.inputs < 2 ^ 53

namespace CallPackage

variable {free : Nat → Prop}

theorem Fits.imp {freer : Nat → Prop} {package : CallPackage} (fits : package.Fits free)
    (weaken : ∀ number, free number → freer number) : package.Fits freer := fun saved isSaved =>
  ⟨fun value member => ((fits saved isSaved).1 value member).imp weaken,
    (fits saved isSaved).2.imp weaken⟩

theorem fits_pack {package : CallPackage} (fits : package.Fits free) : package.pack.Fits free := by
  rcases package with ⟨isBig, _ | saved⟩
  · simp [pack, Value.Within, Value.AllWithin, Value.ofBool]
  · obtain ⟨fitValues, fitsLastX⟩ := fits saved rfl
    have fitReversed : Value.AllFit free saved.values.reverse :=
      Value.allFit_iff.mpr fun value member => fitValues value (List.mem_reverse.mp member)
    simp [pack, Value.Within, Value.AllWithin, Value.ofBool, fitReversed, fitsLastX]

theorem ordinary_unpackReal (value : Value) : IsOrdinary (unpackReal value) := by
  unfold unpackReal
  split
  · trivial
  · simp

/-- Whatever a list is unpacked as keeps to the storages of the list. -/
theorem ends_unpack {value : Value} (fits : value.Fits free) : Ends (Fits free) (unpack value) := by
  unfold unpack
  split
  · exact (ordinary_unpackReal _).bind fun isBig _ => by simp [Fits]
  · obtain ⟨-, -, ⟨-, fitValues⟩, fitsLastX, -⟩ := fits
    refine (ordinary_unpackReal _).bind fun isBig _ => (ordinary_unpackReal _).bind fun inputs _ =>
      (ordinary_unpackReal _).bind fun outputs _ => (ordinary_unpackReal _).bind fun ignored _ => ?_
    rintro saved ⟨rfl⟩
    exact ⟨fun value member => Value.allFit_iff.mp fitValues value (List.mem_reverse.mp member),
      fitsLastX⟩
  · simp

end CallPackage

theorem Editor.ends_pack (free : Nat → Prop) (editor : Editor) : Ends (Value.Fits free) editor.pack := by
  refine (Machine.ordinary_ofText editor.name).bind fun name isText => ?_
  obtain rfl := isText
  have fitPath : Value.AllFit free (editor.path.map fun index => .real (.ofNat index)) := by
    refine Value.allFit_iff.mpr fun value member => ?_
    obtain ⟨index, -, rfl⟩ := List.mem_map.mp member
    trivial
  simp [Value.Within, Value.AllWithin, Value.ofBool, fitPath]

theorem Editor.ordinary_unpack (value : Value) : IsOrdinary (unpack value) := by
  have ordinaryIndex (value : Value) : IsOrdinary (unpackIndex value) :=
    value.ordinary_asReal.bind fun _ _ => trivial
  unfold unpack
  split
  · refine (ends_mapM fun item _ => ordinaryIndex item).bind fun path _ => ?_
    refine (Value.ordinary_asReal _).bind fun isEditing _ => ?_
    refine (Value.ordinary_asReal _).bind fun level _ => ?_
    exact (ordinaryIndex _).bind fun row _ => (ordinaryIndex _).bind fun col _ => trivial
  · simp

namespace Machine

theorem fits_returned {free : Nat → Prop} {saved : SavedStack} {values : List Value}
    (fitSaved : ∀ value ∈ saved.values, value.Fits free) (fit : ∀ value ∈ values, value.Fits free) :
    ∀ value ∈ values.take saved.outputs ++
      List.replicate (saved.outputs - values.length) Value.zero ++ saved.values.drop saved.inputs,
      value.Fits free := by
  intro value member
  rcases List.mem_append.mp member with top | below
  · rcases List.mem_append.mp top with output | filler
    · exact fit value (List.mem_of_mem_take output)
    · rw [List.eq_of_mem_replicate filler]
      exact Value.within_zero
  · exact fitSaved value (List.mem_of_mem_drop below)

/-- An action that takes the package of the present call and then changes no more than the stack and
the flags, to values that are in the package. It crashes only on a package without the inputs. -/
def TakesPackage (finish : Action Unit) : Prop :=
  ∃ next : CallPackage → Action Unit,
    finish = (do next (← takePackage (← get).level)) ∧
      ∀ package (after : Machine),
        (¬ package.HasInputs ∧ (next package).on after = (fail .crash, after)) ∨
        ∃ stack lastX flags,
          (next package).on after = (.ok (), { after with stack, lastX, flags }) ∧
            ∀ free : Nat → Prop, after.stack.Fits free → after.lastX.Fits free → package.Fits free →
              stack.Fits free ∧ lastX.Fits free

theorem takesPackage_finishFunction : TakesPackage finishFunction := by
  refine ⟨_, rfl, fun package after => ?_⟩
  rcases package with ⟨isBig, _ | saved⟩
  · exact .inr ⟨_, _, _, rfl, fun free fits fitsLastX _ => ⟨fits.setBig isBig, fitsLastX⟩⟩
  · by_cases short : saved.values.length < saved.inputs
    · refine .inl ⟨fun has => (has saved rfl).1.not_gt short, ?_⟩
      simp only [on_bind, on_get, on_lift, returnedValues, SavedStack.withoutInputs, short, if_true]
      rfl
    · refine .inr ⟨.ofValues isBig (after.stack.values.take saved.outputs ++
          List.replicate (saved.outputs - after.stack.values.length) Value.zero ++
            saved.values.drop saved.inputs),
        if 0 < saved.inputs then saved.values.headD saved.lastX else saved.lastX,
        after.flags.set Flags.errorIgnored saved.errorIgnored, ?_, fun free fits fitsLastX fit => ?_⟩
      · simp only [on_bind, on_get, on_lift, returnedValues, SavedStack.withoutInputs, short, if_false]
        rfl
      · obtain ⟨fitValues, fitsSaved⟩ := fit saved rfl
        refine ⟨Stack.Within.ofValues (fits_returned fitValues fits) _, ?_⟩
        rcases saved with ⟨_ | ⟨x, rest⟩, lastX, inputs⟩
        · simpa using fitsSaved
        · split
          · exact fitValues x List.mem_cons_self
          · exact fitsSaved

theorem takesPackage_discardFunction : TakesPackage discardFunction := by
  refine ⟨_, rfl, fun package after => .inr ?_⟩
  rcases package with ⟨isBig, _ | saved⟩
  · exact ⟨_, _, _, rfl, fun free fits fitsLastX _ => ⟨fits.setBig isBig, fitsLastX⟩⟩
  · refine ⟨_, _, _, rfl, fun free _ _ fit => ?_⟩
    obtain ⟨fitValues, fitsLastX⟩ := fit saved rfl
    exact ⟨Stack.Within.ofValues fitValues _, fitsLastX⟩

theorem takesPackage_abandonFunction : TakesPackage abandonFunction :=
  ⟨_, rfl, fun package _ => .inr ⟨_, _, _, rfl, fun _ fits fitsLastX _ =>
    ⟨fits.setBig package.isBig, fitsLastX⟩⟩⟩

end Machine

end Keystroke
