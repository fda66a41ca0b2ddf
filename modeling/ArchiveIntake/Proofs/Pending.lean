import ArchiveIntake.Admission
import ArchiveIntake.Proofs.Table

/-! Adding to a queued request. What it was queued with stays, its fields and aliases
grow, and an alias keeps the place where it was first given. -/

namespace ArchiveIntake

structure PendingMerge (fields aliases : List String) (before after : PendingRecord) : Prop where
  method : after.method = before.method
  period : after.period = before.period
  controllingPv : after.controllingPv = before.controllingPv
  policyName : after.policyName = before.policyName
  userOverride : after.userOverride = before.userOverride
  fields : ∀ name, name ∈ after.requestedFields ↔ name ∈ before.requestedFields ∨ name ∈ fields
  known : ∀ name, name ∈ after.aliases ↔ name ∈ before.aliases ∨ name ∈ aliases
  order : ∀ given, before.aliases = given.eraseDups → after.aliases = (given ++ aliases).eraseDups

namespace PendingMerge
variable {fields aliases : List String} {record middle after : PendingRecord}

theorem refl (record : PendingRecord) : PendingMerge [] [] record record := by
  constructor <;> simp

theorem trans {moreFields moreAliases : List String}
    (first : PendingMerge fields aliases record middle)
    (second : PendingMerge moreFields moreAliases middle after) :
    PendingMerge (fields ++ moreFields) (aliases ++ moreAliases) record after where
  method := second.method.trans first.method
  period := second.period.trans first.period
  controllingPv := second.controllingPv.trans first.controllingPv
  policyName := second.policyName.trans first.policyName
  userOverride := second.userOverride.trans first.userOverride
  fields := by
    intro name
    rw [second.fields, first.fields, List.mem_append, or_assoc]
  known := by
    intro name
    rw [second.known, first.known, List.mem_append, or_assoc]
  order := by
    intro given same
    rw [second.order _ (first.order given same), List.append_assoc]

theorem of_addField (record : PendingRecord) (name : String) :
    PendingMerge [name] [] record (record.apply (.addField name)).1 := by
  unfold PendingRecord.apply
  by_cases requested : name ∈ record.requestedFields
  · have there : record.isFieldRequested name = true := requested
    simp only [there, if_true]
    refine { refl record with fields := ?_ }
    intro other
    rw [List.mem_singleton]
    constructor
    · exact .inl
    · rintro (held | rfl)
      · exact held
      · exact requested
  · have absent : record.isFieldRequested name = false := Bool.eq_false_iff.mpr requested
    simp only [absent, Bool.false_eq_true, if_false]
    refine { refl record with fields := ?_ }
    intro other
    rw [NameSet.mem_insert_iff, List.mem_singleton]

theorem of_addAlias (record : PendingRecord) (name : String) :
    PendingMerge [] [name] record (record.apply (.addAlias name)).1 := by
  unfold PendingRecord.apply
  by_cases given : name ∈ record.aliases
  · simp only [List.contains_iff_mem, given, if_true]
    refine { refl record with known := ?_, order := ?_ }
    · intro other
      rw [List.mem_singleton]
      constructor
      · exact .inl
      · rintro (held | rfl)
        · exact held
        · exact given
    · intro before same
      have old : name ∈ before := by
        rwa [same, List.mem_eraseDups] at given
      rw [same, List.eraseDups_append]
      simp [List.cons_removeAll, old]
  · simp only [List.contains_iff_mem, given, if_false]
    refine { refl record with known := ?_, order := ?_ }
    · intro other
      rw [List.mem_append]
    · intro before same
      have new : name ∉ before := by
        rwa [same, List.mem_eraseDups] at given
      rw [same, List.eraseDups_append]
      simp [List.cons_removeAll, List.eraseDups_cons, new]

end PendingMerge

theorem PendingRecord.applyAll_append (record : PendingRecord) (first second : List PendingEdit) :
    (record.applyAll (first ++ second)).1 = ((record.applyAll first).1.applyAll second).1 := by
  induction first generalizing record with
  | nil => rfl
  | cons edit rest ih => exact ih (record.apply edit).1

theorem PendingMerge.of_pendingEdits (record : PendingRecord) (name : NormalizedName)
    (aliasName : Option String) :
    PendingMerge name.standardField.toList aliasName.toList record
      (record.applyAll (Admission.pendingEdits name aliasName)).1 := by
  have fields : ∀ record : PendingRecord, PendingMerge name.standardField.toList [] record
      (record.applyAll (name.standardField.toList.map .addField)).1 := by
    intro record
    cases name.standardField with
    | none => exact refl record
    | some field => exact of_addField record field
  have aliases : ∀ record : PendingRecord, PendingMerge [] aliasName.toList record
      (record.applyAll (aliasName.toList.map .addAlias)).1 := by
    intro record
    cases aliasName with
    | none => exact refl record
    | some added => exact of_addAlias record added
  unfold Admission.pendingEdits
  rw [PendingRecord.applyAll_append]
  simpa using (fields record).trans (aliases _)

end ArchiveIntake
