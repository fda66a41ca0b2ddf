import ArchiveIntake.Workflow
import Mathlib.Data.List.Forall2

/-! The value field. A name without a field and the same name with `VAL` after it are split alike,
even by a catalog that lists `VAL`. An item is known by nothing but its split name, so both spellings
make one program and can stand for each other in any request. -/

namespace ArchiveIntake

namespace Name

def withValueField (name : String) : String := name ++ "." ++ valueField

variable {raw : String}

theorem split_of_bare (bare : '.' ∉ raw.toList) (catalog : Catalog) : split catalog raw = ⟨raw, .none⟩ := by
  have whole : Text.cut '.' raw.toList = none := Text.cut_eq_none_iff.mpr bare
  have fieldless : field? raw = none := by simp only [field?, whole]
  simp only [split, fieldless]

theorem split_withValueField (bare : '.' ∉ raw.toList) (catalog : Catalog) :
    split catalog (withValueField raw) = ⟨raw, .none⟩ := by
  have parts : Text.cut '.' (withValueField raw).toList = some (raw.toList, valueField.toList) :=
    Text.cut_eq_some_iff.mpr ⟨by simp [withValueField], bare⟩
  have value : field? (withValueField raw) = some valueField := by
    simp only [field?, parts]
    rfl
  have record : stripField (withValueField raw) = raw := by
    simp only [stripField, parts, String.ofList_toList]
  simp only [split, value, record, if_true]

theorem normalize_withValueField (bare : '.' ∉ raw.toList) (catalog : Catalog) :
    normalize catalog (withValueField raw) = normalize catalog raw := by
  simp only [normalize, split_withValueField bare, split_of_bare bare]

end Name

/-- An item, or the same one with the value field after its bare name. -/
inductive ArchiveSpec.Respelled : ArchiveSpec → ArchiveSpec → Prop
  | same (spec : ArchiveSpec) : Respelled spec spec
  | value (spec : ArchiveSpec) (bare : '.' ∉ spec.pv.toList) :
      Respelled spec { spec with pv := Name.withValueField spec.pv }

variable {spec other : ArchiveSpec} {specs others : List ArchiveSpec}

theorem ArchiveSpec.Respelled.archivePv_eq (respelled : spec.Respelled other) (defaultPeriod : Single)
    (catalog : Catalog) : archivePv defaultPeriod catalog other = archivePv defaultPeriod catalog spec := by
  cases respelled with
  | same => rfl
  | value bare =>
    simp only [archivePv, Name.normalize_withValueField bare]
    rfl

theorem archiveItems_of_respelled (respelled : List.Forall₂ ArchiveSpec.Respelled specs others)
    (defaultPeriod : Single) (catalog : Catalog) :
    archiveItems defaultPeriod catalog others = archiveItems defaultPeriod catalog specs := by
  induction respelled with
  | nil => rfl
  | cons first rest ih => simp only [archiveItems, first.archivePv_eq, ih]

theorem archiveBatch_of_respelled (respelled : List.Forall₂ ArchiveSpec.Respelled specs others)
    (defaultPeriod : Single) : archiveBatch defaultPeriod others = archiveBatch defaultPeriod specs := by
  simp only [archiveBatch, archiveItems_of_respelled respelled]

/-- Whatever fails and whatever the catalog lists, the value field can be put after any bare names: items
and batches get the same answers and leave the same world, and the same is known of a variable. -/
theorem value_field_is_the_variable (surroundings : Surroundings) (defaultPeriod : Single) (world : World) :
    (∀ (catalog : Catalog) (spec other : ArchiveSpec), spec.Respelled other →
      (archivePv defaultPeriod catalog other).run surroundings world =
        (archivePv defaultPeriod catalog spec).run surroundings world) ∧
    (∀ specs others : List ArchiveSpec, List.Forall₂ ArchiveSpec.Respelled specs others →
      (archiveBatch defaultPeriod others).run surroundings world =
        (archiveBatch defaultPeriod specs).run surroundings world) ∧
    ∀ raw : String, '.' ∉ raw.toList →
      (status (Name.withValueField raw)).run surroundings world = (status raw).run surroundings world := by
  refine ⟨?_, ?_, ?_⟩
  · intro catalog spec other respelled
    rw [respelled.archivePv_eq]
  · intro specs others respelled
    rw [archiveBatch_of_respelled respelled]
  · intro raw bare
    simp only [status, Name.normalize_withValueField bare]

/-- The catalog lists `VAL`, one name is archived in both spellings, and the engine cannot be told of
another one. -/
theorem value_field_is_the_variable_of_listed_field :
    let store : ConfigStore := .memory { MemoryStore.empty with standardFields := ["VAL", "HIHI"] }
    let run (specs : List ArchiveSpec) := (archiveBatch AdmissionConfig.default.defaultPeriod specs).run
      (.withOutages ["start_workflow:pva://B"] fun _ => 0) (.fresh store .noting)
    run [{ pv := "A.VAL" }, { pv := "pva://B.VAL" }, { pv := "A" }] =
        run [{ pv := "A" }, { pv := "pva://B" }, { pv := "A" }] ∧
      (run [{ pv := "A.VAL" }, { pv := "pva://B.VAL" }, { pv := "A" }]).1 =
        .ok [⟨"A", .submitted⟩, ⟨"pva://B", .exceptionOccurred⟩, ⟨"A", .alreadySubmitted⟩] := by
  intro store run
  have same : run [{ pv := "A.VAL" }, { pv := "pva://B.VAL" }, { pv := "A" }] =
      run [{ pv := "A" }, { pv := "pva://B" }, { pv := "A" }] := by
    refine (value_field_is_the_variable _ _ _).2.1 _ _ ?_
    exact .cons (.value { pv := "A" } (by decide))
      (.cons (.value { pv := "pva://B" } (by decide)) (.cons (.same { pv := "A" }) .nil))
  exact ⟨same, rfl⟩

end ArchiveIntake
