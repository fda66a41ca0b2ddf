import ArchiveIntake.Proofs.Acceptance
import ArchiveIntake.Proofs.ClosedForm
import ArchiveIntake.Proofs.Course

/-! Items with nothing left to do. Right after its run an item is settled, and it stays so while
other items are processed. When a settled item is processed again it is answered as submitted
already, or refused as before, and at most its alias is registered once more. -/

namespace ArchiveIntake

/-- Aliases have been registered in the index, and nothing else has happened. -/
def World.reindexed (entries : List (String × String)) (world : World) : World :=
  { world with store := world.store.reindex entries }

theorem World.reindexed_nil (world : World) : world.reindexed [] = world := by
  simp only [reindexed, ConfigStore.reindex_nil]

theorem World.reindexed_reindexed (world : World) (entries more : List (String × String)) :
    (world.reindexed entries).reindexed more = world.reindexed (entries ++ more) := by
  simp only [reindexed, ConfigStore.reindex_reindex]

theorem PendingRecord.applyAll_of_holds {record : PendingRecord} {name : NormalizedName}
    {aliasName : Option String} (holds : record.Holds name.standardField aliasName) :
    (record.applyAll (Admission.pendingEdits name aliasName)).1 = record := by
  obtain ⟨fields, aliases⟩ := holds
  have field : (record.applyAll (name.standardField.toList.map .addField)).1 = record := by
    cases part : name.standardField with
    | none => rfl
    | some added =>
      have requested : record.isFieldRequested added = true := fields added part
      simp [applyAll, apply, requested]
  have added : (record.applyAll (aliasName.toList.map .addAlias)).1 = record := by
    cases aliasName with
    | none => rfl
    | some added => simp [applyAll, apply, aliases added rfl]
  rw [Admission.pendingEdits, applyAll_append, field, added]

section Known
variable {surroundings : Surroundings} {name : NormalizedName} {aliasName : Option String}
  {record : ActiveRecord} {world after : World}

def NormalizedName.aliasEntries (name : NormalizedName) (aliasName : Option String) :
    List (String × String) :=
  aliasName.toList.map fun added => (added, name.baseName)

theorem FieldCourse.of_known {result : Except AdmissionError ActiveRecord}
    (known : ∀ field ∈ name.standardField, field ∈ record.archivedFields)
    (course : FieldCourse surroundings name record world result after) :
    result = .ok record ∧ after = world := by
  cases course with
  | known => exact ⟨rfl, rfl⟩
  | written field store part new written => exact absurd (known field part) new
  | unwritten field failure part new failed => exact absurd (known field part) new

theorem AliasCourse.of_known {result : Except AdmissionError ActiveRecord} {held : ActiveRecord}
    (calm : surroundings.FaultFree)
    (found : world.store.activeRecord name.baseName = .ok (some held))
    (known : ∀ added ∈ aliasName, added ∈ held.aliases)
    (indexed : name.aliasEntries aliasName ≠ [] → ∃ index, world.store.aliasIndex = some index)
    (course : AliasCourse surroundings name aliasName record world result after) :
    (∃ merged, result = .ok merged) ∧ after = world.reindexed (name.aliasEntries aliasName) := by
  cases course with
  | none absent =>
    subst absent
    exact ⟨⟨record, rfl⟩, (World.reindexed_nil _).symm⟩
  | registered added store given written =>
    subst given
    obtain ⟨index, present⟩ := indexed (List.cons_ne_nil _ _)
    have exact' := ConfigStore.addAlias_of_mem found (known added rfl) present
    rw [written] at exact'
    cases exact'
    exact ⟨⟨_, rfl⟩, rfl⟩
  | unregistered added failure given failed =>
    subst given
    obtain ⟨index, present⟩ := indexed (List.cons_ne_nil _ _)
    have exact' := ConfigStore.addAlias_of_mem found (known added rfl) present
    rw [calm.fault?_eq] at failed
    simp [World.answer, World.withStore, Request.failure?, exact', failureIn] at failed

theorem CheckCourse.of_active {result : Except AdmissionError Admission} (calm : surroundings.FaultFree)
    (found : world.store.activeRecord name.baseName = .ok (some record))
    (holds : Admission.Holds name.standardField aliasName (.alreadyActive record))
    (indexed : name.aliasEntries aliasName ≠ [] → ∃ index, world.store.aliasIndex = some index)
    (course : CheckCourse surroundings name aliasName world result after) :
    (∃ admission, result = .ok admission ∧ admission.isRegistered = true) ∧
      after = world.reindexed (name.aliasEntries aliasName) := by
  cases course with
  | unread failure failed =>
    rw [calm.fault?_eq] at failed
    simp [World.answer, Request.failure?, found, failureIn] at failed
  | fieldLost other e _ held field =>
    cases found.symm.trans held
    cases (field.of_known holds.1).1
  | aliasLost other merged e middle _ held field registration =>
    cases found.symm.trans held
    obtain ⟨-, rfl⟩ := field.of_known holds.1
    obtain ⟨⟨_, same⟩, -⟩ := registration.of_known calm found holds.2 indexed
    cases same
  | active other merged last middle _ held field registration =>
    cases found.symm.trans held
    obtain ⟨-, rfl⟩ := field.of_known holds.1
    obtain ⟨-, rfl⟩ := registration.of_known calm found holds.2 indexed
    exact ⟨⟨_, rfl, rfl⟩, rfl⟩
  | unedited _ inactive | pending _ inactive | unknown inactive => cases found.symm.trans inactive

theorem CheckCourse.of_pending {result : Except AdmissionError Admission} {pending : PendingRecord}
    (calm : surroundings.FaultFree) (inactive : world.store.activeRecord name.baseName = .ok none)
    (found : world.queue[name.baseName]? = some pending)
    (holds : pending.Holds name.standardField aliasName)
    (course : CheckCourse surroundings name aliasName world result after) :
    (∃ admission, result = .ok admission ∧ admission.isRegistered = true) ∧ after = world := by
  cases course with
  | unread failure failed =>
    rw [calm.fault?_eq] at failed
    simp [World.answer, Request.failure?, inactive, failureIn] at failed
  | unedited failure _ failed =>
    rw [calm.fault?_eq] at failed
    cases failed
  | fieldLost _ _ _ held | aliasLost _ _ _ _ _ held | active _ _ _ _ _ held =>
    cases inactive.symm.trans held
  | pending other _ held =>
    cases found.symm.trans held
    rw [PendingRecord.applyAll_of_holds holds, Table.insert_eq_self found]
    exact ⟨⟨_, rfl, rfl⟩, rfl⟩
  | unknown _ absent => cases found.symm.trans absent

theorem CheckCourse.of_absent {result : Except AdmissionError Admission} (calm : surroundings.FaultFree)
    (inactive : world.store.activeRecord name.baseName = .ok none)
    (absent : world.queue[name.baseName]? = none)
    (course : CheckCourse surroundings name aliasName world result after) :
    result = .ok .notRegistered ∧ after = world := by
  cases course with
  | unread failure failed =>
    rw [calm.fault?_eq] at failed
    simp [World.answer, Request.failure?, inactive, failureIn] at failed
  | unedited failure _ failed =>
    rw [calm.fault?_eq] at failed
    cases failed
  | fieldLost _ _ _ held | aliasLost _ _ _ _ _ held | active _ _ _ _ _ held =>
    cases inactive.symm.trans held
  | pending other _ held => cases absent.symm.trans held
  | unknown => exact ⟨rfl, rfl⟩

theorem SubmitCourse.of_taken {policy : EffectivePolicy} {result : Except AdmissionError Submission}
    (calm : surroundings.FaultFree) (taken : name.queueKey ∈ world.queue)
    (course : SubmitCourse surroundings name aliasName policy world result after) :
    result = .ok .alreadyQueued ∧ after = world := by
  cases course with
  | unqueued failure failed =>
    rw [calm.fault?_eq] at failed
    cases failed
  | refused => exact ⟨rfl, rfl⟩
  | unstarted _ free | queued free => exact absurd taken free

end Known

section Course
variable {surroundings : Surroundings} {defaultPeriod minimum : Single} {name : NormalizedName}
  {spec : ArchiveSpec} {world last after : World} {result : Except AdmissionError ArchiveStatus}

theorem ItemCourse.of_registered (usable : spec.overridesAreValid = true)
    (finds : ∀ found middle, CheckCourse surroundings name spec.aliasName world found middle →
      (∃ admission, found = .ok admission ∧ admission.isRegistered = true) ∧ middle = last)
    (course : ItemCourse surroundings defaultPeriod name spec world result after) :
    result = .ok .alreadySubmitted ∧ after = last := by
  cases course with
  | invalid e unusable =>
    rw [usable] at unusable
    cases unusable
  | unchecked e _ _ checked =>
    obtain ⟨⟨_, same, _⟩, -⟩ := finds _ _ checked
    cases same
  | registered admission _ _ known checked => exact ⟨rfl, (finds _ _ checked).2⟩
  | unresolved _ _ inactive absent | submitted _ _ _ _ inactive absent =>
    obtain ⟨⟨_, same, known⟩, -⟩ := finds _ _ (.unknown inactive absent)
    cases same
    cases known

theorem ItemCourse.of_taken (calm : surroundings.FaultFree) (usable : spec.overridesAreValid = true)
    (readable : readMinimumPeriod (world.store.property minimumPeriodProperty) = .ok minimum)
    (inactive : world.store.activeRecord name.baseName = .ok none)
    (absent : world.queue[name.baseName]? = none) (taken : name.queueKey ∈ world.queue)
    (course : ItemCourse surroundings defaultPeriod name spec world result after) :
    result = .ok .alreadySubmitted ∧ after = world := by
  have unfound {found : Except AdmissionError Admission} {middle : World}
      (checked : CheckCourse surroundings name spec.aliasName world found middle) :
      found = .ok .notRegistered ∧ middle = world := checked.of_absent calm inactive absent
  cases course with
  | invalid e unusable =>
    rw [usable] at unusable
    cases unusable
  | unchecked e _ _ checked => cases (unfound checked).1
  | registered admission _ _ known checked =>
    cases (unfound checked).1
    cases known
  | unresolved e _ _ _ unreadable =>
    have text : world.minimumPeriodText surroundings = world.store.property minimumPeriodProperty := by
      rw [World.minimumPeriodText, calm.respond]
      rfl
    rw [text] at unreadable
    obtain ⟨policy, resolved⟩ := ArchiveSpec.exists_effectivePolicy defaultPeriod usable readable
    cases unreadable.symm.trans resolved
  | submitted policy submission _ _ _ _ resolved submitted =>
    obtain ⟨rfl, rfl⟩ := submitted.of_taken calm taken
    exact ⟨rfl, rfl⟩

end Course

def ArchiveSpec.repeatedStatus (spec : ArchiveSpec) : ArchiveStatus :=
  if spec.overridesAreValid then .alreadySubmitted else .exceptionOccurred

/-- An item has nothing left to do but to register these aliases again. -/
inductive Settled (name : NormalizedName) (spec : ArchiveSpec) (world : World) :
    List (String × String) → Prop
  | invalid (unusable : spec.overridesAreValid = false) : Settled name spec world []
  | active (record : ActiveRecord) (usable : spec.overridesAreValid = true)
      (found : world.store.activeRecord name.baseName = .ok (some record))
      (holds : Admission.Holds name.standardField spec.aliasName (.alreadyActive record)) :
      Settled name spec world (name.aliasEntries spec.aliasName)
  | pending (record : PendingRecord) (usable : spec.overridesAreValid = true)
      (inactive : world.store.activeRecord name.baseName = .ok none)
      (found : world.queue[name.baseName]? = some record)
      (holds : record.Holds name.standardField spec.aliasName) : Settled name spec world []
  | refused (usable : spec.overridesAreValid = true)
      (inactive : world.store.activeRecord name.baseName = .ok none)
      (absent : world.queue[name.baseName]? = none) (taken : name.queueKey ∈ world.queue) :
      Settled name spec world []

theorem ItemEffect.mem_queue {defaultPeriod : Single} {name : NormalizedName} {spec : ArchiveSpec}
    {world after : World} {result : Except AdmissionError ArchiveStatus} {key : String}
    (effect : ItemEffect defaultPeriod name spec world result after) (queued : key ∈ world.queue) :
    key ∈ after.queue := by
  cases effect with
  | pending | queued => exact Table.mem_insert_iff.mpr (.inl queued)
  | invalid | active | unresolved | refused => exact queued

namespace Settled
variable {surroundings : Surroundings} {defaultPeriod minimum : Single} {name : NormalizedName}
  {spec : ArchiveSpec} {world after : World} {entries : List (String × String)}

theorem reindexed (settled : Settled name spec world entries) (more : List (String × String)) :
    Settled name spec (world.reindexed more) entries := by
  have same := ConfigStore.activeRecord_reindex more world.store name.baseName
  cases settled with
  | invalid unusable => exact .invalid unusable
  | active record usable found holds => exact .active record usable (same.trans found) holds
  | pending record usable inactive found holds =>
    exact .pending record usable (same.trans inactive) found holds
  | refused usable inactive absent taken => exact .refused usable (same.trans inactive) absent taken

theorem archiveNamed_run (defaultPeriod : Single) (settled : Settled name spec world entries)
    (calm : surroundings.FaultFree)
    (readable : readMinimumPeriod (world.store.property minimumPeriodProperty) = .ok minimum)
    (indexed : entries ≠ [] → ∃ index, world.store.aliasIndex = some index) :
    (archiveNamed defaultPeriod name spec).run surroundings world =
      (.ok ⟨name.baseName, spec.repeatedStatus⟩, world.reindexed entries) := by
  cases ran : (archiveNamed defaultPeriod name spec).run surroundings world with
  | mk answer after =>
    obtain ⟨result, course, rfl⟩ := archiveNamed_course ran
    have accepted (usable : spec.overridesAreValid = true)
        (ended : result = .ok .alreadySubmitted ∧ after = world.reindexed entries) :
        (outcomeOf name.baseName result, after) =
          (.ok ⟨name.baseName, spec.repeatedStatus⟩, world.reindexed entries) := by
      obtain ⟨rfl, rfl⟩ := ended
      rw [ArchiveSpec.repeatedStatus, usable]
      rfl
    cases settled with
    | invalid unusable =>
      have refusal : spec.repeatedStatus = .exceptionOccurred := by
        rw [ArchiveSpec.repeatedStatus, unusable]
        rfl
      cases course with
      | invalid e _ continues =>
        rw [World.reindexed_nil, refusal, outcomeOf, continues]
        rfl
      | unchecked _ _ usable | registered _ _ usable | unresolved _ usable
      | submitted _ _ _ usable =>
        rw [unusable] at usable
        cases usable
    | active record usable found holds =>
      exact accepted usable (course.of_registered usable fun _ _ => CheckCourse.of_active calm found
        holds indexed)
    | pending record usable inactive found holds =>
      rw [World.reindexed_nil] at accepted ⊢
      exact accepted usable (course.of_registered usable fun _ _ => CheckCourse.of_pending calm inactive
        found holds)
    | refused usable inactive absent taken =>
      rw [World.reindexed_nil] at accepted ⊢
      exact accepted usable (course.of_taken calm usable readable inactive absent taken)

theorem kept {result : Except AdmissionError ArchiveStatus} (settled : Settled name spec world entries)
    (item : NamedItem)
    (single : Name.isDoublyMarked item.name.baseName = false)
    (effect : ItemEffect defaultPeriod item.name item.spec world result after) :
    Settled name spec after entries := by
  have still := effect.sameVariables.inactive name.baseName
  cases settled with
  | invalid unusable => exact .invalid unusable
  | active record usable found holds =>
    cases effect with
    | active other store readings _ held merge =>
      by_cases same : name.baseName = item.name.baseName
      · rw [same] at found
        obtain ⟨merged, present, -, fields, aliases⟩ := merge.here record found
        rw [← same] at present
        refine .active merged usable present ⟨?_, ?_⟩
        · intro field member
          exact (fields field).mpr (.inl (holds.1 field member))
        · intro added member
          exact (aliases added).mpr (.inl (holds.2 added member))
      · exact .active record usable ((merge.elsewhere _ same).trans found) holds
    | invalid | pending | unresolved | refused | queued => exact .active record usable found holds
  | pending record usable inactive found holds =>
    have inactive := still.mpr inactive
    cases effect with
    | pending other _ _ held =>
      by_cases same : name.baseName = item.name.baseName
      · rw [same] at found
        cases found.symm.trans held
        have merge := PendingMerge.of_pendingEdits record item.name item.spec.aliasName
        refine .pending _ usable inactive (by rw [same, Table.getElem?_insert_iff, if_pos rfl]) ⟨?_, ?_⟩
        · intro field member
          exact (merge.fields field).mpr (.inl (holds.1 field member))
        · intro added member
          exact (merge.known added).mpr (.inl (holds.2 added member))
      · refine .pending record usable inactive ?_ holds
        rw [Table.getElem?_insert_iff, if_neg same, found]
    | queued policy _ _ _ resolved free running =>
      have apart : name.baseName ≠ item.name.queueKey := by
        intro same
        exact free (same ▸ Table.mem_of_getElem? found)
      refine .pending record usable inactive ?_ holds
      rw [Table.getElem?_insert_iff, if_neg apart, found]
    | invalid | active | unresolved | refused => exact .pending record usable inactive found holds
  | refused usable inactive absent taken =>
    -- The key is taken and the name is not, so the name carries the mark and is nobody's key.
    have unqueued := Table.getElem?_eq_none_iff.mp absent
    have mark : name.isMarked = true := by
      cases bare : name.isMarked with
      | true => rfl
      | false => exact absurd (Name.queueKey_of_not_isMarked bare ▸ taken) unqueued
    have named : name.baseName = Name.marked name.queueKey := Name.eq_marked_queueKey mark
    rw [named] at unqueued
    have absent := Table.getElem?_eq_none_iff.mpr (effect.marked_unqueued single unqueued)
    rw [← named] at absent
    exact .refused usable (still.mpr inactive) absent (effect.mem_queue taken)

end Settled

/-! What the run of an item has registered. -/

section Registered
variable {surroundings : Surroundings} {defaultPeriod minimum : Single} {name : NormalizedName}
  {spec : ArchiveSpec} {world after : World} {record : ActiveRecord}

theorem FieldCourse.aliasIndex {result : Except AdmissionError ActiveRecord}
    (course : FieldCourse surroundings name record world result after) :
    after.store.aliasIndex = world.store.aliasIndex := by
  cases course with
  | known | unwritten => rfl
  | written field store part new written => exact ConfigStore.aliasIndex_updateActiveRecord written

theorem AliasCourse.aliasIndex {aliasName : Option String} {merged : ActiveRecord}
    (course : AliasCourse surroundings name aliasName record world (.ok merged) after) :
    after.store.aliasIndex =
        (world.store.aliasIndex.map fun index => Table.insertAll index (name.aliasEntries aliasName)) ∧
      (name.aliasEntries aliasName ≠ [] → ∃ index, after.store.aliasIndex = some index) := by
  cases course with
  | none absent =>
    subst absent
    exact ⟨Option.map_id'.symm, fun some => absurd rfl some⟩
  | registered added store given written =>
    subst given
    obtain ⟨index, before, later⟩ := ConfigStore.aliasIndex_addAlias written
    refine ⟨?_, fun _ => ⟨_, later⟩⟩
    rw [before]
    exact later

theorem ItemCourse.aliasIndex_of_active {status : ArchiveStatus}
    (found : world.store.activeRecord name.baseName = .ok (some record))
    (course : ItemCourse surroundings defaultPeriod name spec world (.ok status) after) :
    after.store.aliasIndex =
        (world.store.aliasIndex.map fun index =>
          Table.insertAll index (name.aliasEntries spec.aliasName)) ∧
      (name.aliasEntries spec.aliasName ≠ [] → ∃ index, after.store.aliasIndex = some index) := by
  generalize ended : (Except.ok status : Except AdmissionError ArchiveStatus) = result at course
  cases course with
  | invalid | unchecked | unresolved => cases ended
  | registered admission _ usable known checked =>
    cases checked with
    | active other merged last middle _ held field registration =>
      have indexed := registration.aliasIndex
      rw [field.aliasIndex] at indexed
      exact indexed
    | pending _ inactive | unknown inactive => cases found.symm.trans inactive
  | submitted _ _ _ _ inactive => cases found.symm.trans inactive

theorem ItemEffect.settled {result : Except AdmissionError ArchiveStatus}
    (effect : ItemEffect defaultPeriod name spec world result after)
    (course : ItemCourse surroundings defaultPeriod name spec world result after)
    (readable : readMinimumPeriod (world.store.property minimumPeriodProperty) = .ok minimum) :
    ∃ entries, Settled name spec after entries ∧
      after.store.aliasIndex = (world.store.aliasIndex.map fun index => Table.insertAll index entries) ∧
      (entries ≠ [] → ∃ index, after.store.aliasIndex = some index) := by
  have unindexed : world.store.aliasIndex =
      world.store.aliasIndex.map fun index => Table.insertAll index [] := Option.map_id'.symm
  have empty {index : Option (Table String)} :
      ([] : List (String × String)) ≠ [] → ∃ present, index = some present := fun some => absurd rfl some
  cases effect with
  | invalid e unusable => exact ⟨[], .invalid unusable, unindexed, empty⟩
  | active record store readings usable found merge =>
    obtain ⟨merged, present, -, fields, aliases⟩ := merge.here record found
    refine ⟨_, .active merged usable present ⟨?_, ?_⟩, course.aliasIndex_of_active found⟩
    · intro field member
      exact (fields field).mpr (.inr (by simpa using member))
    · intro added member
      exact (aliases added).mpr (.inr (by simpa using member))
  | pending record usable inactive found =>
    have merge := PendingMerge.of_pendingEdits record name spec.aliasName
    refine ⟨[], .pending _ usable inactive ?_ merge.holds, unindexed, empty⟩
    rw [Table.getElem?_insert_iff, if_pos rfl]
  | unresolved e usable inactive absent unreadable =>
    obtain ⟨policy, resolved⟩ := ArchiveSpec.exists_effectivePolicy defaultPeriod usable readable
    cases unreadable.symm.trans resolved
  | refused usable inactive absent taken =>
    exact ⟨[], .refused usable inactive absent taken, unindexed, empty⟩
  | queued policy usable inactive absent resolved free running =>
    have inserted {key : String} : (world.queue.insert name.queueKey
        (PendingRecord.ofRequest name policy spec.aliasName))[key]? =
          if key = name.queueKey then some (.ofRequest name policy spec.aliasName)
          else world.queue[key]? := Table.getElem?_insert_iff
    by_cases same : name.baseName = name.queueKey
    · refine ⟨[], .pending _ usable inactive ?_ (PendingRecord.holds_ofRequest name policy spec.aliasName),
        unindexed, empty⟩
      rw [inserted, if_pos same]
    · refine ⟨[], .refused usable inactive ?_ (Table.mem_insert_iff.mpr (.inr rfl)), unindexed, empty⟩
      rw [inserted, if_neg same, absent]

end Registered
end ArchiveIntake
