import ArchiveIntake.Proofs.Interchange
import ArchiveIntake.Proofs.Locality
import ArchiveIntake.Proofs.Settled

/-! What a look-up with its merges reports is what store and queue hold afterwards. The record of an
active variable is put together beside the writes of its field and its alias, and read back as it
was put together: a store in memory keeps it, and so does a database at a time that it can store.
Merging the same once more finds all of it there. -/

namespace ArchiveIntake

open DatabaseStore

variable {surroundings : Surroundings} {name : NormalizedName} {aliasName : Option String}
  {record merged : ActiveRecord} {world middle after : World}

theorem ConfigStore.kept_of_storable {store : ConfigStore} {pv : String} {found : ActiveRecord}
    (present : store.activeRecord pv = .ok (some found)) (named : record.pvName = found.pvName)
    (storable : Storable record.modificationTime) : store.kept pv record = record := by
  cases store with
  | memory store => rfl
  | database db =>
    rw [DatabaseStore.activeRecord_pvName present] at named
    simp only [kept, storedTime_of_storable storable, ← named]

theorem FieldCourse.readBack (clock : ∀ reading, Storable (surroundings.clock reading))
    (found : world.store.activeRecord name.baseName = .ok (some record))
    (course : FieldCourse surroundings name record world (.ok merged) after) :
    after.store.activeRecord name.baseName = .ok (some merged) ∧
      ∀ field ∈ name.standardField, field ∈ merged.archivedFields := by
  cases course with
  | known known => exact ⟨found, known⟩
  | written field store part new written =>
    refine ⟨?_, ?_⟩
    · let added := record.withField field (surroundings.clock world.readings)
      have kept : world.store.kept name.baseName added = added :=
        ConfigStore.kept_of_storable found rfl (clock _)
      rw [ConfigStore.activeRecord_updateActiveRecord written, if_pos rfl, kept]
    · intro other member
      cases part.symm.trans member
      exact NameSet.mem_insert_iff.mpr (.inr rfl)

theorem AliasCourse.readBack {last : ActiveRecord}
    (found : world.store.activeRecord name.baseName = .ok (some record))
    (course : AliasCourse surroundings name aliasName record world (.ok last) after) :
    after.store.activeRecord name.baseName = .ok (some last) ∧
      last.archivedFields = record.archivedFields ∧ ∀ added ∈ aliasName, added ∈ last.aliases := by
  cases course with
  | none absent => exact ⟨found, rfl, by simp [absent]⟩
  | registered added store given written =>
    refine ⟨?_, rfl, ?_⟩
    · rw [ConfigStore.activeRecord_addAlias written, if_pos rfl, found]
      rfl
    · intro other member
      cases given.symm.trans member
      exact NameSet.mem_insert_iff.mpr (.inr rfl)

namespace CheckCourse
variable {admission : Admission}

theorem registration (clock : ∀ reading, Storable (surroundings.clock reading))
    (course : CheckCourse surroundings name aliasName world (.ok admission) after) :
    after.registration name.baseName = .ok admission := by
  unfold World.registration
  cases course with
  | active record merged last middle _ found field registration =>
    obtain ⟨held, -⟩ := field.readBack clock found
    rw [(registration.readBack held).1]
    rfl
  | pending record inactive found =>
    simp only [inactive, Table.getElem?_insert_iff, if_true]
    rfl
  | unknown inactive absent =>
    simp only [inactive, absent]
    rfl

theorem again {result : Except AdmissionError Admission} {last : World} (calm : surroundings.FaultFree)
    (clock : ∀ reading, Storable (surroundings.clock reading))
    (course : CheckCourse surroundings name aliasName world (.ok admission) after)
    (repeated : CheckCourse surroundings name aliasName after result last) :
    (∃ found, result = .ok found) ∧ last = after := by
  cases course with
  | active record merged final middle _ found field registration =>
    obtain ⟨held, fields⟩ := field.readBack clock found
    obtain ⟨present, same, aliases⟩ := registration.readBack held
    rw [← same] at fields
    obtain ⟨registered, indexed⟩ := registration.aliasIndex
    obtain ⟨⟨found, answered, -⟩, rfl⟩ := repeated.of_active calm present ⟨fields, aliases⟩ indexed
    refine ⟨⟨found, answered⟩, ?_⟩
    simp only [World.reindexed, ConfigStore.reindex_eq_self registered]
  | pending record inactive found =>
    let edited := (record.applyAll (Admission.pendingEdits name aliasName)).1
    let after : World := { world with queue := world.queue.insert name.baseName edited }
    have inactive : after.store.activeRecord name.baseName = .ok none := inactive
    have held : after.queue[name.baseName]? = some edited := Table.getElem?_insert_iff.trans (if_pos rfl)
    have merge := PendingMerge.of_pendingEdits record name aliasName
    obtain ⟨⟨found, answered, -⟩, rfl⟩ := repeated.of_pending calm inactive held merge.holds
    exact ⟨⟨found, answered⟩, rfl⟩
  | unknown inactive absent =>
    obtain ⟨answered, rfl⟩ := repeated.of_absent calm inactive absent
    exact ⟨⟨_, answered⟩, rfl⟩

theorem unchanged (fieldless : name.standardField = none)
    (course : CheckCourse surroundings name none world (.ok admission) after) : after = world := by
  cases course with
  | active record merged last middle _ found field registration =>
    obtain ⟨-, rfl⟩ := field.of_known (by simp [fieldless])
    cases registration with
    | none => rfl
    | registered added store given => cases given
  | pending record inactive found =>
    have holds : record.Holds name.standardField none := ⟨by simp [fieldless], nofun⟩
    rw [PendingRecord.applyAll_of_holds holds, Table.insert_eq_self found]
  | unknown => rfl

end CheckCourse

theorem Admission.check_completes {result : Except AdmissionError Admission}
    (completed : (check name aliasName).Completes surroundings world result after) :
    ∃ admission, result = .ok admission ∧
      CheckCourse surroundings name aliasName world (.ok admission) after := by
  have course := check_course completed.1
  cases check_effect completed with
  | active | pending | unknown => exact ⟨_, rfl, course⟩

/-- When nothing fails, a look-up with its merges reports what the variable has from then on. The same
look-up reports it again and changes nothing, and without a field and an alias nothing was changed
in the first place. -/
theorem check_reports_what_is_stored (surroundings : Surroundings) (world : World) (raw : String)
    (name : NormalizedName) (aliasName : Option String) (calm : surroundings.FaultFree)
    (clock : ∀ reading, Storable (surroundings.clock reading))
    (valid : Name.normalize world.catalog raw = .ok name)
    (steady : (ExceptT.run (Admission.check name aliasName)).faults surroundings world = []) :
    ∃ admission after, (Admission.check name aliasName).run surroundings world = (.ok admission, after) ∧
      (status raw).run surroundings after = (.ok admission, after) ∧
      (Admission.check name aliasName).run surroundings after = (.ok admission, after) ∧
      (name.standardField = none → aliasName = none →
        after = world ∧ (status raw).run surroundings world = (.ok admission, world)) := by
  rcases ran : (Admission.check name aliasName).run surroundings world with ⟨result, after⟩
  obtain ⟨admission, rfl, course⟩ := Admission.check_completes ⟨ran, steady⟩
  have registered := course.registration clock
  have reported : (status raw).run surroundings after = (.ok admission, after) := by
    have same : after.catalog = world.catalog := by
      unfold World.catalog
      rw [(Attempt.run_settings ran).standardFields]
    rw [status_run calm, same, valid]
    simp only [Except.bind, registered]
    rfl
  refine ⟨admission, after, rfl, reported, ?_, ?_⟩
  · rcases repeated : (Admission.check name aliasName).run surroundings after with ⟨again, last⟩
    have courseAgain := Admission.check_course repeated
    obtain ⟨⟨found, rfl⟩, rfl⟩ := course.again calm clock courseAgain
    -- Both look-ups report what is registered, and that has not changed in between.
    cases registered.symm.trans (courseAgain.registration clock)
    rfl
  · rintro fieldless rfl
    obtain rfl := course.unchanged fieldless
    exact ⟨rfl, reported⟩

/-- A new field and a new alias of a variable in a database, in the seventh nanosecond. -/
theorem check_reports_what_is_stored_of_new_field :
    let stored : ActiveRecord := ⟨"A", .ofList ["LOLO"], ∅, 3⟩
    let shown : Admission → List String × List String × Time
      | .alreadyActive record => (record.archivedFields.toList, record.aliases.toList, record.modificationTime)
      | _ => ([], [], 0)
    let start : World :=
      .fresh (ConfigStore.updateActiveRecord "A" stored (.databaseOf .default)).2 .noting
    let check := (Admission.check ⟨"A", .standard "HIHI"⟩ (some "B")).run (.calm 7)
    (check start).1.toOption.map shown = some (["HIHI", "LOLO"], ["B"], 7) ∧
      (status "A.HIHI").run (.calm 7) (check start).2 = check start ∧
      check (check start).2 = check start := by
  intro stored shown start check
  have seven : Storable 7 := ⟨by decide, by decide⟩
  have normalized : (Name.normalize start.catalog "A.HIHI").toOption = some ⟨"A", .standard "HIHI"⟩ := by
    decide +kernel
  have valid : Name.normalize start.catalog "A.HIHI" = .ok ⟨"A", .standard "HIHI"⟩ := by
    generalize Name.normalize start.catalog "A.HIHI" = result at normalized ⊢
    cases result <;> cases normalized
    rfl
  obtain ⟨_, _, ran, read, again, -⟩ := check_reports_what_is_stored (.calm 7) start "A.HIHI"
    ⟨"A", .standard "HIHI"⟩ (some "B") (fun _ => rfl) (fun _ => seven) valid (by decide +kernel)
  have same : check start = _ := ran
  refine ⟨by decide +kernel, ?_, ?_⟩
  · rw [same]
    exact read
  · rw [same]
    exact again

end ArchiveIntake
