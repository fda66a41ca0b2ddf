import ArchiveIntake.Proofs.Disjoint
import ArchiveIntake.Proofs.Interruption
import ArchiveIntake.Proofs.Mirror

/-! What one step writes into the configuration store, whatever is out of order. An item or a
look-up adds to the record of an active variable, and a promotion puts a new record in the place of
any old one. Both register aliases, and the index then names their variable. -/

namespace ArchiveIntake

structure ConfigStore.IsBlank (store : ConfigStore) : Prop where
  inactive : ∀ pv, store.activeRecord pv = .ok none
  unindexed : ∀ name, store.resolveAlias name = .ok none

theorem ConfigStore.isBlank_memoryOf (config : AdmissionConfig) : (memoryOf config).IsBlank := by
  constructor <;> intro name <;> simp [memoryOf, MemoryStore.ofConfig, activeRecord, resolveAlias,
    MemoryStore.activeRecord]

theorem ConfigStore.isBlank_databaseOf (config : AdmissionConfig) : (databaseOf config).IsBlank := by
  unfold databaseOf
  rw [DatabaseStore.seed_empty]
  constructor
  · intro pv
    simp only [activeRecord]
    rw [DatabaseStore.activeRecord_of_table rfl]
    simp
  · intro name
    simp [resolveAlias, DatabaseStore.resolveAlias]

/-- Aliases have been registered for a variable, and no others have. -/
def ConfigStore.Indexes (pv : String) (aliases : List String) (before after : ConfigStore) : Prop :=
  ∀ name, after.resolveAlias name = if name ∈ aliases then .ok (some pv) else before.resolveAlias name

namespace ConfigStore.Indexes
variable {pv : String} {aliases more : List String} {store middle after : ConfigStore}

theorem of_same (same : after.aliasIndex = store.aliasIndex) : Indexes pv [] store after := by
  intro name
  simp [ConfigStore.resolveAlias_eq, same]

theorem of_addAlias {name : String} (written : store.addAlias name pv = (.ok (), after)) :
    Indexes pv [name] store after := by
  intro other
  simp [ConfigStore.resolveAlias_addAlias written]

theorem trans (first : Indexes pv aliases store middle) (second : Indexes pv more middle after) :
    Indexes pv (aliases ++ more) store after := by
  intro name
  rw [second name, first name]
  by_cases later : name ∈ more <;> simp [later]

end ConfigStore.Indexes

def Operation.addressed : Operation → Option (String × Option String)
  | .archivePv catalog spec => some (spec.baseName catalog, spec.aliasName)
  | .check name aliasName => some (name.baseName, aliasName)
  | .archivePlain _ | .archiveStructured _ | .archiveBatch _ | .submit _ _ _ | .status _
  | .confirmStarted _ | .promote _ _ => none

/-- What a step writes into the configuration store. -/
inductive StoreWrites (surroundings : Surroundings) (defaultPeriod : Single) (world : World)
    (step : Operation) (after : World) : Prop
  | nothing (same : after.store = world.store)
  /-- Fields, and at most the alias that the step brings, go into the record of an active variable. -/
  | merged (pv : String) (aliasName : Option String) (record : ActiveRecord)
      (fields aliases : List String) (addressed : step.addressed = some (pv, aliasName))
      (own : aliases <+: aliasName.toList)
      (found : world.store.activeRecord pv = .ok (some record))
      (merge : RecordMerge pv fields aliases world.store after.store)
      (index : ConfigStore.Indexes pv aliases world.store after.store)
  /-- A request becomes the record of the confirmed variable, with all its aliases if nothing fails. -/
  | renewed (pv : String) (pending : PendingRecord) (registered : List String)
      (confirms : step = .confirmStarted pv) (found : world.queue[Name.queueKey pv]? = some pending)
      (begins : registered <+: pending.aliases)
      (complete : (step.program defaultPeriod).faults surroundings world = [] →
        registered = pending.aliases)
      (promoted : Promoted pv { pending with aliases := registered } world.store after.store)
      (index : ConfigStore.Indexes pv registered world.store after.store)

variable {surroundings : Surroundings} {defaultPeriod : Single} {world middle after : World}
  {name : NormalizedName} {aliasName : Option String} {step : Operation}

/-! A look-up writes the field and registers the alias, as far as it gets. -/

theorem FieldCourse.indexes {record : ActiveRecord} {result : Except AdmissionError ActiveRecord}
    (course : FieldCourse surroundings name record world result after) :
    ConfigStore.Indexes name.baseName [] world.store after.store := .of_same course.aliasIndex

theorem AliasCourse.registers {record : ActiveRecord} {result : Except AdmissionError ActiveRecord}
    (course : AliasCourse surroundings name aliasName record world result after) :
    ∃ aliases, aliases <+: aliasName.toList ∧
      RecordMerge name.baseName [] aliases world.store after.store ∧
      ConfigStore.Indexes name.baseName aliases world.store after.store := by
  cases course with
  | none | unregistered => exact ⟨[], List.nil_prefix, .refl _ _, .of_same rfl⟩
  | registered added store given written =>
    rw [given]
    exact ⟨[added], List.prefix_refl _, .of_addAlias written, .of_addAlias written⟩

theorem CheckCourse.storeWrites {result : Except AdmissionError Admission}
    (addressed : step.addressed = some (name.baseName, aliasName))
    (course : CheckCourse surroundings name aliasName world result after) :
    StoreWrites surroundings defaultPeriod world step after := by
  have merged {record other : ActiveRecord} {middle : World}
      {answer last : Except AdmissionError ActiveRecord}
      (found : world.store.activeRecord name.baseName = .ok (some record))
      (field : FieldCourse surroundings name record world answer middle)
      (registration : AliasCourse surroundings name aliasName other middle last after) :
      StoreWrites surroundings defaultPeriod world step after := by
    obtain ⟨fields, store, readings, -, rfl, first⟩ := field.merge found
    obtain ⟨aliases, own, second, indexed⟩ := registration.registers
    exact .merged name.baseName aliasName record _ _ addressed own found (first.trans second)
      (field.indexes.trans indexed)
  cases course with
  | unread | unedited | pending | unknown => exact .nothing rfl
  | fieldLost record e _ found field =>
    obtain ⟨fields, store, readings, -, rfl, merge⟩ := field.merge found
    exact .merged name.baseName aliasName record fields [] addressed List.nil_prefix found merge
      field.indexes
  | aliasLost record merged' e middle _ found field registration => exact merged found field registration
  | active record merged' last middle _ found field registration => exact merged found field registration

theorem ItemCourse.storeWrites {spec : ArchiveSpec} {result : Except AdmissionError ArchiveStatus}
    (addressed : step.addressed = some (name.baseName, spec.aliasName))
    (course : ItemCourse surroundings defaultPeriod name spec world result after) :
    StoreWrites surroundings defaultPeriod world step after := by
  cases course with
  | invalid | unresolved => exact .nothing rfl
  | unchecked _ _ usable checked => exact checked.storeWrites addressed
  | registered _ _ usable known checked => exact checked.storeWrites addressed
  | submitted policy submission _ usable inactive absent resolved submitted =>
    cases submitted <;> exact .nothing rfl

/-! A promotion writes the record and then registers the aliases one after another. -/

private theorem registerTaken_writes {pending : PendingRecord} {result : Except Failure Bool}
    {before : ConfigStore} {now : Time} {pv : String}
    (written : before.updateActiveRecord pv
      { ActiveRecord.new pv now with archivedFields := pending.requestedFields } = (.ok (), world.store))
    (ran : ((registerAliases pv pending.aliases).bind fun
        | .error failure => .done (.error failure)
        | .ok () => .done (.ok true) : Program (Except Failure Bool)).run surroundings world =
      (result, after)) :
    ∃ registered, registered <+: pending.aliases ∧
      Promoted pv { pending with aliases := registered } before after.store ∧
      ConfigStore.Indexes pv registered before after.store ∧
      ∀ moved, result = .ok moved → registered = pending.aliases := by
  rw [Program.run_bind] at ran
  cases loop : (registerAliases pv pending.aliases).run surroundings world with
  | mk reply final =>
    rw [loop] at ran
    obtain ⟨registered, store, rfl, merge, index, ended⟩ := registerAliases_course loop
    have indexed : ConfigStore.Indexes pv registered before store :=
      .trans (.of_same (ConfigStore.aliasIndex_updateActiveRecord written)) index
    rcases ended with ⟨rfl, rfl⟩ | ⟨lost, rest, failure, rfl, aliases, fault⟩
    · cases ran
      exact ⟨_, List.prefix_refl _, .of_steps written merge, indexed, fun _ _ => rfl⟩
    · cases ran
      refine ⟨registered, ⟨_, aliases.symm⟩, .of_steps written merge, indexed, ?_⟩
      rintro moved ⟨⟩

theorem promote_writes {key pv : String} {result : Except Failure Bool}
    (ran : (promote key pv).run surroundings world = (result, after)) :
    after.store = world.store ∨ ∃ pending registered, world.queue[key]? = some pending ∧
      registered <+: pending.aliases ∧
      Promoted pv { pending with aliases := registered } world.store after.store ∧
      ConfigStore.Indexes pv registered world.store after.store ∧
      ∀ moved, result = .ok moved → registered = pending.aliases := by
  rw [promote, Program.run_ask] at ran
  have taking : (Request.takePending key).Reads id := ⟨fun _ => rfl, fun _ => rfl⟩
  rcases World.respond_cases taking with ⟨failure, _, refused, same⟩ | ⟨_, answered, _⟩
  · have refused : (world.respond surroundings (.takePending key)).1 = .error failure := refused
    rw [refused, same] at ran
    cases ran
    exact .inl rfl
  rw [answered] at ran
  cases queued : world.queue[key]? with
  | none =>
    simp only [World.answer, World.takePending, queued, Program.run_done] at ran
    cases ran
    exact .inl rfl
  | some pending =>
    simp only [World.answer, World.takePending, queued] at ran
    rw [Program.run_ask, World.respond_readClock, Program.run_ask] at ran
    have writing (record : ActiveRecord) : (Request.updateActiveRecord pv record).Reads id :=
      ⟨fun _ => rfl, fun _ => rfl⟩
    rcases World.respond_cases (writing _) with ⟨_, _, refused, same⟩ | ⟨_, answered, written⟩
    · rw [same] at ran
      simp only [id] at refused
      rw [refused] at ran
      cases ran
      exact .inl rfl
    · rw [answered] at ran
      simp only [id] at written
      rw [written] at ran
      obtain ⟨registered, promoted⟩ := registerTaken_writes (Prod.ext written rfl) ran
      exact .inr ⟨pending, registered, rfl, promoted⟩

theorem confirmStarted_storeWrites (pv : String) :
    StoreWrites surroundings defaultPeriod world (.confirmStarted pv)
      (((Operation.confirmStarted pv).program defaultPeriod).run surroundings world).2 := by
  cases ran : (promote (Name.queueKey pv) pv).run surroundings world with
  | mk reply final =>
    have ended : (confirmStarted pv).run surroundings world =
        (reply.mapError AdmissionError.collaborator, final) := by
      rw [confirmStarted, Attempt.collaborate, Attempt.run_await, ran]
    have after : (((Operation.confirmStarted pv).program defaultPeriod).run surroundings world).2 = final :=
      congrArg Prod.snd ended
    rw [after]
    rcases promote_writes ran with same | ⟨pending, registered, found, begins, promoted, index, complete⟩
    · exact .nothing same
    · refine .renewed pv pending registered rfl found begins ?_ promoted index
      intro steady
      obtain ⟨moved, answered, -⟩ := confirmStarted_effect ⟨ended, steady⟩
      cases reply with
      | ok other => exact complete other rfl
      | error failure => cases answered

/-- Every step that a client can make writes in one of three ways. -/
theorem Operation.storeWrites (external : step.isInternal = false) (single : step.isStep = true) :
    StoreWrites surroundings defaultPeriod world step
      ((step.program defaultPeriod).run surroundings world).2 := by
  cases step with
  | archivePlain | archiveStructured | archiveBatch => cases single
  | submit | promote => cases external
  | archivePv catalog spec =>
    cases ran : (ArchiveIntake.archivePv defaultPeriod catalog spec).run surroundings world with
    | mk result after =>
      have ended : (((Operation.archivePv catalog spec).program defaultPeriod).run surroundings world).2 =
        after := congrArg Prod.snd ran
      rw [ended]
      rcases archivePv_course ran with ⟨_, _, _, rfl⟩ | ⟨name, status, named, course, _⟩
      · exact .nothing rfl
      · obtain ⟨rfl, -⟩ := ArchiveSpec.normalize_eq_ok.mp named
        exact course.storeWrites rfl
  | check name aliasName =>
    cases ran : (Admission.check name aliasName).run surroundings world with
    | mk result after =>
      have ended : (((Operation.check name aliasName).program defaultPeriod).run surroundings world).2 =
        after := congrArg Prod.snd ran
      rw [ended]
      exact (Admission.check_course ran).storeWrites rfl
  | status raw =>
    have same := (status_onlyLooks raw).run surroundings world
    exact .nothing (congrArg World.store same)
  | confirmStarted pv => exact confirmStarted_storeWrites pv

theorem Operation.external_steps {operations : List Operation} (catalog : Catalog)
    (external : ∀ operation ∈ operations, operation.isInternal = false) :
    ∀ step ∈ operations.flatMap (·.steps catalog), step.isInternal = false ∧ step.isStep = true := by
  intro step member
  obtain ⟨operation, given, member⟩ := List.mem_flatMap.mp member
  exact ⟨Operation.isInternal_of_mem_steps (external operation given) member,
    Operation.isStep_of_mem_steps
      (Operation.isSubmission_of_not_isInternal (external operation given)) member⟩

end ArchiveIntake
