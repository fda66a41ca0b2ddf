import ArchiveIntake.Proofs.Course

/-! What an item leaves behind when it ends in an exception. An item is no transaction: its
requests are made one after another and none is taken back. Only two of them write before
another one can fail, the field of an active variable and the insertion of a new request,
so these are the only traces that an exception can leave. -/

namespace ArchiveIntake

inductive Residue (surroundings : Surroundings) (defaultPeriod : Single) (name : NormalizedName)
    (spec : ArchiveSpec) (world : World) : World → Prop
  /-- Nothing has happened, but the clock may have been read. -/
  | none (readings : Nat) : Residue surroundings defaultPeriod name spec world { world with readings }
  | field (record : ActiveRecord) (field added : String) (store : ConfigStore) (failure : Failure)
      (found : world.store.activeRecord name.baseName = .ok (some record))
      (part : name.standardField = some field) (new : field ∉ record.archivedFields)
      (given : spec.aliasName = some added)
      (written : world.store.updateActiveRecord name.baseName
        (record.withField field (surroundings.clock world.readings)) = (.ok (), store))
      (merge : RecordMerge name.baseName [field] [] world.store store)
      (failed : World.fault? surroundings { world with store, readings := world.readings + 1 }
        (.addAlias added name.baseName) = some failure) :
      Residue surroundings defaultPeriod name spec world
        { world with store, readings := world.readings + 1 }
  | request (policy : EffectivePolicy) (failure : Failure)
      (inactive : world.store.activeRecord name.baseName = .ok none)
      (absent : world.queue[name.baseName]? = Option.none) (free : name.queueKey ∉ world.queue)
      (resolved : spec.effectivePolicy defaultPeriod (world.minimumPeriodText surroundings) =
        .ok policy)
      (failed : World.fault? surroundings
        { world with queue := world.queue.insert name.queueKey (.ofRequest name policy spec.aliasName) }
        (.startWorkflow name.baseName) = some failure) :
      Residue surroundings defaultPeriod name spec world
        { world with queue := world.queue.insert name.queueKey (.ofRequest name policy spec.aliasName) }

variable {surroundings : Surroundings} {defaultPeriod : Single} {name : NormalizedName}
  {spec : ArchiveSpec} {world after : World} {e : AdmissionError}

theorem Residue.unchanged (residue : Residue surroundings defaultPeriod name spec world after) :
    after.engine = world.engine ∧
      ∀ added, after.store.resolveAlias added = world.store.resolveAlias added := by
  cases residue with
  | none readings => exact ⟨rfl, fun _ => rfl⟩
  | field record field added store failure found part new given written merge failed =>
    exact ⟨rfl, ConfigStore.resolveAlias_updateActiveRecord written⟩
  | request policy failure inactive absent free resolved failed => exact ⟨rfl, fun _ => rfl⟩

theorem CheckCourse.residue (course : CheckCourse surroundings name spec.aliasName world (.error e) after) :
    Residue surroundings defaultPeriod name spec world after := by
  cases course with
  | unread failure failed => exact .none world.readings
  | unedited failure inactive failed => exact .none world.readings
  | fieldLost record _ _ found field =>
    cases field with
    | unwritten field failure part new failed => exact .none (world.readings + 1)
  | aliasLost record merged _ middle _ found field registration =>
    cases registration with
    | unregistered added failure given failed =>
      cases field with
      | known known => exact .none world.readings
      | written field store part new written =>
        have merge := RecordMerge.of_updateActiveRecord found written
        exact .field record field added store failure found part new given written merge failed

theorem ItemCourse.residue {result : Except AdmissionError ArchiveStatus}
    (course : ItemCourse surroundings defaultPeriod name spec world result after)
    (ended : result = .error e) : Residue surroundings defaultPeriod name spec world after := by
  cases course with
  | invalid e unusable continues => exact .none world.readings
  | unresolved e usable inactive absent unreadable => exact .none world.readings
  | unchecked _ _ usable checked => exact checked.residue
  | registered admission _ usable known checked => cases ended
  | submitted policy submission _ usable inactive absent resolved submitted =>
    cases submitted with
    | refused taken | queued free running => cases ended
    | unqueued failure failed => exact .none world.readings
    | unstarted failure free failed => exact .request policy failure inactive absent free resolved failed

/-- An item that ends in an exception has started nothing and registered no alias. It has
left queue and records as they were, except that a new field stays in the active record
when the alias could not be registered after it, and that a new request stays queued when
the engine could not be told of it. -/
theorem exception_leaves_residue (surroundings : Surroundings) (defaultPeriod : Single)
    (catalog : Catalog) (world after : World) (spec : ArchiveSpec) (outcome : ArchiveOutcome)
    (ran : (archivePv defaultPeriod catalog spec).run surroundings world = (.ok outcome, after))
    (failed : outcome.status = .exceptionOccurred) :
    ∃ name, Name.normalize catalog spec.pv = .ok name ∧ outcome.pvName = name.baseName ∧
      after.engine = world.engine ∧
      (∀ added, after.store.resolveAlias added = world.store.resolveAlias added) ∧
      Residue surroundings defaultPeriod name spec world after := by
  rcases archivePv_course ran with ⟨_, _, impossible, _⟩ | ⟨name, result, valid, course, answered⟩
  · cases impossible
  cases result with
  | ok status =>
    cases answered
    cases failed
    rcases course.status_cases rfl with impossible | impossible <;> cases impossible
  | error e =>
    have residue := course.residue rfl
    obtain ⟨engine, aliases⟩ := residue.unchanged
    exact ⟨name, valid, outcomeOf_pvName answered.symm, engine, aliases, residue⟩

/-- The field of an active variable is written, and then its alias cannot be registered. -/
theorem exception_leaves_residue_of_lost_alias :
    let record : ActiveRecord := ⟨"SRC", ∅, ∅, 5⟩
    let start : World := .fresh (.memory ⟨(∅ : Table ActiveRecord).insert "SRC" record, ∅, ∅, ["HIHI"]⟩)
      .noting
    let spec : ArchiveSpec := { pv := "SRC.HIHI", aliasName := some "A" }
    let surroundings := Surroundings.withOutages ["add_alias"] fun _ => 7
    let archived := (archivePv AdmissionConfig.default.defaultPeriod start.catalog spec).run surroundings
      start
    archived.1 = .ok ⟨"SRC", .exceptionOccurred⟩ ∧
      ∃ name, Name.normalize start.catalog spec.pv = .ok name ∧ "SRC" = name.baseName ∧
        archived.2.engine = start.engine ∧
        (∀ added, archived.2.store.resolveAlias added = start.store.resolveAlias added) ∧
        Residue surroundings AdmissionConfig.default.defaultPeriod name spec start archived.2 :=
  ⟨rfl, exception_leaves_residue _ _ _ _ _ _ ⟨"SRC", .exceptionOccurred⟩ rfl rfl⟩

/-- A new request of which the engine cannot be told is answered with an exception and stays
queued. -/
theorem unstarted_request_stays_queued :
    let start : World := .fresh (.memoryOf .default) .noting
    ∃ after, (archivePv AdmissionConfig.default.defaultPeriod start.catalog { pv := "SRC" }).run
        (.withOutages ["start_workflow"] fun _ => 0) start = (.ok ⟨"SRC", .exceptionOccurred⟩, after) ∧
      "SRC" ∉ start.queue ∧ "SRC" ∈ after.queue :=
  ⟨_, rfl, by decide +kernel, by decide +kernel⟩

end ArchiveIntake
