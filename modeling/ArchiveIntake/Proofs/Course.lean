import ArchiveIntake.Proofs.Item
import ArchiveIntake.Proofs.Outage

/-! The course of one item, whatever is out of order. A course says which requests
succeeded, which one failed if any, and what world this leaves, so that later proofs split
into its cases and never follow the requests. Every run of an item has a course. -/

namespace ArchiveIntake

section Courses
variable (surroundings : Surroundings) (name : NormalizedName) (aliasName : Option String)

/-- How the standard field of a name goes into the active record of its variable. -/
inductive FieldCourse (record : ActiveRecord) (world : World) :
    Except AdmissionError ActiveRecord → World → Prop
  | known (known : ∀ field ∈ name.standardField, field ∈ record.archivedFields) :
      FieldCourse record world (.ok record) world
  | written (field : String) (store : ConfigStore) (part : name.standardField = some field)
      (new : field ∉ record.archivedFields)
      (written : world.store.updateActiveRecord name.baseName
        (record.withField field (surroundings.clock world.readings)) = (.ok (), store)) :
      FieldCourse record world (.ok (record.withField field (surroundings.clock world.readings)))
        { world with store, readings := world.readings + 1 }
  | unwritten (field : String) (failure : Failure) (part : name.standardField = some field)
      (new : field ∉ record.archivedFields)
      (failed : World.fault? surroundings { world with readings := world.readings + 1 }
        (.updateActiveRecord name.baseName
          (record.withField field (surroundings.clock world.readings))) = some failure) :
      FieldCourse record world (.error (.collaborator failure))
        { world with readings := world.readings + 1 }

inductive AliasCourse (record : ActiveRecord) (world : World) :
    Except AdmissionError ActiveRecord → World → Prop
  | none (absent : aliasName = none) : AliasCourse record world (.ok record) world
  | registered (added : String) (store : ConfigStore) (given : aliasName = some added)
      (written : world.store.addAlias added name.baseName = (.ok (), store)) :
      AliasCourse record world (.ok (record.withAlias added)) { world with store }
  | unregistered (added : String) (failure : Failure) (given : aliasName = some added)
      (failed : world.fault? surroundings (.addAlias added name.baseName) = some failure) :
      AliasCourse record world (.error (.collaborator failure)) world

/-- How a variable is looked up, and what an item brings is merged into what is found. -/
inductive CheckCourse (world : World) : Except AdmissionError Admission → World → Prop
  | unread (failure : Failure)
      (failed : world.fault? surroundings (.activeRecord name.baseName) = some failure) :
      CheckCourse world (.error (.collaborator failure)) world
  | fieldLost (record : ActiveRecord) (e : AdmissionError) (after : World)
      (found : world.store.activeRecord name.baseName = .ok (some record))
      (field : FieldCourse surroundings name record world (.error e) after) :
      CheckCourse world (.error e) after
  | aliasLost (record merged : ActiveRecord) (e : AdmissionError) (middle after : World)
      (found : world.store.activeRecord name.baseName = .ok (some record))
      (field : FieldCourse surroundings name record world (.ok merged) middle)
      (registration : AliasCourse surroundings name aliasName merged middle (.error e) after) :
      CheckCourse world (.error e) after
  | active (record merged last : ActiveRecord) (middle after : World)
      (found : world.store.activeRecord name.baseName = .ok (some record))
      (field : FieldCourse surroundings name record world (.ok merged) middle)
      (registration : AliasCourse surroundings name aliasName merged middle (.ok last) after) :
      CheckCourse world (.ok (.alreadyActive last)) after
  | unedited (failure : Failure) (inactive : world.store.activeRecord name.baseName = .ok none)
      (failed : world.fault? surroundings
        (.updatePending name.baseName (Admission.pendingEdits name aliasName)) = some failure) :
      CheckCourse world (.error (.collaborator failure)) world
  | pending (record : PendingRecord) (inactive : world.store.activeRecord name.baseName = .ok none)
      (found : world.queue[name.baseName]? = some record) :
      CheckCourse world
        (.ok (.alreadyPending (record.applyAll (Admission.pendingEdits name aliasName)).1))
        { world with
          queue := world.queue.insert name.baseName
            (record.applyAll (Admission.pendingEdits name aliasName)).1 }
  | unknown (inactive : world.store.activeRecord name.baseName = .ok none)
      (absent : world.queue[name.baseName]? = none) :
      CheckCourse world (.ok .notRegistered) world

/-- How a new request is queued and started. -/
inductive SubmitCourse (policy : EffectivePolicy) (world : World) :
    Except AdmissionError Submission → World → Prop
  | unqueued (failure : Failure)
      (failed : world.fault? surroundings
        (.insertIfAbsent name.queueKey (.ofRequest name policy aliasName)) = some failure) :
      SubmitCourse policy world (.error (.submission name.baseName failure)) world
  | refused (taken : name.queueKey ∈ world.queue) :
      SubmitCourse policy world (.ok .alreadyQueued) world
  | unstarted (failure : Failure) (free : name.queueKey ∉ world.queue)
      (failed : World.fault? surroundings
        { world with queue := world.queue.insert name.queueKey (.ofRequest name policy aliasName) }
        (.startWorkflow name.baseName) = some failure) :
      SubmitCourse policy world (.error (.submission name.baseName failure))
        { world with queue := world.queue.insert name.queueKey (.ofRequest name policy aliasName) }
  | queued (free : name.queueKey ∉ world.queue) (running : world.engine.running = true) :
      SubmitCourse policy world (.ok .submitted)
        { world with
          queue := world.queue.insert name.queueKey (.ofRequest name policy aliasName)
          engine := (world.engine.start name.baseName).2 }

end Courses

def Submission.status : Submission → ArchiveStatus
  | .submitted => .submitted
  | .alreadyQueued => .alreadySubmitted

def World.minimumPeriodText (surroundings : Surroundings) (world : World) : Option String :=
  (world.respond surroundings (.property minimumPeriodProperty)).1

/-- The course of an item with a valid name. -/
inductive ItemCourse (surroundings : Surroundings) (defaultPeriod : Single) (name : NormalizedName)
    (spec : ArchiveSpec) (world : World) : Except AdmissionError ArchiveStatus → World → Prop
  | invalid (e : AdmissionError) (unusable : spec.overridesAreValid = false)
      (continues : e.abortsBatch = false) :
      ItemCourse surroundings defaultPeriod name spec world (.error e) world
  | unchecked (e : AdmissionError) (after : World) (usable : spec.overridesAreValid = true)
      (checked : CheckCourse surroundings name spec.aliasName world (.error e) after) :
      ItemCourse surroundings defaultPeriod name spec world (.error e) after
  | registered (admission : Admission) (after : World) (usable : spec.overridesAreValid = true)
      (known : admission.isRegistered = true)
      (checked : CheckCourse surroundings name spec.aliasName world (.ok admission) after) :
      ItemCourse surroundings defaultPeriod name spec world (.ok .alreadySubmitted) after
  | unresolved (e : AdmissionError) (usable : spec.overridesAreValid = true)
      (inactive : world.store.activeRecord name.baseName = .ok none)
      (absent : world.queue[name.baseName]? = none)
      (unreadable : spec.effectivePolicy defaultPeriod (world.minimumPeriodText surroundings) =
        .error e) :
      ItemCourse surroundings defaultPeriod name spec world (.error e) world
  | submitted (policy : EffectivePolicy) (submission : Except AdmissionError Submission)
      (after : World) (usable : spec.overridesAreValid = true)
      (inactive : world.store.activeRecord name.baseName = .ok none)
      (absent : world.queue[name.baseName]? = none)
      (resolved : spec.effectivePolicy defaultPeriod (world.minimumPeriodText surroundings) =
        .ok policy)
      (submitted : SubmitCourse surroundings name spec.aliasName policy world submission after) :
      ItemCourse surroundings defaultPeriod name spec world (submission.map Submission.status) after

variable {surroundings : Surroundings} {defaultPeriod : Single} {world after : World}
  {name : NormalizedName} {spec : ArchiveSpec} {aliasName : Option String} {record : ActiveRecord}

namespace Admission

theorem mergeField_course {result : Except AdmissionError ActiveRecord}
    (ran : (mergeField name record).run surroundings world = (result, after)) :
    FieldCourse surroundings name record world result after := by
  unfold mergeField at ran
  cases part : name.standardField with
  | none =>
    simp only [part] at ran
    cases ran
    exact .known (by simp [part])
  | some field =>
    simp only [part] at ran
    by_cases archived : field ∈ record.archivedFields
    · have held : record.isFieldArchived field = true := archived
      rw [if_pos held] at ran
      cases ran
      exact .known (by simpa [part] using archived)
    · have missing : ¬ record.isFieldArchived field = true := archived
      rw [if_neg missing, Attempt.run_bind, Attempt.run_readClock] at ran
      rcases Attempt.run_request_bind (.updateActiveRecord _ _) id ⟨fun _ => rfl, fun _ => rfl⟩ ran with
        ⟨failure, fault, rfl, rfl⟩ | ⟨_, written, ended⟩
      · exact .unwritten field failure part archived fault
      · cases ended
        exact .written field _ part archived (Prod.ext written rfl)

theorem mergeAlias_course {result : Except AdmissionError ActiveRecord}
    (ran : (mergeAlias name aliasName record).run surroundings world = (result, after)) :
    AliasCourse surroundings name aliasName record world result after := by
  cases aliasName with
  | none =>
    cases ran
    exact .none rfl
  | some added =>
    rcases Attempt.run_request_bind (.addAlias _ _) id ⟨fun _ => rfl, fun _ => rfl⟩ ran with
      ⟨failure, fault, rfl, rfl⟩ | ⟨_, written, ended⟩
    · exact .unregistered added failure rfl fault
    · cases ended
      exact .registered added _ rfl (Prod.ext written rfl)

private theorem mergeActive_course {result : Except AdmissionError Admission}
    (found : world.store.activeRecord name.baseName = .ok (some record))
    (ran : (do return .alreadyActive (← mergeActive name aliasName record) : Attempt Admission).run
      surroundings world = (result, after)) :
    CheckCourse surroundings name aliasName world result after := by
  rcases Attempt.run_bind_eq.mp ran with ⟨e, failed, rfl⟩ | ⟨last, _, merged, ended⟩
  · rcases Attempt.run_bind_eq.mp failed with ⟨e, failed, same⟩ | ⟨merged, _, field, failed⟩
    · cases same
      exact .fieldLost record e _ found (mergeField_course failed)
    · exact .aliasLost record merged e _ _ found (mergeField_course field) (mergeAlias_course failed)
  · cases ended
    rcases Attempt.run_bind_eq.mp merged with ⟨_, _, same⟩ | ⟨merged, _, field, registration⟩
    · cases same
    · exact .active record merged last _ _ found (mergeField_course field)
        (mergeAlias_course registration)

theorem check_course {result : Except AdmissionError Admission}
    (ran : (check name aliasName).run surroundings world = (result, after)) :
    CheckCourse surroundings name aliasName world result after := by
  rcases Attempt.run_request_bind (.activeRecord _) id ⟨fun _ => rfl, fun _ => rfl⟩ ran with
    ⟨failure, fault, rfl, rfl⟩ | ⟨found, held, ran⟩
  · exact .unread failure fault
  have held : world.store.activeRecord name.baseName = .ok found := held
  cases found with
  | some record => exact mergeActive_course held ran
  | none =>
    rw [mergePending, bind_assoc] at ran
    rcases Attempt.run_request_bind (.updatePending _ _) id ⟨fun _ => rfl, fun _ => rfl⟩ ran with
      ⟨failure, fault, rfl, rfl⟩ | ⟨edited, answered, ended⟩
    · exact .unedited failure held fault
    · simp only [World.answer, World.updatePending] at answered ended
      cases queued : world.queue[name.baseName]? with
      | none =>
        simp only [queued] at answered ended
        cases answered
        cases ended
        exact .unknown held queued
      | some record =>
        simp only [queued] at answered ended
        cases answered
        cases ended
        exact .pending record held queued

end Admission

theorem submit_course {policy : EffectivePolicy} {result : Except AdmissionError Submission}
    (ran : (submit name policy aliasName).run surroundings world = (result, after)) :
    SubmitCourse surroundings name aliasName policy world result after := by
  rcases Attempt.run_request_bind (.insertIfAbsent _ _) id ⟨fun _ => rfl, fun _ => rfl⟩ ran with
    ⟨failure, fault, rfl, rfl⟩ | ⟨inserted, answered, ran⟩
  · exact .unqueued failure fault
  simp only [World.answer, World.insertIfAbsent] at answered ran
  by_cases taken : name.queueKey ∈ world.queue
  · simp only [Std.ExtTreeMap.contains_iff_mem, if_pos taken] at answered ran
    cases answered
    cases ran
    exact .refused taken
  · simp only [Std.ExtTreeMap.contains_iff_mem, if_neg taken] at answered ran
    cases answered
    rcases Attempt.run_request_bind (.startWorkflow _) id ⟨fun _ => rfl, fun _ => rfl⟩ ran with
      ⟨failure, fault, rfl, rfl⟩ | ⟨_, started, ended⟩
    · exact .unstarted failure taken fault
    · cases running : world.engine.running with
      | false => simp [World.answer, World.startWorkflow, Engine.start, running] at started
      | true =>
        cases ended
        exact .queued taken running

theorem resolvePolicy_run (surroundings : Surroundings) (defaultPeriod : Single) (spec : ArchiveSpec)
    (world : World) :
    (resolvePolicy defaultPeriod spec).run surroundings world =
      (spec.effectivePolicy defaultPeriod (world.minimumPeriodText surroundings), world) := by
  unfold resolvePolicy ArchiveSpec.effectivePolicy
  rw [Attempt.run_bind, Attempt.run_ofExcept]
  cases spec.override with
  | error e => rfl
  | ok asked =>
    cases asked with
    | none => rfl
    | some asked =>
      have read : minimumPeriod.run surroundings world =
          (readMinimumPeriod (world.minimumPeriodText surroundings), world) := by
        have lookup : Request.isLookup (.property minimumPeriodProperty) = true := rfl
        have same := World.respond_of_isLookup lookup surroundings world
        rw [minimumPeriod, Attempt.run_bind, Attempt.run_lift, Program.run_request, same]
        rfl
      simp only
      rw [Attempt.run_bind, read]
      cases readMinimumPeriod (world.minimumPeriodText surroundings) <;> rfl

/-! An override that cannot be used is an error of its item alone. -/

theorem RawPeriod.seconds_cases (raw : RawPeriod) :
    (∃ value, raw.seconds = .ok value ∧ value.isFinite = true) ∨
      ∃ text, raw.seconds = .error (.invalidPeriod text) := by
  have found {value : Single} (same : raw.seconds = checked value) :
      (∃ value, raw.seconds = .ok value ∧ value.isFinite = true) ∨
        ∃ text, raw.seconds = .error (.invalidPeriod text) := by
    rcases checked_cases value with ⟨accepted, finite⟩ | ⟨refused, -⟩
    · exact .inl ⟨value, same.trans accepted, finite⟩
    · exact .inr ⟨_, same.trans refused⟩
  cases raw with
  | number value => exact found (seconds_number value)
  | text written =>
    cases read : Binary.read .single (Text.trim written) with
    | error reason => exact .inr ⟨written, seconds_of_unread read⟩
    | ok value => exact found (seconds_text read)

theorem RawPeriod.seconds_continues {raw : RawPeriod} {e : AdmissionError}
    (failed : raw.seconds = .error e) : e.abortsBatch = false := by
  rcases raw.seconds_cases with ⟨_, read, _⟩ | ⟨_, invalid⟩
  · cases failed.symm.trans read
  · cases failed.symm.trans invalid
    rfl

theorem ArchiveSpec.requestedMethod_continues {e : AdmissionError}
    (failed : spec.requestedMethod = .error e) : e.abortsBatch = false := by
  unfold requestedMethod at failed
  cases given : spec.method with
  | none =>
    rw [given] at failed
    cases failed
  | some text =>
    simp only [given, SamplingMethod.ofNameAnyCase, SamplingMethod.ofName] at failed
    split at failed
    · cases failed
    · split at failed <;> cases failed
      rfl

theorem ArchiveSpec.requestedPeriod_continues {e : AdmissionError}
    (failed : spec.requestedPeriod = .error e) : e.abortsBatch = false := by
  unfold requestedPeriod at failed
  cases given : spec.period with
  | none =>
    rw [given] at failed
    cases failed
  | some raw =>
    cases read : raw.seconds with
    | ok value =>
      simp only [given, read] at failed
      cases failed
    | error reason =>
      simp only [given, read] at failed
      cases failed
      exact RawPeriod.seconds_continues read

theorem ArchiveSpec.override_cases (spec : ArchiveSpec) :
    (spec.override = .ok none ∧ spec.overridesPolicy = false) ∨
      (∃ asked, spec.override = .ok (some asked) ∧ spec.overridesPolicy = true ∧
        spec.requestedMethod = .ok asked.method ∧ spec.requestedPeriod = .ok (some asked.period) ∧
        asked.period.isFinite = true) ∨
      ∃ e, spec.override = .error e ∧ e.abortsBatch = false := by
  unfold ArchiveSpec.override overridesPolicy requestedPeriod
  cases spec.period with
  | none => exact .inl ⟨rfl, rfl⟩
  | some raw =>
    cases method : spec.requestedMethod with
    | error e => exact .inr (.inr ⟨e, rfl, requestedMethod_continues method⟩)
    | ok requested =>
      rcases raw.seconds_cases with ⟨value, read, finite⟩ | ⟨text, invalid⟩
      · refine .inr (.inl ⟨⟨requested, value⟩, ?_, rfl, rfl, ?_, finite⟩)
        · simp only [read]
          rfl
        · simp only [read, Except.map]
      · refine .inr (.inr ⟨.invalidPeriod text, ?_, rfl⟩)
        simp only [invalid]
        rfl

theorem ArchiveSpec.override_continues {e : AdmissionError} (failed : spec.override = .error e) :
    e.abortsBatch = false := by
  rcases spec.override_cases with ⟨none, _⟩ | ⟨_, some, _⟩ | ⟨_, same, continues⟩
  · cases failed.symm.trans none
  · cases failed.symm.trans some
  · cases failed.symm.trans same
    exact continues

theorem ArchiveSpec.effectivePolicy_continues {property : Option String} {e : AdmissionError}
    (failed : spec.effectivePolicy defaultPeriod property = .error e) : e.abortsBatch = false := by
  unfold effectivePolicy at failed
  cases asked : spec.override with
  | error reason =>
    rw [asked] at failed
    cases failed
    exact override_continues asked
  | ok asked' =>
    cases asked' with
    | none =>
      rw [asked] at failed
      cases failed
    | some given =>
      unfold readMinimumPeriod at failed
      simp only [asked] at failed
      split at failed <;> cases failed
      rfl

/-- Every run of an item with a valid name has a course. -/
theorem admitItem_course {result : Except AdmissionError ArchiveStatus}
    (ran : (admitItem defaultPeriod name spec).run surroundings world = (result, after)) :
    ItemCourse surroundings defaultPeriod name spec world result after := by
  unfold admitItem at ran
  rw [Attempt.run_bind, Attempt.run_ofExcept] at ran
  cases method : spec.requestedMethod with
  | error e =>
    simp only [method] at ran
    cases ran
    exact .invalid e (by simp [ArchiveSpec.overridesAreValid, method, Except.isOk, Except.toBool])
      (ArchiveSpec.requestedMethod_continues method)
  | ok _ =>
  simp only [method] at ran
  rw [Attempt.run_bind, Attempt.run_ofExcept] at ran
  cases period : spec.requestedPeriod with
  | error e =>
    simp only [period] at ran
    cases ran
    exact .invalid e (by simp [ArchiveSpec.overridesAreValid, period, Except.isOk, Except.toBool])
      (ArchiveSpec.requestedPeriod_continues period)
  | ok _ =>
  simp only [period] at ran
  have usable : spec.overridesAreValid = true := by
    simp [ArchiveSpec.overridesAreValid, method, period, Except.isOk, Except.toBool]
  rcases Attempt.run_bind_eq.mp ran with ⟨e, failed, rfl⟩ | ⟨admission, middle, checked, ran⟩
  · exact .unchecked e after usable (Admission.check_course failed)
  have course := Admission.check_course checked
  by_cases known : admission.isRegistered = true
  · rw [if_pos known] at ran
    cases ran
    exact .registered admission _ usable known course
  · rw [if_neg known] at ran
    cases course with
    | active | pending => exact absurd rfl known
    | unknown inactive absent =>
      have resolves := resolvePolicy_run surroundings defaultPeriod spec world
      rcases Attempt.run_bind_eq.mp ran with ⟨e, failed, rfl⟩ | ⟨policy, _, read, ran⟩
      · rw [resolves] at failed
        obtain ⟨unreadable, rfl⟩ := Prod.mk.inj failed
        exact .unresolved e usable inactive absent unreadable
      · rw [resolves] at read
        obtain ⟨resolved, rfl⟩ := Prod.mk.inj read
        rcases Attempt.run_bind_eq.mp ran with ⟨e, failed, rfl⟩ | ⟨submission, _, submitted, ended⟩
        · exact .submitted policy (.error e) _ usable inactive absent resolved (submit_course failed)
        · cases submission <;> cases ended <;>
            exact .submitted policy (.ok _) _ usable inactive absent resolved (submit_course submitted)

theorem archiveNamed_course {result : Except AdmissionError ArchiveOutcome}
    (ran : (archiveNamed defaultPeriod name spec).run surroundings world = (result, after)) :
    ∃ status, ItemCourse surroundings defaultPeriod name spec world status after ∧
      result = outcomeOf name.baseName status := by
  have ended := (Program.run_bind surroundings (ExceptT.run (admitItem defaultPeriod name spec)) _
    world).symm.trans ran
  cases admitted : (admitItem defaultPeriod name spec).run surroundings world with
  | mk status middle =>
    have same : Program.run surroundings (ExceptT.run (admitItem defaultPeriod name spec)) world =
      (status, middle) := admitted
    rw [same] at ended
    cases ended
    exact ⟨status, admitItem_course admitted, rfl⟩

theorem archivePv_course {catalog : Catalog} {result : Except AdmissionError ArchiveOutcome}
    (ran : (archivePv defaultPeriod catalog spec).run surroundings world = (result, after)) :
    (∃ e, Name.normalize catalog spec.pv = .error e ∧ result = .error e ∧ after = world) ∨
      ∃ name status, Name.normalize catalog spec.pv = .ok name ∧
        ItemCourse surroundings defaultPeriod name spec world status after ∧
        result = outcomeOf name.baseName status := by
  unfold archivePv at ran
  rw [Attempt.run_bind, Attempt.run_ofExcept] at ran
  cases valid : Name.normalize catalog spec.pv with
  | error e =>
    simp only [valid] at ran
    cases ran
    exact .inl ⟨e, rfl, rfl, rfl⟩
  | ok name =>
    simp only [valid] at ran
    obtain ⟨status, course, answered⟩ := archiveNamed_course ran
    exact .inr ⟨name, status, rfl, course, answered⟩

theorem outcomeOf_pvName {baseName : String} {result : Except AdmissionError ArchiveStatus}
    {outcome : ArchiveOutcome} (answered : outcomeOf baseName result = .ok outcome) :
    outcome.pvName = baseName := by
  cases result with
  | ok status =>
    cases answered
    rfl
  | error e =>
    cases aborts : e.abortsBatch with
    | true => simp [outcomeOf, aborts] at answered
    | false =>
      simp only [outcomeOf, aborts, Bool.false_eq_true, if_false] at answered
      cases answered
      rfl

theorem ItemCourse.status_cases {result : Except AdmissionError ArchiveStatus} {status : ArchiveStatus}
    (course : ItemCourse surroundings defaultPeriod name spec world result after)
    (answered : result = .ok status) : status = .submitted ∨ status = .alreadySubmitted := by
  cases course with
  | invalid | unchecked | unresolved => cases answered
  | registered admission _ usable known checked =>
    cases answered
    exact .inr rfl
  | submitted policy submission _ usable inactive absent resolved submitted =>
    cases submission with
    | error e => cases answered
    | ok submission =>
      cases answered
      cases submission with
      | submitted => exact .inl rfl
      | alreadyQueued => exact .inr rfl

theorem CheckCourse.continues {e : AdmissionError}
    (course : CheckCourse surroundings name aliasName world (.error e) after) :
    e.abortsBatch = false := by
  cases course with
  | unread | unedited => rfl
  | fieldLost record _ _ found field =>
    cases field
    rfl
  | aliasLost record merged _ middle _ found field registration =>
    cases registration
    rfl

theorem ItemCourse.exists_outcome {result : Except AdmissionError ArchiveStatus}
    (course : ItemCourse surroundings defaultPeriod name spec world result after) :
    ∃ outcome, outcomeOf name.baseName result = .ok outcome := by
  cases result with
  | ok status => exact ⟨_, rfl⟩
  | error e =>
    have continues : e.abortsBatch = false := by
      generalize ended : (Except.error e : Except AdmissionError ArchiveStatus) = result at course
      cases course with
      | invalid _ unusable continues =>
        cases ended
        exact continues
      | unchecked _ _ usable checked =>
        cases ended
        exact checked.continues
      | registered => cases ended
      | unresolved _ usable inactive absent unreadable =>
        cases ended
        exact ArchiveSpec.effectivePolicy_continues unreadable
      | submitted policy submission _ usable inactive absent resolved submitted =>
        cases submitted with
        | refused | queued => cases ended
        | unqueued | unstarted =>
          cases ended
          rfl
    exact ⟨⟨name.baseName, .exceptionOccurred⟩, by simp [outcomeOf, continues]⟩

end ArchiveIntake
