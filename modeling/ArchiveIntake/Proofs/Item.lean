import ArchiveIntake.Proofs.Merge

/-! What one item does when no request fails. There are six cases, told apart by the
overrides of the item, by what is known of its variable and by whether its key is free.
Later proofs split into these cases and never follow the requests again. -/

namespace ArchiveIntake

namespace ArchiveSpec

def overridesAreValid (spec : ArchiveSpec) : Bool :=
  spec.requestedMethod.isOk && spec.requestedPeriod.isOk

def effectivePolicy (defaultPeriod : Single) (property : Option String) (spec : ArchiveSpec) :
    Except AdmissionError EffectivePolicy :=
  match spec.override with
  | .error e => .error e
  | .ok none => .ok (.ofDefault defaultPeriod spec)
  | .ok (some asked) => (readMinimumPeriod property).map fun minimum => .ofOverride asked minimum spec

end ArchiveSpec

variable {surroundings : Surroundings} {world after : World} {name : NormalizedName}
  {aliasName : Option String} {record : ActiveRecord}

namespace Admission

theorem mergeField_effect {result : Except AdmissionError ActiveRecord}
    (found : world.store.activeRecord name.baseName = .ok (some record))
    (completed : (mergeField name record).Completes surroundings world result after) :
    ∃ merged store readings, result = .ok merged ∧ after = { world with store, readings } ∧
      RecordMerge name.baseName name.standardField.toList [] world.store store := by
  unfold mergeField at completed
  cases part : name.standardField with
  | none =>
    simp only [part] at completed
    obtain ⟨rfl, rfl⟩ := Attempt.completes_pure.mp completed
    exact ⟨_, _, _, rfl, rfl, .refl _ _⟩
  | some field =>
    simp only [part] at completed
    by_cases archived : record.isFieldArchived field = true
    · rw [if_pos archived] at completed
      obtain ⟨rfl, rfl⟩ := Attempt.completes_pure.mp completed
      refine ⟨_, _, _, rfl, rfl, .refl _, fun _ _ => rfl, ?_⟩
      intro same held
      cases found.symm.trans held
      refine ⟨record, held, rfl, ?_, by simp⟩
      intro other
      have member : field ∈ record.archivedFields := archived
      simp only [Option.toList_some, List.mem_singleton]
      constructor
      · exact .inl
      · rintro (held | rfl)
        · exact held
        · exact member
    · rw [if_neg archived] at completed
      rcases Attempt.completes_bind.mp completed with ⟨e, failed, -⟩ | ⟨now, middle, read, rest⟩
      · obtain ⟨_, _, same⟩ := Attempt.completes_lift.mp failed
        cases same
      · obtain ⟨_, asked, -⟩ := Attempt.completes_lift.mp read
        obtain ⟨-, -, rfl⟩ := asked.request
        rcases Attempt.completes_bind.mp rest with ⟨e, failed, -⟩ | ⟨_, middle, written, rest⟩
        · obtain ⟨_, _, same, _⟩ := Attempt.Completes.updateActiveRecord failed
          cases same
        · obtain ⟨store, updated, -, rfl⟩ := Attempt.Completes.updateActiveRecord written
          obtain ⟨rfl, rfl⟩ := Attempt.completes_pure.mp rest
          exact ⟨_, store, _, rfl, rfl, .of_updateActiveRecord found updated⟩

theorem mergeAlias_effect {result : Except AdmissionError ActiveRecord}
    (completed : (mergeAlias name aliasName record).Completes surroundings world result after) :
    ∃ merged store, result = .ok merged ∧ after = { world with store } ∧
      RecordMerge name.baseName [] aliasName.toList world.store store := by
  cases aliasName with
  | none =>
    obtain ⟨rfl, rfl⟩ := Attempt.completes_pure.mp completed
    exact ⟨_, _, rfl, rfl, .refl _ _⟩
  | some added =>
    rcases Attempt.completes_bind.mp completed with ⟨e, failed, -⟩ | ⟨_, middle, written, rest⟩
    · obtain ⟨_, _, same, _⟩ := Attempt.Completes.addAlias failed
      cases same
    · obtain ⟨store, updated, -, rfl⟩ := Attempt.Completes.addAlias written
      obtain ⟨rfl, rfl⟩ := Attempt.completes_pure.mp rest
      exact ⟨_, store, rfl, rfl, .of_addAlias updated⟩

theorem mergeActive_effect {result : Except AdmissionError ActiveRecord}
    (found : world.store.activeRecord name.baseName = .ok (some record))
    (completed : (mergeActive name aliasName record).Completes surroundings world result after) :
    ∃ merged store readings, result = .ok merged ∧ after = { world with store, readings } ∧
      RecordMerge name.baseName name.standardField.toList aliasName.toList world.store store := by
  rcases Attempt.completes_bind.mp completed with ⟨e, failed, -⟩ | ⟨_, middle, fields, rest⟩
  · obtain ⟨_, _, _, same, -⟩ := mergeField_effect found failed
    cases same
  · obtain ⟨_, store, readings, -, rfl, first⟩ := mergeField_effect found fields
    obtain ⟨merged, store, rfl, rfl, second⟩ := mergeAlias_effect rest
    exact ⟨merged, store, readings, rfl, rfl, by simpa using first.trans second⟩

theorem mergePending_effect {result : Except AdmissionError (Option PendingRecord)}
    (completed : (mergePending name aliasName).Completes surroundings world result after) :
    result = .ok ((world.updatePending name.baseName (pendingEdits name aliasName)).1.map (·.1)) ∧
      after = (world.updatePending name.baseName (pendingEdits name aliasName)).2 := by
  rcases Attempt.completes_bind.mp completed with ⟨e, failed, -⟩ | ⟨reply, middle, updated, rest⟩
  · cases (Attempt.Completes.updatePending failed).1
  · obtain ⟨same, rfl⟩ := Attempt.Completes.updatePending updated
    cases same
    exact Attempt.completes_pure.mp rest

/-- What looking a variable up for an item finds, and does. -/
inductive CheckEffect (name : NormalizedName) (aliasName : Option String) (world : World) :
    Except AdmissionError Admission → World → Prop
  | active (record merged : ActiveRecord) (store : ConfigStore) (readings : Nat)
      (found : world.store.activeRecord name.baseName = .ok (some record))
      (merge : RecordMerge name.baseName name.standardField.toList aliasName.toList world.store
        store) :
      CheckEffect name aliasName world (.ok (.alreadyActive merged)) { world with store, readings }
  | pending (record merged : PendingRecord)
      (inactive : world.store.activeRecord name.baseName = .ok none)
      (found : world.queue[name.baseName]? = some record)
      (merge : merged = (record.applyAll (pendingEdits name aliasName)).1) :
      CheckEffect name aliasName world (.ok (.alreadyPending merged))
        { world with queue := world.queue.insert name.baseName merged }
  | unknown (inactive : world.store.activeRecord name.baseName = .ok none)
      (absent : world.queue[name.baseName]? = none) :
      CheckEffect name aliasName world (.ok .notRegistered) world

theorem check_effect {result : Except AdmissionError Admission}
    (completed : (check name aliasName).Completes surroundings world result after) :
    CheckEffect name aliasName world result after := by
  rcases Attempt.completes_bind.mp completed with ⟨e, failed, -⟩ | ⟨found, middle, looked, rest⟩
  · obtain ⟨_, _, same, _⟩ := Attempt.Completes.activeRecord failed
    cases same
  obtain ⟨_, held, same, rfl⟩ := Attempt.Completes.activeRecord looked
  cases same
  cases found with
  | some record =>
    rcases Attempt.completes_bind.mp rest with ⟨e, failed, -⟩ | ⟨_, middle, merged, rest⟩
    · obtain ⟨_, _, _, same, -⟩ := mergeActive_effect held failed
      cases same
    · obtain ⟨_, store, readings, same, rfl, merge⟩ := mergeActive_effect held merged
      cases same
      obtain ⟨rfl, rfl⟩ := Attempt.completes_pure.mp rest
      exact .active record _ store readings held merge
  | none =>
    rcases Attempt.completes_bind.mp rest with ⟨e, failed, -⟩ | ⟨merged, last, edited, rest⟩
    · cases (mergePending_effect failed).1
    · obtain ⟨same, rfl⟩ := mergePending_effect edited
      cases same
      unfold World.updatePending at rest
      cases queued : middle.queue[name.baseName]? with
      | none =>
        simp only [queued, Option.map_none] at rest
        obtain ⟨rfl, rfl⟩ := Attempt.completes_pure.mp rest
        exact .unknown held queued
      | some record =>
        simp only [queued, Option.map_some] at rest
        obtain ⟨rfl, rfl⟩ := Attempt.completes_pure.mp rest
        exact .pending record _ held queued rfl

end Admission

section Item
variable {defaultPeriod : Single} {spec : ArchiveSpec} {policy : EffectivePolicy}

theorem minimumPeriod_effect {result : Except AdmissionError Single}
    (completed : minimumPeriod.Completes surroundings world result after) :
    result = readMinimumPeriod (world.store.property minimumPeriodProperty) ∧ after = world := by
  rcases Attempt.completes_bind.mp completed with ⟨e, failed, -⟩ | ⟨_, _, asked, rest⟩
  · obtain ⟨_, _, same⟩ := Attempt.completes_lift.mp failed
    cases same
  · obtain ⟨_, asked, same⟩ := Attempt.completes_lift.mp asked
    cases same
    obtain ⟨-, rfl, rfl⟩ := asked.request
    exact Attempt.completes_ofExcept.mp rest

theorem resolvePolicy_effect {result : Except AdmissionError EffectivePolicy}
    (completed : (resolvePolicy defaultPeriod spec).Completes surroundings world result after) :
    result = spec.effectivePolicy defaultPeriod (world.store.property minimumPeriodProperty) ∧
      after = world := by
  unfold ArchiveSpec.effectivePolicy
  rcases Attempt.completes_bind.mp completed with ⟨e, failed, rfl⟩ | ⟨asked, middle, usable, rest⟩
  · obtain ⟨same, rfl⟩ := Attempt.completes_ofExcept.mp failed
    simp [← same]
  obtain ⟨same, rfl⟩ := Attempt.completes_ofExcept.mp usable
  rw [← same]
  cases asked with
  | none => exact Attempt.completes_pure.mp rest
  | some asked =>
    rcases Attempt.completes_bind.mp rest with ⟨e, failed, rfl⟩ | ⟨minimum, last, read, ended⟩
    · obtain ⟨unreadable, rfl⟩ := minimumPeriod_effect failed
      simp [← unreadable, Except.map]
    · obtain ⟨readable, rfl⟩ := minimumPeriod_effect read
      obtain ⟨rfl, rfl⟩ := Attempt.completes_pure.mp ended
      simp [← readable, Except.map]

/-- What registering a new request does. -/
inductive SubmitEffect (name : NormalizedName) (policy : EffectivePolicy) (aliasName : Option String)
    (world : World) : Except AdmissionError Submission → World → Prop
  | refused (taken : name.queueKey ∈ world.queue) :
      SubmitEffect name policy aliasName world (.ok .alreadyQueued) world
  | queued (free : name.queueKey ∉ world.queue) (running : world.engine.running = true) :
      SubmitEffect name policy aliasName world (.ok .submitted)
        { world with
          queue := world.queue.insert name.queueKey (.ofRequest name policy aliasName)
          engine := (world.engine.start name.baseName).2 }

theorem submit_effect {result : Except AdmissionError Submission}
    (completed : (submit name policy aliasName).Completes surroundings world result after) :
    SubmitEffect name policy aliasName world result after := by
  rcases Attempt.completes_bind.mp completed with ⟨e, failed, -⟩ | ⟨inserted, middle, asked, rest⟩
  · cases (Attempt.Completes.insertIfAbsent failed).1
  obtain ⟨same, rfl⟩ := Attempt.Completes.insertIfAbsent asked
  cases same
  by_cases taken : name.queueKey ∈ world.queue
  · simp only [World.insertIfAbsent, Std.ExtTreeMap.contains_iff_mem, if_pos taken] at rest
    obtain ⟨rfl, rfl⟩ := Attempt.completes_pure.mp rest
    exact .refused taken
  · simp only [World.insertIfAbsent, Std.ExtTreeMap.contains_iff_mem, if_neg taken] at rest
    rcases Attempt.completes_bind.mp rest with ⟨e, failed, -⟩ | ⟨_, last, started, rest⟩
    · cases (Attempt.Completes.startWorkflow failed).2.1
    · obtain ⟨running, -, rfl⟩ := Attempt.Completes.startWorkflow started
      obtain ⟨rfl, rfl⟩ := Attempt.completes_pure.mp rest
      exact .queued taken running

/-- What one item does. -/
inductive ItemEffect (defaultPeriod : Single) (name : NormalizedName) (spec : ArchiveSpec)
    (world : World) : Except AdmissionError ArchiveStatus → World → Prop
  | invalid (e : AdmissionError) (unusable : spec.overridesAreValid = false) :
      ItemEffect defaultPeriod name spec world (.error e) world
  | active (record : ActiveRecord) (store : ConfigStore) (readings : Nat)
      (usable : spec.overridesAreValid = true)
      (found : world.store.activeRecord name.baseName = .ok (some record))
      (merge : RecordMerge name.baseName name.standardField.toList spec.aliasName.toList world.store
        store) :
      ItemEffect defaultPeriod name spec world (.ok .alreadySubmitted) { world with store, readings }
  | pending (record : PendingRecord) (usable : spec.overridesAreValid = true)
      (inactive : world.store.activeRecord name.baseName = .ok none)
      (found : world.queue[name.baseName]? = some record) :
      ItemEffect defaultPeriod name spec world (.ok .alreadySubmitted)
        { world with
          queue := world.queue.insert name.baseName
            (record.applyAll (Admission.pendingEdits name spec.aliasName)).1 }
  | unresolved (e : AdmissionError) (usable : spec.overridesAreValid = true)
      (inactive : world.store.activeRecord name.baseName = .ok none)
      (absent : world.queue[name.baseName]? = none)
      (unreadable : spec.effectivePolicy defaultPeriod
        (world.store.property minimumPeriodProperty) = .error e) :
      ItemEffect defaultPeriod name spec world (.error e) world
  | refused (usable : spec.overridesAreValid = true)
      (inactive : world.store.activeRecord name.baseName = .ok none)
      (absent : world.queue[name.baseName]? = none) (taken : name.queueKey ∈ world.queue) :
      ItemEffect defaultPeriod name spec world (.ok .alreadySubmitted) world
  | queued (policy : EffectivePolicy) (usable : spec.overridesAreValid = true)
      (inactive : world.store.activeRecord name.baseName = .ok none)
      (absent : world.queue[name.baseName]? = none)
      (resolved : spec.effectivePolicy defaultPeriod
        (world.store.property minimumPeriodProperty) = .ok policy)
      (free : name.queueKey ∉ world.queue) (running : world.engine.running = true) :
      ItemEffect defaultPeriod name spec world (.ok .submitted)
        { world with
          queue := world.queue.insert name.queueKey (.ofRequest name policy spec.aliasName)
          engine := (world.engine.start name.baseName).2 }

theorem admitItem_effect {result : Except AdmissionError ArchiveStatus}
    (completed : (admitItem defaultPeriod name spec).Completes surroundings world result after) :
    ItemEffect defaultPeriod name spec world result after := by
  rcases Attempt.completes_bind.mp completed with ⟨e, failed, rfl⟩ | ⟨_, _, method, afterMethod⟩
  · obtain ⟨same, rfl⟩ := Attempt.completes_ofExcept.mp failed
    exact .invalid e (by simp [ArchiveSpec.overridesAreValid, ← same, Except.isOk, Except.toBool])
  obtain ⟨usableMethod, rfl⟩ := Attempt.completes_ofExcept.mp method
  rcases Attempt.completes_bind.mp afterMethod with ⟨e, failed, rfl⟩ | ⟨_, _, period, afterPeriod⟩
  · obtain ⟨same, rfl⟩ := Attempt.completes_ofExcept.mp failed
    exact .invalid e (by simp [ArchiveSpec.overridesAreValid, ← same, Except.isOk, Except.toBool])
  obtain ⟨usablePeriod, rfl⟩ := Attempt.completes_ofExcept.mp period
  have usable : spec.overridesAreValid = true := by
    simp [ArchiveSpec.overridesAreValid, ← usableMethod, ← usablePeriod, Except.isOk, Except.toBool]
  rcases Attempt.completes_bind.mp afterPeriod with ⟨e, failed, rfl⟩ | ⟨_, _, checked, afterCheck⟩
  · cases Admission.check_effect failed
  cases Admission.check_effect checked with
  | active record merged store readings found merge =>
    obtain ⟨rfl, rfl⟩ := Attempt.completes_pure.mp afterCheck
    exact .active record store readings usable found merge
  | pending record merged inactive found merge =>
    obtain ⟨rfl, rfl⟩ := Attempt.completes_pure.mp afterCheck
    subst merge
    exact .pending record usable inactive found
  | unknown inactive absent =>
    rcases Attempt.completes_bind.mp afterCheck with ⟨e, failed, rfl⟩ | ⟨policy, _, read, afterRead⟩
    · obtain ⟨same, rfl⟩ := resolvePolicy_effect failed
      exact .unresolved e usable inactive absent same.symm
    obtain ⟨resolved, rfl⟩ := resolvePolicy_effect read
    rcases Attempt.completes_bind.mp afterRead with ⟨e, failed, rfl⟩ | ⟨_, _, submitted, ended⟩
    · cases submit_effect failed
    cases submit_effect submitted with
    | refused taken =>
      obtain ⟨rfl, rfl⟩ := Attempt.completes_pure.mp ended
      exact .refused usable inactive absent taken
    | queued free running =>
      obtain ⟨rfl, rfl⟩ := Attempt.completes_pure.mp ended
      exact .queued policy usable inactive absent resolved.symm free running

theorem archivePv_completes {catalog : Catalog} {result : Except AdmissionError ArchiveOutcome}
    (completed : (archivePv defaultPeriod catalog spec).Completes surroundings world result after) :
    (∃ e, Name.normalize catalog spec.pv = .error e ∧ result = .error e ∧ after = world) ∨
      ∃ name status, Name.normalize catalog spec.pv = .ok name ∧
        (admitItem defaultPeriod name spec).Completes surroundings world status after ∧
        result = outcomeOf name.baseName status := by
  rcases Attempt.completes_bind.mp completed with ⟨e, failed, rfl⟩ | ⟨name, _, named, rest⟩
  · obtain ⟨invalid, rfl⟩ := Attempt.completes_ofExcept.mp failed
    exact .inl ⟨e, invalid.symm, rfl, rfl⟩
  · obtain ⟨valid, rfl⟩ := Attempt.completes_ofExcept.mp named
    obtain ⟨status, middle, admitted, ended⟩ := Program.completes_bind.mp rest
    obtain ⟨rfl, rfl⟩ := Program.completes_done.mp ended
    exact .inr ⟨name, status, valid.symm, admitted, rfl⟩

theorem archivePv_effect {catalog : Catalog} {result : Except AdmissionError ArchiveOutcome}
    (completed : (archivePv defaultPeriod catalog spec).Completes surroundings world result after) :
    (∃ e, Name.normalize catalog spec.pv = .error e ∧ result = .error e ∧ after = world) ∨
      ∃ name status, Name.normalize catalog spec.pv = .ok name ∧
        ItemEffect defaultPeriod name spec world status after ∧
        result = outcomeOf name.baseName status := by
  rcases archivePv_completes completed with invalid | ⟨name, status, valid, admitted, answered⟩
  · exact .inl invalid
  · exact .inr ⟨name, status, valid, admitItem_effect admitted, answered⟩

end Item
end ArchiveIntake
