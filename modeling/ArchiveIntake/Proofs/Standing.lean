import ArchiveIntake.Proofs.Answers
import ArchiveIntake.Proofs.StoreWrites

/-! An active variable is never queued again, whatever fails and whatever else is done. It stays
active, and every item for it goes into its record: nothing is queued, the engine is told nothing,
and no client is told that a request was submitted. -/

namespace ArchiveIntake

/-- A time as it reads back after it was written. -/
def ConfigStore.keptTime : ConfigStore → Time → Time
  | .memory _, time => time
  | .database _, time => DatabaseStore.storedTime time

theorem ConfigStore.kept_modificationTime (store : ConfigStore) (pv : String) (record : ActiveRecord) :
    (store.kept pv record).modificationTime = store.keptTime record.modificationTime := by
  cases store <;> rfl

/-- The date of a record after an item for its variable: a new one if the item brings a field that was
not there, and the same otherwise. -/
structure Dated (surroundings : Surroundings) (name : NormalizedName) (world : World)
    (record after : ActiveRecord) : Prop where
  anew : ∀ field ∈ name.standardField, field ∉ record.archivedFields →
    after.modificationTime = world.store.keptTime (surroundings.clock world.readings)
  same : (∀ field ∈ name.standardField, field ∈ record.archivedFields) →
    after.modificationTime = record.modificationTime

/-- A record has got the field and the alias of an item, if any, with its date. -/
structure DatedMerge (surroundings : Surroundings) (name : NormalizedName) (aliasName : Option String)
    (world : World) (record after : ActiveRecord) : Prop extends
    Dated surroundings name world record after where
  fields : ∀ field, field ∈ after.archivedFields ↔
    field ∈ record.archivedFields ∨ field ∈ name.standardField
  aliases : ∀ added, added ∈ after.aliases ↔ added ∈ record.aliases ∨ added ∈ aliasName

/-- What an item for an active variable does, with its answer. -/
structure NamedItem.OnlyMerges (surroundings : Surroundings) (defaultPeriod : Single) (item : NamedItem)
    (world after : World) (result : Except AdmissionError ArchiveOutcome) : Prop where
  answered : ∃ status, result = .ok ⟨item.name.baseName, status⟩ ∧ status ≠ .submitted
  queue : after.queue = world.queue
  engine : after.engine = world.engine
  merged : Program.faults surroundings (ExceptT.run (archivePv defaultPeriod item.catalog item.spec))
      world = [] → item.spec.overridesAreValid = true →
    result = .ok ⟨item.name.baseName, .alreadySubmitted⟩ ∧
      ∃ record merged, world.store.activeRecord item.name.baseName = .ok (some record) ∧
        after.store.activeRecord item.name.baseName = .ok (some merged) ∧
        DatedMerge surroundings item.name item.spec.aliasName world record merged

section Item
variable {surroundings : Surroundings} {defaultPeriod : Single} {world middle after : World}
  {name : NormalizedName} {spec : ArchiveSpec} {aliasName : Option String} {record merged : ActiveRecord}

theorem FieldCourse.dated {result : ActiveRecord}
    (found : world.store.activeRecord name.baseName = .ok (some record))
    (course : FieldCourse surroundings name record world (.ok result) after) :
    ∃ seen, after.store.activeRecord name.baseName = .ok (some seen) ∧
      Dated surroundings name world record seen := by
  cases course with
  | known known =>
    exact ⟨record, found, fun field given new => absurd (known field given) new, fun _ => rfl⟩
  | written field store part new written =>
    have seen := (ConfigStore.activeRecord_updateActiveRecord written name.baseName).trans (if_pos rfl)
    refine ⟨_, seen, fun _ _ _ => ConfigStore.kept_modificationTime _ _ _, fun known => ?_⟩
    exact absurd (known field part) new

theorem AliasCourse.dated {result : Except AdmissionError ActiveRecord}
    (found : world.store.activeRecord name.baseName = .ok (some record))
    (course : AliasCourse surroundings name aliasName merged world result after) :
    ∃ seen, after.store.activeRecord name.baseName = .ok (some seen) ∧
      seen.modificationTime = record.modificationTime := by
  cases course with
  | none | unregistered => exact ⟨record, found, rfl⟩
  | registered added store given written =>
    have seen := ConfigStore.activeRecord_addAlias written name.baseName
    rw [if_pos rfl, found] at seen
    exact ⟨record.withAlias added, seen, rfl⟩

theorem CheckCourse.dated {admission : Admission}
    (found : world.store.activeRecord name.baseName = .ok (some record))
    (course : CheckCourse surroundings name aliasName world (.ok admission) after) :
    ∃ seen, after.store.activeRecord name.baseName = .ok (some seen) ∧
      Dated surroundings name world record seen := by
  cases course with
  | active other merged last middle _ held field registration =>
    cases found.symm.trans held
    obtain ⟨written, present, dated⟩ := field.dated found
    obtain ⟨seen, final, same⟩ := registration.dated present
    exact ⟨seen, final, fun added given new => same.trans (dated.anew added given new),
      fun known => same.trans (dated.same known)⟩
  | pending _ inactive | unknown inactive => cases found.symm.trans inactive

theorem ItemCourse.dated {result : Except AdmissionError ArchiveStatus} {status : ArchiveStatus}
    (found : world.store.activeRecord name.baseName = .ok (some record))
    (course : ItemCourse surroundings defaultPeriod name spec world result after)
    (answered : result = .ok status) :
    ∃ seen, after.store.activeRecord name.baseName = .ok (some seen) ∧
      Dated surroundings name world record seen := by
  cases course with
  | invalid | unchecked | unresolved => cases answered
  | registered admission _ usable known checked => exact checked.dated found
  | submitted _ _ _ _ inactive => cases found.symm.trans inactive

theorem admitItem_datedMerge {result : Except AdmissionError ArchiveStatus}
    (found : world.store.activeRecord name.baseName = .ok (some record))
    (usable : spec.overridesAreValid = true)
    (completed : (admitItem defaultPeriod name spec).Completes surroundings world result after) :
    result = .ok .alreadySubmitted ∧
      ∃ merged, after.store.activeRecord name.baseName = .ok (some merged) ∧
        DatedMerge surroundings name spec.aliasName world record merged := by
  have dated (answered : result = .ok .alreadySubmitted) :=
    (admitItem_course completed.1).dated found answered
  cases admitItem_effect completed with
  | invalid _ unusable => cases usable.symm.trans unusable
  | pending _ _ inactive | unresolved _ _ inactive | refused _ inactive | queued _ _ inactive =>
    cases found.symm.trans inactive
  | active other store readings _ held merge =>
    cases found.symm.trans held
    obtain ⟨merged, present, -, fields, aliases⟩ := merge.here record found
    obtain ⟨seen, final, dated⟩ := dated rfl
    cases present.symm.trans final
    exact ⟨rfl, merged, present, dated, by simpa using fields, by simpa using aliases⟩

theorem NamedItem.onlyMerges {item : NamedItem} {result : Except AdmissionError ArchiveOutcome}
    (active : ∃ record, world.store.activeRecord item.name.baseName = .ok (some record))
    (ran : (archivePv defaultPeriod item.catalog item.spec).run surroundings world = (result, after)) :
    item.OnlyMerges surroundings defaultPeriod world after result := by
  obtain ⟨record, found⟩ := active
  obtain ⟨⟨pvName, status⟩, rfl, rfl, writes⟩ := item.writes ran
  have quiet : after.queue = world.queue ∧ after.engine = world.engine ∧ status ≠ .submitted := by
    generalize started : ArchiveOutcome.started ⟨item.name.baseName, status⟩ = names at writes
    have unstarted (none : names = []) : status ≠ .submitted := by
      rintro rfl
      cases started.trans none
    cases writes with
    | nothing | record => exact ⟨rfl, rfl, unstarted rfl⟩
    | addition _ inactive | request _ _ inactive => cases found.symm.trans inactive
  refine ⟨⟨status, rfl, quiet.2.2⟩, quiet.1, quiet.2.1, fun steady usable => ?_⟩
  rcases archivePv_completes ⟨ran, steady⟩ with
    ⟨_, invalid, _⟩ | ⟨name, admitted, named, completed, answered⟩
  · cases item.valid.symm.trans invalid
  · cases item.valid.symm.trans named
    obtain ⟨rfl, merged, present, dated⟩ := admitItem_datedMerge found usable completed
    exact ⟨answered, record, merged, found, present, dated⟩

end Item

theorem StoreWrites.active_of_active {surroundings : Surroundings} {defaultPeriod : Single}
    {world after : World} {step : Operation} {pv : String}
    (writes : StoreWrites surroundings defaultPeriod world step after)
    (active : ∃ record, world.store.activeRecord pv = .ok (some record)) :
    ∃ record, after.store.activeRecord pv = .ok (some record) := by
  cases writes with
  | nothing same => rwa [same]
  | merged _ _ _ _ _ _ _ _ merge => exact merge.active_of_active active
  | renewed other _ _ _ _ _ _ promoted =>
    by_cases same : pv = other
    · subst same
      obtain ⟨record, present, -⟩ := promoted.here
      exact ⟨record, present⟩
    · rwa [promoted.elsewhere pv same]

/-- By induction on the steps: none makes an active variable inactive. -/
theorem World.active_of_active {surroundings : Surroundings} {defaultPeriod : Single} {world : World}
    {steps : List Operation} {pv : String}
    (external : ∀ step ∈ steps, step.isInternal = false ∧ step.isStep = true)
    (active : ∃ record, world.store.activeRecord pv = .ok (some record)) :
    ∃ record, (world.reached surroundings defaultPeriod steps).store.activeRecord pv =
      .ok (some record) := by
  induction steps generalizing world with
  | nil => exact active
  | cons step rest ih =>
    obtain ⟨⟨here, single⟩, others⟩ := List.forall_mem_cons.mp external
    rw [reached_cons]
    exact ih others ((Operation.storeWrites here single).active_of_active active)

/-- Once a variable is active, it stays active whatever fails, no item for it is answered as
submitted, in any form of request, and every such item only goes into its record. -/
theorem active_variable_is_never_queued_again (surroundings : Surroundings) (defaultPeriod : Single)
    (start now : World) (operations : List Operation) (performed : List Performed) (pv : String)
    (record : ActiveRecord) (active : start.store.activeRecord pv = .ok (some record))
    (external : ∀ operation ∈ operations, operation.isInternal = false)
    (ran : (session defaultPeriod operations).run surroundings start = (performed, now)) :
    (∃ kept, now.store.activeRecord pv = .ok (some kept)) ∧
      (∀ outcome ∈ performed.flatMap Performed.outcomes, outcome.pvName = pv →
        outcome.status ≠ .submitted) ∧
      ∀ earlier later, ∀ item : NamedItem,
        operations.flatMap (·.steps (start.seenCatalog surroundings)) =
          earlier ++ item.operation :: later →
        item.name.baseName = pv → ∀ result after,
          (archivePv defaultPeriod item.catalog item.spec).run surroundings
            (start.reached surroundings defaultPeriod earlier) = (result, after) →
          item.OnlyMerges surroundings defaultPeriod
            (start.reached surroundings defaultPeriod earlier) after result := by
  have steps := Operation.external_steps (start.seenCatalog surroundings) external
  have stands {earlier later : List Operation} (split : operations.flatMap
      (·.steps (start.seenCatalog surroundings)) = earlier ++ later) :
      ∃ kept, (start.reached surroundings defaultPeriod earlier).store.activeRecord pv =
        .ok (some kept) := by
    rw [split] at steps
    exact World.active_of_active (fun step member => steps step (List.mem_append_left _ member))
      ⟨record, active⟩
  have merges {earlier later : List Operation} {item : NamedItem} {after : World}
      {result : Except AdmissionError ArchiveOutcome}
      (split : operations.flatMap (·.steps (start.seenCatalog surroundings)) =
        earlier ++ item.operation :: later) (named : item.name.baseName = pv)
      (itemRan : (archivePv defaultPeriod item.catalog item.spec).run surroundings
        (start.reached surroundings defaultPeriod earlier) = (result, after)) :
      item.OnlyMerges surroundings defaultPeriod (start.reached surroundings defaultPeriod earlier) after
        result := by
    refine NamedItem.onlyMerges ?_ itemRan
    rw [named]
    exact stands split
  refine ⟨?_, ?_, fun _ _ _ split named _ _ itemRan => merges split named itemRan⟩
  · rw [← show start.reached surroundings defaultPeriod operations = now from congrArg Prod.snd ran,
      ← World.reached_steps]
    exact stands (List.append_nil _).symm
  · intro outcome member named
    obtain ⟨earlier, later, item, split, answered⟩ := session_answers ran outcome member
    have itemRan : (archivePv defaultPeriod item.catalog item.spec).run surroundings
        (start.reached surroundings defaultPeriod earlier) = (.ok outcome, _) := Prod.ext answered rfl
    obtain ⟨_, same, base, -⟩ := item.writes itemRan
    cases same
    obtain ⟨status, same, other⟩ := (merges split (base.symm.trans named) itemRan).answered
    cases same
    exact other

/-- The record of a variable is displaced by a queued request, and then a further item is merged into
the new one. -/
theorem active_variable_is_never_queued_again_when_displaced :
    let pending : PendingRecord := ⟨.monitor, AdmissionConfig.default.defaultPeriod, none, none,
      false, ∅, []⟩
    let record : ActiveRecord := ⟨"SRC", .ofList ["HIHI"], ∅, 5⟩
    let store : MemoryStore := ⟨(∅ : Table ActiveRecord).insert "SRC" record, ∅, ∅, ["HIHI"]⟩
    let start : World := { World.fresh (.memory store) .noting with
      queue := (∅ : Table PendingRecord).insert "SRC" pending }
    let period := AdmissionConfig.default.defaultPeriod
    let item : NamedItem :=
      ⟨.ofList ["HIHI"], { pv := "SRC.HIHI", aliasName := some "A" }, ⟨"SRC", .standard "HIHI"⟩, rfl⟩
    let middle := start.reached (.calm 7) period [.confirmStarted "SRC"]
    let archived := (archivePv period item.catalog item.spec).run (.calm 7) middle
    middle.store.activeRecord "SRC" = .ok (some ⟨"SRC", ∅, ∅, 7⟩) ∧
      item.OnlyMerges (.calm 7) period middle archived.2 archived.1 := by
  intro pending record store start period item middle archived
  have law := active_variable_is_never_queued_again (.calm 7) period start _
    [.confirmStarted "SRC", item.operation] _ "SRC" record rfl (by decide) (Prod.eta _).symm
  exact ⟨rfl, law.2.2 [.confirmStarted "SRC"] [] item rfl rfl _ _ (Prod.eta _).symm⟩

end ArchiveIntake
