import ArchiveIntake.Proofs.ClosedForm
import ArchiveIntake.Proofs.Course
import ArchiveIntake.Proofs.Locality

/-! All that one item can change, whatever is out of order. It writes in one of three places: the
active record of its variable, the request queued under its base name, or a free place under
its key. There it only adds, and at most its own field and its own alias. -/

namespace ArchiveIntake

def Engine.told (engine : Engine) (names : List String) : Engine :=
  { engine with
    accepted := engine.accepted ++ names
    channel := if engine.hasChannel then engine.channel ++ names else engine.channel }

@[simp] theorem Engine.told_nil (engine : Engine) : engine.told [] = engine := by
  obtain ⟨_, _, hasChannel, _⟩ := engine
  cases hasChannel <;> simp [told]

theorem Engine.told_told (engine : Engine) (names more : List String) :
    (engine.told names).told more = engine.told (names ++ more) := by
  obtain ⟨_, _, hasChannel, _⟩ := engine
  cases hasChannel <;> simp [told]

theorem Engine.start_of_running {engine : Engine} (running : engine.running = true) (pv : String) :
    engine.start pv = (.ok (), engine.told [pv]) := by
  unfold start told
  rw [if_pos running]

def ArchiveOutcome.started (outcome : ArchiveOutcome) : List String :=
  if outcome.status = .submitted then [outcome.pvName] else []

theorem started_of_error {pvName : String} {e : AdmissionError} {outcome : ArchiveOutcome}
    (answered : outcomeOf pvName (.error e) = .ok outcome) : outcome.started = [] := by
  cases aborts : e.abortsBatch with
  | true => simp [outcomeOf, aborts] at answered
  | false =>
    simp only [outcomeOf, aborts, Bool.false_eq_true, if_false] at answered
    cases answered
    rfl

/-- What an item has written, with the names it has started. -/
inductive ItemWrites (surroundings : Surroundings) (defaultPeriod : Single) (name : NormalizedName)
    (spec : ArchiveSpec) (world : World) : List String → World → Prop
  | nothing (readings : Nat) :
      ItemWrites surroundings defaultPeriod name spec world [] { world with readings }
  | record (record : ActiveRecord) (fields aliases : List String) (store : ConfigStore) (readings : Nat)
      (found : world.store.activeRecord name.baseName = .ok (some record))
      (ownFields : fields <+: name.standardField.toList) (ownAliases : aliases <+: spec.aliasName.toList)
      (merge : RecordMerge name.baseName fields aliases world.store store) :
      ItemWrites surroundings defaultPeriod name spec world [] { world with store, readings }
  | addition (record : PendingRecord) (inactive : world.store.activeRecord name.baseName = .ok none)
      (found : world.queue[name.baseName]? = some record) :
      ItemWrites surroundings defaultPeriod name spec world []
        { world with
          queue := world.queue.insert name.baseName
            (record.applyAll (Admission.pendingEdits name spec.aliasName)).1 }
  | request (policy : EffectivePolicy) (started : List String)
      (inactive : world.store.activeRecord name.baseName = .ok none)
      (absent : world.queue[name.baseName]? = none) (free : name.queueKey ∉ world.queue)
      (resolved : spec.effectivePolicy defaultPeriod (world.minimumPeriodText surroundings) = .ok policy)
      (own : started <+: [name.baseName]) :
      ItemWrites surroundings defaultPeriod name spec world started
        { world with
          queue := world.queue.insert name.queueKey (.ofRequest name policy spec.aliasName)
          engine := world.engine.told started }

section Course
variable {surroundings : Surroundings} {defaultPeriod : Single} {name : NormalizedName}
  {spec : ArchiveSpec} {world after : World}

theorem FieldCourse.merge {record : ActiveRecord} {result : Except AdmissionError ActiveRecord}
    (found : world.store.activeRecord name.baseName = .ok (some record))
    (course : FieldCourse surroundings name record world result after) :
    ∃ fields store readings, fields <+: name.standardField.toList ∧
      after = { world with store, readings } ∧ RecordMerge name.baseName fields [] world.store store := by
  cases course with
  | known => exact ⟨[], _, _, List.nil_prefix, rfl, .refl _ _⟩
  | unwritten => exact ⟨[], _, _, List.nil_prefix, rfl, .refl _ _⟩
  | written field store part new written =>
    refine ⟨[field], store, _, ?_, rfl, .of_updateActiveRecord found written⟩
    rw [part]
    exact List.prefix_refl _

theorem AliasCourse.merge {aliasName : Option String} {record : ActiveRecord}
    {result : Except AdmissionError ActiveRecord}
    (course : AliasCourse surroundings name aliasName record world result after) :
    ∃ aliases store, aliases <+: aliasName.toList ∧ after = { world with store } ∧
      RecordMerge name.baseName [] aliases world.store store := by
  cases course with
  | none => exact ⟨[], _, List.nil_prefix, rfl, .refl _ _⟩
  | unregistered => exact ⟨[], _, List.nil_prefix, rfl, .refl _ _⟩
  | registered added store given written =>
    refine ⟨[added], store, ?_, rfl, .of_addAlias written⟩
    rw [given]
    exact List.prefix_refl _

theorem ItemWrites.of_merges {record merged : ActiveRecord} {middle : World}
    {result last : Except AdmissionError ActiveRecord}
    (found : world.store.activeRecord name.baseName = .ok (some record))
    (field : FieldCourse surroundings name record world result middle)
    (registration : AliasCourse surroundings name spec.aliasName merged middle last after) :
    ItemWrites surroundings defaultPeriod name spec world [] after := by
  obtain ⟨fields, store, readings, ownFields, rfl, first⟩ := field.merge found
  obtain ⟨aliases, store, ownAliases, rfl, second⟩ := registration.merge
  have merge := first.trans second
  rw [List.append_nil, List.nil_append] at merge
  exact .record record fields aliases store readings found ownFields ownAliases merge

theorem CheckCourse.writes {result : Except AdmissionError Admission}
    (course : CheckCourse surroundings name spec.aliasName world result after) :
    ItemWrites surroundings defaultPeriod name spec world [] after := by
  cases course with
  | unread | unedited | unknown => exact .nothing world.readings
  | fieldLost record e _ found field =>
    obtain ⟨fields, store, readings, own, rfl, merge⟩ := field.merge found
    exact .record record fields [] store readings found own List.nil_prefix merge
  | aliasLost record merged e middle _ found field registration =>
    exact .of_merges found field registration
  | active record merged last middle _ found field registration =>
    exact .of_merges found field registration
  | pending record inactive found => exact .addition record inactive found

theorem ItemCourse.writes {result : Except AdmissionError ArchiveStatus} {outcome : ArchiveOutcome}
    (course : ItemCourse surroundings defaultPeriod name spec world result after)
    (answered : outcomeOf name.baseName result = .ok outcome) :
    ItemWrites surroundings defaultPeriod name spec world outcome.started after := by
  cases course with
  | invalid | unresolved =>
    rw [started_of_error answered]
    exact .nothing world.readings
  | unchecked e _ usable checked =>
    rw [started_of_error answered]
    exact checked.writes
  | registered admission _ usable known checked =>
    cases answered
    exact checked.writes
  | submitted policy submission _ usable inactive absent resolved submitted =>
    cases submitted with
    | unqueued failure failed =>
      rw [started_of_error answered]
      exact .nothing world.readings
    | refused taken =>
      cases answered
      exact .nothing world.readings
    | unstarted failure free failed =>
      have written := ItemWrites.request policy [] inactive absent free resolved List.nil_prefix
      rw [Engine.told_nil] at written
      rw [started_of_error answered]
      exact written
    | queued free running =>
      cases answered
      rw [Engine.start_of_running running]
      exact .request policy [name.baseName] inactive absent free resolved (List.prefix_refl _)

end Course

/-- Whether an item has changed nothing but what is its own, and has only added to it. -/
structure NamedItem.Grows (item : NamedItem) (world after : World) : Prop where
  /-- Of all active records only that of the variable changes, and it gets no more than the item brings. -/
  record : ∃ fields aliases, fields <+: item.name.standardField.toList ∧
    aliases <+: item.spec.aliasName.toList ∧
    RecordMerge item.name.baseName fields aliases world.store after.store
  active : ∀ pv, (after.store.activeRecord pv).map Option.isSome =
    (world.store.activeRecord pv).map Option.isSome
  aliases : ∀ added, added ∉ item.spec.aliasName →
    after.store.resolveAlias added = world.store.resolveAlias added
  /-- No request disappears. It keeps what it was queued with, and gets no more than the item brings. -/
  request : ∀ (key : String) (record : PendingRecord), world.queue[key]? = some record →
    ∃ fields aliases grown, fields <+: item.name.standardField.toList ∧
      aliases <+: item.spec.aliasName.toList ∧ after.queue[key]? = some grown ∧
      PendingMerge fields aliases record grown
  elsewhere : ∀ key : String, key ≠ item.name.baseName → key ≠ item.name.queueKey →
    after.queue[key]? = world.queue[key]?
  fresh : ∀ key ∈ after.queue, key ∈ world.queue ∨ key = item.name.queueKey
  engine : ∃ started, started <+: [item.name.baseName] ∧ after.engine = world.engine.told started

section Growth
variable {surroundings : Surroundings} {defaultPeriod : Single} {name : NormalizedName}
  {spec : ArchiveSpec} {world after : World} {started : List String}

theorem ItemWrites.merge (writes : ItemWrites surroundings defaultPeriod name spec world started after) :
    ∃ fields aliases, fields <+: name.standardField.toList ∧ aliases <+: spec.aliasName.toList ∧
      RecordMerge name.baseName fields aliases world.store after.store := by
  cases writes with
  | record record fields aliases store readings found ownFields ownAliases merge =>
    exact ⟨fields, aliases, ownFields, ownAliases, merge⟩
  | nothing | addition | request => exact ⟨[], [], List.nil_prefix, List.nil_prefix, .refl _ _⟩

theorem ItemWrites.active (writes : ItemWrites surroundings defaultPeriod name spec world started after)
    (pv : String) : (after.store.activeRecord pv).map Option.isSome =
      (world.store.activeRecord pv).map Option.isSome := by
  cases writes with
  | record record fields aliases store readings found ownFields ownAliases merge =>
    by_cases same : pv = name.baseName
    · obtain ⟨grown, present, -⟩ := merge.here record found
      rw [same, found, present]
      rfl
    · rw [merge.elsewhere pv same]
  | nothing | addition | request => rfl

theorem ItemWrites.request_kept
    (writes : ItemWrites surroundings defaultPeriod name spec world started after) {key : String}
    {record : PendingRecord} (found : world.queue[key]? = some record) :
    ∃ fields aliases grown, fields <+: name.standardField.toList ∧ aliases <+: spec.aliasName.toList ∧
      after.queue[key]? = some grown ∧ PendingMerge fields aliases record grown := by
  have kept (found : after.queue[key]? = some record) : ∃ fields aliases grown,
      fields <+: name.standardField.toList ∧ aliases <+: spec.aliasName.toList ∧
        after.queue[key]? = some grown ∧ PendingMerge fields aliases record grown :=
    ⟨[], [], record, List.nil_prefix, List.nil_prefix, found, .refl record⟩
  cases writes with
  | nothing | record => exact kept found
  | addition other inactive held =>
    by_cases same : key = name.baseName
    · subst same
      cases found.symm.trans held
      exact ⟨_, _, _, List.prefix_refl _, List.prefix_refl _,
        by rw [Table.getElem?_insert_iff, if_pos rfl], .of_pendingEdits record name spec.aliasName⟩
    · exact kept (by rw [Table.getElem?_insert_iff, if_neg same, found])
  | request policy started inactive absent free resolved own =>
    have apart : key ≠ name.queueKey := by
      rintro rfl
      exact free (Table.mem_of_getElem? found)
    exact kept (by rw [Table.getElem?_insert_iff, if_neg apart, found])

theorem ItemWrites.fresh (writes : ItemWrites surroundings defaultPeriod name spec world started after)
    {key : String} (held : key ∈ after.queue) : key ∈ world.queue ∨ key = name.queueKey := by
  cases writes with
  | nothing | record => exact .inl held
  | addition record inactive found =>
    exact .inl ((Table.mem_insert_of_mem (Table.mem_of_getElem? found)).mp held)
  | request policy started inactive absent free resolved own => exact Table.mem_insert_iff.mp held

theorem ItemWrites.engine (writes : ItemWrites surroundings defaultPeriod name spec world started after) :
    started <+: [name.baseName] ∧ after.engine = world.engine.told started := by
  cases writes with
  | nothing | record | addition => exact ⟨List.nil_prefix, (Engine.told_nil _).symm⟩
  | request policy started inactive absent free resolved own => exact ⟨own, rfl⟩

end Growth

theorem NamedItem.writes (item : NamedItem) {surroundings : Surroundings} {defaultPeriod : Single}
    {world after : World} {result : Except AdmissionError ArchiveOutcome}
    (ran : (archivePv defaultPeriod item.catalog item.spec).run surroundings world = (result, after)) :
    ∃ outcome, result = .ok outcome ∧ outcome.pvName = item.name.baseName ∧
      ItemWrites surroundings defaultPeriod item.name item.spec world outcome.started after := by
  rcases archivePv_course ran with ⟨_, invalid, _⟩ | ⟨name, status, valid, course, answered⟩
  · cases item.valid.symm.trans invalid
  · cases item.valid.symm.trans valid
    obtain ⟨outcome, continues⟩ := course.exists_outcome
    exact ⟨outcome, answered.trans continues, outcomeOf_pvName continues, course.writes continues⟩

/-- Whatever fails and however an item is answered, it changes nothing that belongs to another
variable, and takes nothing away. -/
theorem item_changes_only_its_own (surroundings : Surroundings) (defaultPeriod : Single)
    (item : NamedItem) (world after : World) (result : Except AdmissionError ArchiveOutcome)
    (ran : (archivePv defaultPeriod item.catalog item.spec).run surroundings world = (result, after)) :
    item.Grows world after := by
  obtain ⟨outcome, -, -, writes⟩ := item.writes ran
  have uses := archivePv_uses item.name defaultPeriod item.valid
  have same := Program.run_elsewhere surroundings uses world
  have ran : Program.run surroundings (ExceptT.run (archivePv defaultPeriod item.catalog item.spec)) world =
    (result, after) := ran
  rw [ran] at same
  exact {
    record := writes.merge
    active := writes.active
    request := fun key record found => writes.request_kept found
    fresh := fun key held => writes.fresh held
    engine := ⟨_, writes.engine⟩
    aliases := fun added other => (same.resolveAlias other).symm
    elsewhere := fun key base queue => (same.request (by simp [NormalizedName.cells, base, queue])).symm }

/-- The field of an active variable is written although its alias cannot be registered. -/
theorem item_changes_only_its_own_of_lost_alias :
    let record : ActiveRecord := ⟨"SRC", ∅, ∅, 5⟩
    let store : MemoryStore := ⟨(∅ : Table ActiveRecord).insert "SRC" record, ∅, ∅, ["HIHI"]⟩
    let start : World := .fresh (.memory store) .noting
    let item : NamedItem :=
      ⟨.ofList ["HIHI"], { pv := "SRC.HIHI", aliasName := some "A" }, ⟨"SRC", .standard "HIHI"⟩, rfl⟩
    let archived := (archivePv AdmissionConfig.default.defaultPeriod item.catalog item.spec).run
      (.withOutages ["add_alias"] fun _ => 7) start
    archived.1 = .ok ⟨"SRC", .exceptionOccurred⟩ ∧ item.Grows start archived.2 :=
  ⟨rfl, item_changes_only_its_own _ _ _ _ _ _ rfl⟩

end ArchiveIntake
