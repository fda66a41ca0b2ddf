import ArchiveIntake.Proofs.Calm
import ArchiveIntake.Proofs.Mirror
import ArchiveIntake.Proofs.Origin

/-! How queued requests are sampled. The text of the least period is read twice, when a
configuration is checked and when an item asks for a period, and in the same way. So in a world
that begins with a checked configuration the least period can always be read, and an item is
queued with the period it asks for or with the least one. -/

namespace ArchiveIntake

namespace AdmissionConfig
variable {config : AdmissionConfig} {text : String}

def minimumPeriodText (config : AdmissionConfig) : String :=
  config.properties[minimumPeriodProperty]?.getD defaultMinimumPeriod

theorem isMinimumPeriod_default : isMinimumPeriod defaultMinimumPeriod = true := by decide +kernel

theorem validate_eq_ok : config.validate = .ok () ↔ config.fault? = none := by
  unfold validate
  cases config.fault? <;> simp

theorem isMinimumPeriod_of_validate (valid : config.validate = .ok ()) :
    isMinimumPeriod config.minimumPeriodText = true := by
  have faultless := validate_eq_ok.mp valid
  unfold minimumPeriodText
  cases given : config.properties[minimumPeriodProperty]? with
  | none => exact isMinimumPeriod_default
  | some text =>
    unfold fault? at faultless
    rw [given] at faultless
    split at faultless
    · cases faultless
    split at faultless
    · cases faultless
    simp only at faultless
    split at faultless
    next usable => exact usable
    · cases faultless

theorem exists_of_isMinimumPeriod (accepted : isMinimumPeriod text = true) :
    ∃ floor, Binary.read .single (Text.trim text) = .ok floor ∧ floor.isFinite = true := by
  unfold isMinimumPeriod at accepted
  cases read : Binary.read .single (Text.trim text) with
  | error reason =>
    rw [read] at accepted
    cases accepted
  | ok floor =>
    simp only [read, Bool.and_eq_true] at accepted
    exact ⟨floor, rfl, accepted.1⟩

theorem exists_floor (valid : config.validate = .ok ()) :
    ∃ floor, Binary.read .single (Text.trim config.minimumPeriodText) = .ok floor ∧
      floor.isFinite = true ∧
      readMinimumPeriod config.properties[minimumPeriodProperty]? = .ok floor := by
  obtain ⟨floor, read, finite⟩ := exists_of_isMinimumPeriod (isMinimumPeriod_of_validate valid)
  refine ⟨floor, read, finite, ?_⟩
  unfold minimumPeriodText at read
  simp only [readMinimumPeriod, read]

end AdmissionConfig

theorem ConfigStore.property_of_seeded {store : ConfigStore} {config : AdmissionConfig}
    (seeded : store = memoryOf config ∨ store = databaseOf config) (key : String) :
    store.property key = config.properties[key]? := by
  rcases seeded with rfl | rfl
  · rfl
  · unfold databaseOf
    rw [DatabaseStore.seed_empty]
    rfl

namespace Binary
variable {f : Format} {a b : Binary f}

theorem atMost_refl (finite : a.isFinite = true) : a.atMost a = true := by
  cases a with
  | nan => cases finite
  | signed negative rank bounded => cases negative <;> simp [atMost, position]

theorem atMost_of_not_below (first : a.isFinite = true) (second : b.isFinite = true)
    (apart : ¬ a.below b = true) : b.atMost a = true := by
  cases a with
  | nan => cases first
  | signed negative rank bounded =>
    cases b with
    | nan => cases second
    | signed other otherRank otherBounded =>
      cases negative <;> cases other <;> simp_all [below, atMost, position]

end Binary

/-- The method and the period that a request is queued with. Without a period of its own an item is
monitored with the default one, and a period below the floor is raised to it. -/
structure SampledBy (defaultPeriod floor : Single) (spec : ArchiveSpec) (record : PendingRecord) :
    Prop where
  override : record.userOverride = spec.overridesPolicy
  byDefault : record.userOverride = false →
    record.method = .monitor ∧ record.period = defaultPeriod
  byRequest : record.userOverride = true →
    ∃ asked, spec.requestedPeriod = .ok (some asked) ∧ spec.requestedMethod = .ok record.method ∧
      record.period.isFinite = true ∧ floor.atMost record.period = true ∧
      record.period = if asked.below floor then floor else asked

section Sampling
variable {defaultPeriod floor : Single} {spec : ArchiveSpec} {record : PendingRecord}

theorem SampledBy.of_effectivePolicy {property : Option String} {policy : EffectivePolicy}
    (readable : readMinimumPeriod property = .ok floor) (finite : floor.isFinite = true)
    (resolved : spec.effectivePolicy defaultPeriod property = .ok policy) (name : NormalizedName) :
    SampledBy defaultPeriod floor spec (.ofRequest name policy spec.aliasName) := by
  unfold ArchiveSpec.effectivePolicy at resolved
  rcases spec.override_cases with ⟨given, overrides⟩ | ⟨asked, given, overrides, method, period, usable⟩ |
    ⟨e, given, _⟩
  · rw [given] at resolved
    cases resolved
    exact ⟨overrides.symm, fun _ => ⟨rfl, rfl⟩, nofun⟩
  · simp only [given, readable, Except.map] at resolved
    cases resolved
    unfold EffectivePolicy.ofOverride
    by_cases low : asked.period.below floor = true
    · rw [if_pos low]
      refine ⟨overrides.symm, nofun, fun _ => ⟨_, period, method, finite, ?_, (if_pos low).symm⟩⟩
      exact Binary.atMost_refl finite
    · rw [if_neg low]
      refine ⟨overrides.symm, nofun, fun _ => ⟨_, period, method, usable, ?_, (if_neg low).symm⟩⟩
      exact Binary.atMost_of_not_below usable finite low
  · rw [given] at resolved
    cases resolved

theorem SampledBy.of_merge {grown : PendingRecord} {fields aliases : List String}
    (sampled : SampledBy defaultPeriod floor spec record) (merge : PendingMerge fields aliases record grown) :
    SampledBy defaultPeriod floor spec grown := by
  obtain ⟨override, byDefault, byRequest⟩ := sampled
  rw [← merge.userOverride, ← merge.period, ← merge.method] at *
  exact ⟨override, byDefault, byRequest⟩

end Sampling

theorem ItemEffect.policy_of_new {defaultPeriod : Single} {name : NormalizedName} {spec : ArchiveSpec}
    {world after : World} {result : Except AdmissionError ArchiveStatus} {key : String}
    {record : PendingRecord} (effect : ItemEffect defaultPeriod name spec world result after)
    (free : key ∉ world.queue) (found : after.queue[key]? = some record) :
    ∃ policy, spec.effectivePolicy defaultPeriod
        (world.store.property minimumPeriodProperty) = .ok policy ∧
      record = .ofRequest name policy spec.aliasName := by
  cases effect with
  | invalid | active | unresolved | refused => exact absurd (Table.mem_of_getElem? found) free
  | pending other usable inactive held =>
    rw [Table.getElem?_insert_iff] at found
    split at found
    next same => exact absurd (same ▸ Table.mem_of_getElem? held) free
    next => exact absurd (Table.mem_of_getElem? found) free
  | queued policy usable inactive absent resolved _ running =>
    rw [Table.getElem?_insert_iff] at found
    split at found
    next =>
      cases found
      exact ⟨policy, resolved, rfl⟩
    next => exact absurd (Table.mem_of_getElem? found) free

theorem SampledBy.of_archivePv {surroundings : Surroundings} {defaultPeriod floor : Single}
    {catalog : Catalog} {spec : ArchiveSpec} {world after : World}
    {result : Except AdmissionError ArchiveOutcome} {key : String} {record : PendingRecord}
    (completed : (archivePv defaultPeriod catalog spec).Completes surroundings world result after)
    (readable : readMinimumPeriod (world.store.property minimumPeriodProperty) = .ok floor)
    (finite : floor.isFinite = true) (free : key ∉ world.queue) (found : after.queue[key]? = some record) :
    SampledBy defaultPeriod floor spec record := by
  rcases archivePv_effect completed with ⟨_, _, _, rfl⟩ | ⟨name, status, _, effect, _⟩
  · exact absurd (Table.mem_of_getElem? found) free
  · obtain ⟨policy, resolved, rfl⟩ := effect.policy_of_new free found
    exact .of_effectivePolicy readable finite resolved name

/-- In a world that begins with a checked configuration the least period can always be read. What is
queued was queued by an item, at the period that it asked for or at the least one, and is
sampled like this ever since. -/
theorem queued_requests_keep_their_sampling (surroundings : Surroundings) (config : AdmissionConfig)
    (store : ConfigStore) (engine : Engine) (operations : List Operation) (performed : List Performed)
    (now : World)
    (valid : config.validate = .ok ())
    (seeded : store = .memoryOf config ∨ store = .databaseOf config)
    (requests : ∀ operation ∈ operations, operation.isSubmission = false)
    (steady : (session config.defaultPeriod operations).faults surroundings (.fresh store engine) = [])
    (ran : (session config.defaultPeriod operations).run surroundings (.fresh store engine) =
      (performed, now)) :
    ∃ floor, Binary.read .single (Text.trim config.minimumPeriodText) = .ok floor ∧
      floor.isFinite = true ∧
      ((ExceptT.run minimumPeriod).faults surroundings now = [] →
        minimumPeriod.run surroundings now = (.ok floor, now)) ∧
      ∀ key record, now.queue[key]? = some record →
        ∃ earlier catalog spec later,
          operations.flatMap (·.steps ((World.fresh store engine).seenCatalog surroundings)) =
            earlier ++ .archivePv catalog spec :: later ∧
          (World.fresh store engine).QueuedBy surroundings config.defaultPeriod earlier catalog spec later
            key record ∧
          SampledBy config.defaultPeriod floor spec record := by
  obtain ⟨floor, read, finite, readable⟩ := AdmissionConfig.exists_floor valid
  have same : now = (World.fresh store engine).reached surroundings config.defaultPeriod operations :=
    (congrArg Prod.snd ran).symm
  -- No step changes the property, so it is read as it was seeded, at any moment.
  have property {steps : List Operation} : readMinimumPeriod
      (((World.fresh store engine).reached surroundings config.defaultPeriod steps).store.property
        minimumPeriodProperty) = .ok floor := by
    rw [(World.reached_settings steps).properties, World.fresh, ConfigStore.property_of_seeded seeded,
      readable]
  refine ⟨floor, read, finite, fun fine => ?_, fun key record found => ?_⟩
  · cases looked : minimumPeriod.run surroundings now with
    | mk result after =>
      obtain ⟨rfl, rfl⟩ := minimumPeriod_effect ⟨looked, fine⟩
      rw [same, property]
  · obtain ⟨reached, steadySteps⟩ := session_comesTo surroundings config.defaultPeriod
      (.fresh store engine) operations
    have single : ∀ step ∈ operations.flatMap
        (·.steps ((World.fresh store engine).seenCatalog surroundings)), step.isStep = true := by
      intro step member
      obtain ⟨operation, given, member⟩ := List.mem_flatMap.mp member
      exact Operation.isStep_of_mem_steps (requests operation given) member
    rw [ran] at reached
    rw [← show _ = now from reached] at found
    rcases World.queue_origin single found with since | ⟨earlier, catalog, spec, later, split, queued⟩
    · obtain ⟨held, _, _, there, -⟩ := since [] List.nil_prefix
      cases there
    · refine ⟨earlier, catalog, spec, later, split, queued, ?_⟩
      have fine := steadySteps steady
      rw [split, session_faults_append, List.append_eq_nil_iff, session_faults_cons,
        List.append_eq_nil_iff] at fine
      obtain ⟨held, _, _, there, merge⟩ := queued.since [] List.nil_prefix
      rw [World.reached_nil, World.reached_append, World.reached_cons, World.reached_nil] at there
      exact (SampledBy.of_archivePv ⟨rfl, fine.2.1⟩ property finite queued.free there).of_merge merge

/-- An item that asks for too short a period is queued at the least one, and a later one without a
period does not change that. -/
theorem queued_requests_keep_their_sampling_of_raised_period :
    let config := AdmissionConfig.default.withProperty minimumPeriodProperty " 0.5 "
    let low : ArchiveSpec := { pv := "A", period := some (.text "0.25"), method := some "scan" }
    let operations := [.archiveBatch [low, { pv := "B" }],
      .archiveBatch [{ pv := "A", aliasName := some "C" }], .confirmStarted "B"]
    let run := (session config.defaultPeriod operations).run (.calm 0)
      (.fresh (.databaseOf config) .noting)
    ∃ record spec, run.2.queue["A"]? = some record ∧ record.method = .scan ∧
      SampledBy config.defaultPeriod record.period spec record ∧
      minimumPeriod.run (.calm 0) run.2 = (.ok record.period, run.2) := by
  intro config low operations run
  have calm : (Surroundings.calm 0).FaultFree := fun _ => rfl
  have fresh : World.Sound (.fresh (.databaseOf config) .noting) :=
    World.sound_fresh (ConfigStore.sound_databaseOf config) rfl
  obtain ⟨steady, sound⟩ := Program.faults_eq_nil calm fresh (session config.defaultPeriod operations)
  obtain ⟨floor, read, -, reading, sampled⟩ := queued_requests_keep_their_sampling (.calm 0) config
    (.databaseOf config) .noting operations run.1 run.2
    (AdmissionConfig.validate_eq_ok.mpr (by decide +kernel)) (.inr rfl) (by decide) steady
    (Prod.ext rfl rfl)
  have half : (Binary.read .single (Text.trim config.minimumPeriodText)).toOption =
      some (.ofRatio .single false 1 2) := by
    decide +kernel
  rw [read] at half
  cases half
  have queued : (run.2.queue["A"]?.map fun record => (record.method, record.period)) =
      some (.scan, .ofRatio .single false 1 2) := by
    decide +kernel
  obtain ⟨record, found, same⟩ := Option.map_eq_some_iff.mp queued
  obtain ⟨method, period⟩ := Prod.mk.inj same
  obtain ⟨_, _, spec, _, _, _, sampling⟩ := sampled "A" record found
  refine ⟨record, spec, found, method, ?_, ?_⟩
  · rw [period]
    exact sampling
  · rw [period]
    exact reading (Program.faults_eq_nil calm sound _).1

end ArchiveIntake
