import ArchiveIntake.Proofs.QueuedPolicy

/-! Which queued periods are positive. The default period is checked to be, but the least period is only
checked not to be negative, and the period of an item only to be a finite number. So what keeps the
periods of items above zero is the least period alone, and where that is zero an item that asks for
zero or less is queued with a period of zero. -/

namespace ArchiveIntake

namespace Binary
variable {f : Format} {a b : Binary f} {x y : Int}

def IsPositive (a : Binary f) : Prop := (zero f false).below a = true

def IsZero (a : Binary f) : Prop := a.position = some 0

theorem exists_position (finite : a.isFinite = true) : ∃ x, a.position = some x := by
  cases a with
  | nan => cases finite
  | signed negative rank bounded => cases negative <;> exact ⟨_, rfl⟩

theorem below_of_position (first : a.position = some x) (second : b.position = some y) :
    a.below b = true ↔ x < y := by
  simp [below, first, second]

theorem atMost_of_position (first : a.position = some x) (second : b.position = some y) :
    a.atMost b = true ↔ x ≤ y := by
  simp [atMost, first, second]

theorem position_zero : (zero f false).position = some 0 := rfl

/-- A finite number raised to a finite floor that is not negative is positive, unless the floor is zero
and the number is not above it. -/
theorem isPositive_or_isZero_of_raised {asked floor : Binary f} (usable : asked.isFinite = true)
    (finite : floor.isFinite = true) (nonnegative : (zero f false).atMost floor = true) :
    (if asked.below floor then floor else asked).IsPositive ∨
      (if asked.below floor then floor else asked).IsZero ∧ floor.IsZero ∧
        asked.atMost (zero f false) = true := by
  obtain ⟨x, askedAt⟩ := exists_position usable
  obtain ⟨y, floorAt⟩ := exists_position finite
  have least : 0 ≤ y := (atMost_of_position position_zero floorAt).mp nonnegative
  by_cases low : asked.below floor = true
  · have order : x < y := (below_of_position askedAt floorAt).mp low
    simp only [if_pos low]
    rcases Int.lt_or_eq_of_le least with above | rfl
    · exact .inl ((below_of_position position_zero floorAt).mpr above)
    · exact .inr ⟨floorAt, floorAt, (atMost_of_position askedAt position_zero).mpr (by omega)⟩
  · have order : ¬ x < y := fun order => low ((below_of_position askedAt floorAt).mpr order)
    simp only [if_neg low]
    by_cases above : 0 < x
    · exact .inl ((below_of_position position_zero askedAt).mpr above)
    · obtain rfl : x = 0 := by omega
      obtain rfl : y = 0 := by omega
      exact .inr ⟨askedAt, floorAt, (atMost_of_position askedAt position_zero).mpr (Int.le_refl 0)⟩

end Binary

namespace AdmissionConfig
variable {config : AdmissionConfig} {text : String} {floor : Single}

theorem defaultPeriod_of_validate (valid : config.validate = .ok ()) :
    config.defaultPeriod.isFinite = true ∧ config.defaultPeriod.IsPositive := by
  have faultless := validate_eq_ok.mp valid
  unfold fault? at faultless
  split at faultless
  · cases faultless
  next usable => exact Classical.not_not.mp usable

theorem nonnegative_of_isMinimumPeriod (accepted : isMinimumPeriod text = true)
    (read : Binary.read .single (Text.trim text) = .ok floor) :
    floor.isFinite = true ∧ (Binary.zero .single false).atMost floor = true := by
  simp only [isMinimumPeriod, read, Bool.and_eq_true] at accepted
  exact accepted

theorem default_not_isZero (read : Binary.read .single (Text.trim defaultMinimumPeriod) = .ok floor) :
    ¬ floor.IsZero := by
  intro zero
  have positive : (Binary.read .single (Text.trim defaultMinimumPeriod)).toOption.map Binary.position ≠
      some (some 0) := by
    decide +kernel
  rw [read] at positive
  exact positive (congrArg some zero)

end AdmissionConfig

theorem readMinimumPeriod_eq_ok {property : Option String} {floor : Single} :
    readMinimumPeriod property = .ok floor ↔
      Binary.read .single (Text.trim (property.getD defaultMinimumPeriod)) = .ok floor := by
  unfold readMinimumPeriod
  simp only
  cases Binary.read .single (Text.trim (property.getD defaultMinimumPeriod)) <;> simp

/-- The least period that an item gets to see in place of the configured one: finite, not negative, and
zero only if that is zero. -/
structure FloorOf (configured seen : Single) : Prop where
  finite : seen.isFinite = true
  nonnegative : (Binary.zero .single false).atMost seen = true
  zero : seen.IsZero → configured.IsZero

theorem AdmissionConfig.floorOf {config : AdmissionConfig} {property : Option String}
    {configured seen : Single} (valid : config.validate = .ok ())
    (given : property = config.properties[minimumPeriodProperty]? ∨ property = none)
    (here : Binary.read .single (Text.trim config.minimumPeriodText) = .ok configured)
    (read : readMinimumPeriod property = .ok seen) : FloorOf configured seen := by
  rw [readMinimumPeriod_eq_ok] at read
  rcases given with rfl | rfl
  · obtain ⟨finite, nonnegative⟩ := nonnegative_of_isMinimumPeriod (isMinimumPeriod_of_validate valid) read
    cases here.symm.trans read
    exact ⟨finite, nonnegative, id⟩
  · obtain ⟨finite, nonnegative⟩ := nonnegative_of_isMinimumPeriod isMinimumPeriod_default read
    exact ⟨finite, nonnegative, fun zero => absurd zero (default_not_isZero read)⟩

def ArchiveSpec.AsksForNoTime (spec : ArchiveSpec) : Prop :=
  ∃ asked, spec.requestedPeriod = .ok (some asked) ∧ asked.atMost (.zero .single false) = true

/-- A period above zero, or one of zero because the floor is zero and an item asks for no more. -/
def ArchiveSpec.HasPeriod (spec : ArchiveSpec) (floor period : Single) : Prop :=
  period.isFinite = true ∧
    (period.IsPositive ∨ period.IsZero ∧ floor.IsZero ∧ spec.AsksForNoTime)

section Resolution
variable {config : AdmissionConfig} {floor : Single} {spec : ArchiveSpec} {property : Option String}
  {policy : EffectivePolicy}

theorem EffectivePolicy.ofOverride_period (asked : Override) (minimum : Single) (spec : ArchiveSpec) :
    (ofOverride asked minimum spec).period =
      if asked.period.below minimum then minimum else asked.period := by
  unfold ofOverride
  split <;> rfl

theorem ArchiveSpec.HasPeriod.of_effectivePolicy (valid : config.validate = .ok ())
    (floors : ∀ seen, readMinimumPeriod property = .ok seen → FloorOf floor seen)
    (resolved : spec.effectivePolicy config.defaultPeriod property = .ok policy) :
    spec.HasPeriod floor policy.period := by
  obtain ⟨defaultFinite, defaultPositive⟩ := AdmissionConfig.defaultPeriod_of_validate valid
  unfold effectivePolicy at resolved
  rcases spec.override_cases with ⟨given, -⟩ | ⟨asked, given, -, -, requested, usable⟩ | ⟨e, given, -⟩
  · rw [given] at resolved
    cases resolved
    exact ⟨defaultFinite, .inl defaultPositive⟩
  · rw [given] at resolved
    cases read : readMinimumPeriod property with
    | error e =>
      rw [read] at resolved
      cases resolved
    | ok seen =>
      rw [read] at resolved
      cases resolved
      obtain ⟨finite, nonnegative, zeroOnly⟩ := floors seen read
      change spec.HasPeriod floor (EffectivePolicy.ofOverride asked seen spec).period
      rw [EffectivePolicy.ofOverride_period]
      refine ⟨by split <;> assumption, ?_⟩
      exact (Binary.isPositive_or_isZero_of_raised usable finite nonnegative).imp_right
        fun ⟨zero, unfloored, low⟩ => ⟨zero, zeroOnly unfloored, asked.period, requested, low⟩
  · rw [given] at resolved
    cases resolved

end Resolution

variable {surroundings : Surroundings} {defaultPeriod : Single} {world after : World}

theorem World.minimumPeriodText_cases (surroundings : Surroundings) (world : World) :
    world.minimumPeriodText surroundings = world.store.property minimumPeriodProperty ∨
      world.minimumPeriodText surroundings = none := by
  unfold minimumPeriodText respond
  cases surroundings.outage (.property minimumPeriodProperty) with
  | none => exact .inl rfl
  | some failure => exact .inr rfl

theorem ItemWrites.policy_of_new {name : NormalizedName} {spec : ArchiveSpec} {started : List String}
    {key : String} {record : PendingRecord}
    (writes : ItemWrites surroundings defaultPeriod name spec world started after)
    (free : key ∉ world.queue) (found : after.queue[key]? = some record) :
    ∃ policy, spec.effectivePolicy defaultPeriod (world.minimumPeriodText surroundings) = .ok policy ∧
      record = .ofRequest name policy spec.aliasName := by
  cases writes with
  | nothing | record => exact absurd (Table.mem_of_getElem? found) free
  | addition other inactive held =>
    have grown := (Table.mem_insert_of_mem (Table.mem_of_getElem? held)).mp (Table.mem_of_getElem? found)
    exact absurd grown free
  | request policy started inactive absent unheld resolved own =>
    rw [Table.getElem?_insert_iff] at found
    split at found
    next =>
      cases found
      exact ⟨policy, resolved, rfl⟩
    next => exact absurd (Table.mem_of_getElem? found) free

theorem ArchiveSpec.HasPeriod.of_archivePv {config : AdmissionConfig} {floor : Single} {catalog : Catalog}
    {spec : ArchiveSpec} {result : Except AdmissionError ArchiveOutcome} {key : String}
    {record : PendingRecord} (valid : config.validate = .ok ())
    (read : Binary.read .single (Text.trim config.minimumPeriodText) = .ok floor)
    (property : world.store.property minimumPeriodProperty = config.properties[minimumPeriodProperty]?)
    (ran : (archivePv config.defaultPeriod catalog spec).run surroundings world = (result, after))
    (free : key ∉ world.queue) (found : after.queue[key]? = some record) :
    spec.HasPeriod floor record.period := by
  cases named : Name.normalize catalog spec.pv with
  | error e =>
    rcases archivePv_course ran with ⟨_, _, _, rfl⟩ | ⟨_, _, other, _⟩
    · exact absurd (Table.mem_of_getElem? found) free
    · cases named.symm.trans other
  | ok name =>
    obtain ⟨outcome, -, -, writes⟩ := NamedItem.writes ⟨catalog, spec, name, named⟩ ran
    obtain ⟨policy, resolved, rfl⟩ := writes.policy_of_new free found
    have given := world.minimumPeriodText_cases surroundings
    rw [property] at given
    exact .of_effectivePolicy valid (fun _ seen => AdmissionConfig.floorOf valid given read seen) resolved

/-- In a world that begins with a checked configuration every queued period is positive, whatever fails,
unless the least period is configured as zero and the item that queued the request asks for zero or
less. Then the period is zero. -/
theorem queued_periods_are_positive_above_floor (surroundings : Surroundings) (config : AdmissionConfig)
    (store : ConfigStore) (engine : Engine) (operations : List Operation)
    (valid : config.validate = .ok ())
    (seeded : store = .memoryOf config ∨ store = .databaseOf config)
    (requests : ∀ operation ∈ operations, operation.isSubmission = false) :
    ∃ floor, Binary.read .single (Text.trim config.minimumPeriodText) = .ok floor ∧
      ∀ key record, ((World.fresh store engine).reached surroundings config.defaultPeriod
          operations).queue[key]? = some record →
        ∃ earlier catalog spec later,
          operations.flatMap (·.steps ((World.fresh store engine).seenCatalog surroundings)) =
            earlier ++ .archivePv catalog spec :: later ∧
          (World.fresh store engine).QueuedBy surroundings config.defaultPeriod earlier catalog spec later
            key record ∧
          spec.HasPeriod floor record.period := by
  obtain ⟨floor, read, -, -⟩ := AdmissionConfig.exists_floor valid
  refine ⟨floor, read, fun key record found => ?_⟩
  obtain ⟨earlier, catalog, spec, later, split, queued⟩ := World.exists_queuedBy rfl requests found
  refine ⟨earlier, catalog, spec, later, split, queued, ?_⟩
  obtain ⟨held, _, _, there, merge⟩ := queued.since [] List.nil_prefix
  rw [merge.period]
  rw [World.reached_nil, World.reached_append, World.reached_cons, World.reached_nil] at there
  refine .of_archivePv valid read ?_ (Prod.ext rfl rfl) queued.free there
  rw [(World.reached_settings earlier).properties, World.fresh, ConfigStore.property_of_seeded seeded]

/-- An item that asks for a negative period is queued with zero, and a later one with a period of its
own does not change that. -/
theorem queued_periods_are_positive_above_floor_of_tiny_floor :
    let config := AdmissionConfig.default.withProperty minimumPeriodProperty " 1e-60 "
    let surroundings := Surroundings.withOutages ["start_workflow"] fun _ => 0
    let start : World := .fresh (.databaseOf config) .noting
    let operations := [.archiveBatch [{ pv := "A", period := some (.text "-5") }, { pv := "B" }],
      .confirmStarted "B", .archiveBatch [{ pv := "A.HIHI", period := some (.text "2") }]]
    ∃ record earlier catalog spec later,
      (start.reached surroundings config.defaultPeriod operations).queue["A"]? = some record ∧
        record.period.IsZero ∧ spec.AsksForNoTime ∧
        start.QueuedBy surroundings config.defaultPeriod earlier catalog spec later "A" record := by
  intro config surroundings start operations
  obtain ⟨floor, -, periods⟩ := queued_periods_are_positive_above_floor surroundings config
    (.databaseOf config) .noting operations (AdmissionConfig.validate_eq_ok.mpr (by decide +kernel))
    (.inr rfl) (by decide)
  have zeroThere : (start.reached surroundings config.defaultPeriod operations).queue["A"]?.map
      (·.period.position) = some (some 0) := by
    decide +kernel
  obtain ⟨record, found, zero⟩ := Option.map_eq_some_iff.mp zeroThere
  obtain ⟨earlier, catalog, spec, later, -, queued, -, period⟩ := periods "A" record found
  refine ⟨record, earlier, catalog, spec, later, found, zero, ?_, queued⟩
  rcases period with positive | ⟨-, -, asks⟩
  · cases (Binary.below_of_position Binary.position_zero zero).mp positive
  · exact asks

/-- A configuration whose least period is zero is accepted, and then a period of zero is queued. -/
theorem zero_period_is_queued :
    let config := AdmissionConfig.default.withProperty minimumPeriodProperty "0"
    let operations : List Operation := [.archiveBatch [{ pv := "SRC", period := some (.text "0") }]]
    let reached := (World.fresh (.memoryOf config) .noting).reached (.calm 0) config.defaultPeriod
      operations
    config.validate = .ok () ∧
      ∃ record, reached.queue["SRC"]? = some record ∧ ¬ record.period.IsPositive := by
  intro config operations reached
  refine ⟨AdmissionConfig.validate_eq_ok.mpr (by decide +kernel), ?_⟩
  have queued : reached.queue["SRC"]?.map (·.period) = some (.zero .single false) := by decide +kernel
  obtain ⟨record, found, zero⟩ := Option.map_eq_some_iff.mp queued
  refine ⟨record, found, fun positive => ?_⟩
  rw [zero] at positive
  cases positive

end ArchiveIntake
