import ArchiveIntake.Proofs.Calm
import ArchiveIntake.Proofs.Origin
import ArchiveIntake.Proofs.Promotion

/-! A variable is not active while its own request is queued. An item queues its request only if
its variable is inactive, and the confirmation of its start takes the request out of the queue
before it makes the variable active. All of this is about the full name: the key of a marked
name is another variable, and that one can be active already. -/

namespace ArchiveIntake

/-- A call that no client makes: it goes past the look-up of an item, or makes a name active that is
not the one whose request it takes. -/
def Operation.isInternal : Operation → Bool
  | .submit _ _ _ | .promote _ _ => true
  | .archivePlain _ | .archiveStructured _ | .archiveBatch _ | .archivePv _ _ | .check _ _ | .status _
  | .confirmStarted _ => false

theorem Operation.isInternal_of_mem_steps {catalog : Catalog} {operation step : Operation}
    (external : operation.isInternal = false) (member : step ∈ operation.steps catalog) :
    step.isInternal = false := by
  have item {specs : List ArchiveSpec} (member : step ∈ items catalog specs) :
      step.isInternal = false := by
    obtain ⟨spec, -, rfl⟩ := List.mem_map.mp member
    rfl
  cases operation with
  | archivePlain | archiveStructured | archiveBatch => exact item member
  | submit | promote => cases external
  | archivePv | check | status | confirmStarted =>
    cases List.mem_singleton.mp member
    rfl

theorem Operation.isSubmission_of_not_isInternal {operation : Operation}
    (external : operation.isInternal = false) : operation.isSubmission = false := by
  cases operation <;> first | rfl | cases external

variable {surroundings : Surroundings} {defaultPeriod : Single} {world : World} {pv key : String}
  {record : PendingRecord}

theorem ItemWrites.inactive {name : NormalizedName} {spec : ArchiveSpec} {started : List String}
    {after : World} (writes : ItemWrites surroundings defaultPeriod name spec world started after)
    (inactive : world.store.activeRecord pv = .ok none) : after.store.activeRecord pv = .ok none := by
  have same := writes.active pv
  rw [inactive] at same
  cases found : after.store.activeRecord pv with
  | error failure => simp [found, Except.map] at same
  | ok present =>
    cases present with
    | none => rfl
    | some record => simp [found, Except.map] at same

/-- While its request is queued before and after a step, a variable stays inactive: only the
confirmation of its own start makes it active, and that takes the request. -/
theorem Operation.inactive_of_queued {step : Operation} (external : step.isInternal = false)
    (single : step.isStep = true)
    (steady : (step.program defaultPeriod).faults surroundings world = [])
    (inactive : world.store.activeRecord pv = .ok none)
    (queued : Name.queueKey pv ∈ ((step.program defaultPeriod).run surroundings world).2.queue) :
    ((step.program defaultPeriod).run surroundings world).2.store.activeRecord pv = .ok none := by
  cases step with
  | archivePlain | archiveStructured | archiveBatch => cases single
  | submit | promote => cases external
  | archivePv catalog spec =>
    cases ran : (ArchiveIntake.archivePv defaultPeriod catalog spec).run surroundings world with
    | mk result after =>
      have ended : (((Operation.archivePv catalog spec).program defaultPeriod).run surroundings world).2 =
        after := congrArg Prod.snd ran
      rw [ended]
      cases valid : Name.normalize catalog spec.pv with
      | error e =>
        rcases archivePv_course ran with ⟨_, _, _, rfl⟩ | ⟨_, _, named, _⟩
        · exact inactive
        · cases valid.symm.trans named
      | ok name =>
        obtain ⟨outcome, -, -, writes⟩ := NamedItem.writes ⟨catalog, spec, name, valid⟩ ran
        exact writes.inactive inactive
  | check name aliasName =>
    cases ran : (Admission.check name aliasName).run surroundings world with
    | mk result after =>
      have ended : (((Operation.check name aliasName).program defaultPeriod).run surroundings world).2 =
        after := congrArg Prod.snd ran
      rw [ended]
      have course := Admission.check_course ran
      have writes : ItemWrites surroundings defaultPeriod name { pv := name.baseName, aliasName } world []
        after := course.writes
      exact writes.inactive inactive
  | status raw =>
    have same := (status_onlyLooks raw).run surroundings world
    exact (congrArg (fun world => world.store.activeRecord pv) same).trans inactive
  | confirmStarted other =>
    have completed : (ArchiveIntake.confirmStarted other).Completes surroundings world
        (((Operation.confirmStarted other).program defaultPeriod).run surroundings world).1
        (((Operation.confirmStarted other).program defaultPeriod).run surroundings world).2 :=
      ⟨rfl, steady⟩
    obtain ⟨moved, -, effect⟩ := confirmStarted_effect completed
    generalize (((Operation.confirmStarted other).program defaultPeriod).run surroundings world).2 = after
      at effect queued ⊢
    cases effect with
    | absent => exact inactive
    | moved pending store readings found promoted =>
      have different : pv ≠ other := by
        rintro rfl
        exact (Table.mem_erase_iff.mp queued).1 rfl
      exact (promoted.elsewhere pv different).trans inactive

/-- By induction on the steps, from the first one on. -/
theorem World.inactive_of_holdsThroughout {steps : List Operation}
    (external : ∀ step ∈ steps, step.isInternal = false) (single : ∀ step ∈ steps, step.isStep = true)
    (steady : (session defaultPeriod steps).faults surroundings world = [])
    (inactive : world.store.activeRecord pv = .ok none)
    (since : world.HoldsThroughout surroundings defaultPeriod steps (Name.queueKey pv) record) :
    (world.reached surroundings defaultPeriod steps).store.activeRecord pv = .ok none := by
  induction steps generalizing world with
  | nil => exact inactive
  | cons step rest ih =>
    obtain ⟨hereExternal, external⟩ := List.forall_mem_cons.mp external
    obtain ⟨hereSingle, single⟩ := List.forall_mem_cons.mp single
    rw [session_faults_cons, List.append_eq_nil_iff] at steady
    have later : World.HoldsThroughout surroundings defaultPeriod
        ((step.program defaultPeriod).run surroundings world).2 rest (Name.queueKey pv) record := by
      intro moment within
      have held := since (step :: moment) (List.cons_prefix_cons.mpr ⟨rfl, within⟩)
      rwa [reached_cons] at held
    obtain ⟨held, _, _, there, -⟩ := later [] List.nil_prefix
    rw [reached_cons]
    exact ih external single steady.2
      (Operation.inactive_of_queued hereExternal hereSingle steady.1 inactive (Table.mem_of_getElem? there))
      later

theorem ItemEffect.inactive_of_new {name : NormalizedName} {spec : ArchiveSpec} {after : World}
    {result : Except AdmissionError ArchiveStatus}
    (effect : ItemEffect defaultPeriod name spec world result after)
    (free : key ∉ world.queue) (held : key ∈ after.queue) :
    after.store.activeRecord name.baseName = .ok none := by
  cases effect with
  | invalid | active | unresolved | refused => exact absurd held free
  | pending other usable inactive found =>
    exact absurd ((Table.mem_insert_of_mem (Table.mem_of_getElem? found)).mp held) free
  | queued policy usable inactive => exact inactive

/-- When nothing fails, at every moment of a run that begins with an empty queue, whatever is queued was
queued for a variable that is inactive. So a name that is active has a request under it only if
that request is for the name with the mark in front. -/
theorem queued_variable_is_inactive (surroundings : Surroundings) (defaultPeriod : Single)
    (start now : World) (operations moment : List Operation) (performed : List Performed)
    (unqueued : start.queue = ∅)
    (external : ∀ operation ∈ operations, operation.isInternal = false)
    (steady : (session defaultPeriod operations).faults surroundings start = [])
    (within : moment <+: operations)
    (ran : (session defaultPeriod moment).run surroundings start = (performed, now)) :
    ∀ key record, now.queue[key]? = some record →
      ∃ earlier catalog spec later name,
        moment.flatMap (·.steps (start.seenCatalog surroundings)) =
          earlier ++ .archivePv catalog spec :: later ∧
        start.QueuedBy surroundings defaultPeriod earlier catalog spec later key record ∧
        Name.normalize catalog spec.pv = .ok name ∧ name.queueKey = key ∧
        now.store.activeRecord name.baseName = .ok none ∧
        ∀ active, now.store.activeRecord key = .ok (some active) → name.baseName = Name.marked key := by
  intro key record found
  obtain ⟨reached, steadySteps⟩ := session_comesTo surroundings defaultPeriod start moment
  have external : ∀ step ∈ moment.flatMap (·.steps (start.seenCatalog surroundings)),
      step.isInternal = false ∧ step.isStep = true := by
    intro step member
    obtain ⟨operation, given, member⟩ := List.mem_flatMap.mp member
    have external := external operation (within.subset given)
    exact ⟨Operation.isInternal_of_mem_steps external member,
      Operation.isStep_of_mem_steps (Operation.isSubmission_of_not_isInternal external) member⟩
  have calm := session_faults_of_prefix within steady
  have fine := steadySteps calm
  rw [ran] at reached
  rw [← show _ = now from reached] at found ⊢
  rcases World.queue_origin (fun step member => (external step member).2) found with
    since | ⟨earlier, catalog, spec, later, split, queued⟩
  · obtain ⟨held, _, _, there, -⟩ := since [] List.nil_prefix
    simp [unqueued] at there
  · obtain ⟨name, valid, rfl⟩ := queued.named
    rw [split] at external fine ⊢
    rw [session_faults_append, List.append_eq_nil_iff, session_faults_cons, List.append_eq_nil_iff]
      at fine
    have since := queued.since
    rw [World.reached_append, World.reached_cons, World.reached_nil] at since
    obtain ⟨held, _, _, there, -⟩ := since [] List.nil_prefix
    have stays : (start.reached surroundings defaultPeriod
        (earlier ++ .archivePv catalog spec :: later)).store.activeRecord name.baseName = .ok none := by
      rw [World.reached_append, World.reached_cons]
      refine World.inactive_of_holdsThroughout ?_ ?_ fine.2.2 ?_ since
      · exact fun step member => (external step (by simp [member])).1
      · exact fun step member => (external step (by simp [member])).2
      · have completed : (archivePv defaultPeriod catalog spec).Completes surroundings
            (start.reached surroundings defaultPeriod earlier) _ _ := ⟨rfl, fine.2.1⟩
        rcases archivePv_effect completed with ⟨_, invalid, _⟩ | ⟨other, status, named, effect, _⟩
        · cases valid.symm.trans invalid
        · cases valid.symm.trans named
          exact effect.inactive_of_new queued.free (Table.mem_of_getElem? there)
    refine ⟨earlier, catalog, spec, later, name, rfl, queued, valid, rfl, stays, ?_⟩
    intro active isActive
    rcases Name.queueKey_eq_iff.mp (show Name.queueKey name.baseName = name.queueKey from rfl) with
      marked | ⟨same, -⟩
    · exact marked
    · rw [← same] at isActive
      cases stays.symm.trans isActive

/-- A request for a plain name, its start, and a request for the same name with the mark. -/
def markedAfterPlain : List Operation :=
  [.archivePv ∅ { pv := "SRC" }, .confirmStarted "SRC", .archivePv ∅ { pv := "pva://SRC" }]

theorem queued_variable_is_inactive_of_marked :
    let start : World := .fresh (.memory .empty) .noting
    let period := AdmissionConfig.default.defaultPeriod
    let now := start.reached (.calm 0) period markedAfterPlain
    ∃ record active, now.queue["SRC"]? = some record ∧ now.store.activeRecord "SRC" = .ok (some active) ∧
      now.store.activeRecord "pva://SRC" = .ok none := by
  intro start period now
  have calm : (Surroundings.calm 0).FaultFree := fun _ => rfl
  have sound : start.Sound := World.sound_fresh trivial rfl
  obtain ⟨record, found⟩ : ∃ record, now.queue["SRC"]? = some record :=
    Option.isSome_iff_exists.mp (by decide +kernel)
  obtain ⟨active, isActive⟩ : ∃ active, now.store.activeRecord "SRC" = .ok (some active) := ⟨_, rfl⟩
  obtain ⟨_, _, _, _, name, -, -, -, -, inactive, marked⟩ := queued_variable_is_inactive (.calm 0) period
    start now markedAfterPlain markedAfterPlain _ rfl (by decide)
    (Program.faults_eq_nil calm sound _).1 (List.prefix_refl _) rfl "SRC" record found
  rw [marked active isActive] at inactive
  exact ⟨record, active, found, isActive, inactive⟩

/-- A variable that is active gets a request under its own name. -/
theorem active_variable_is_queued_again :
    let start : World := .fresh (.memory .empty) .noting
    let period := AdmissionConfig.default.defaultPeriod
    let now := start.reached (.calm 0) period markedAfterPlain
    (session period markedAfterPlain).faults (.calm 0) start = [] ∧
      "SRC" ∈ now.queue ∧ ∃ active, now.store.activeRecord "SRC" = .ok (some active) :=
  ⟨rfl, by decide +kernel, _, rfl⟩

end ArchiveIntake
