import ArchiveIntake.Proofs.Growth
import ArchiveIntake.Proofs.Resubmission

/-! A batch is its items one after another. No failure of an item ends it, only a name that fails
the syntax check does, and no item changes the catalog that later ones are read with. So a batch
can be cut in two anywhere, whatever is out of order. -/

namespace ArchiveIntake

/-- The catalog that a batch gets to see. -/
def World.seenCatalog (surroundings : Surroundings) (world : World) : Catalog :=
  (loadCatalog.run surroundings world).1

/-- The name that an item is looked up by. -/
def ArchiveSpec.baseName (catalog : Catalog) (spec : ArchiveSpec) : String :=
  (Name.split catalog spec.pv).baseName

variable {surroundings : Surroundings} {defaultPeriod : Single} {catalog : Catalog} {world after : World}
  {spec : ArchiveSpec} {specs : List ArchiveSpec}

theorem ArchiveSpec.normalize_of_isValid (valid : Name.isValid (spec.baseName catalog) = true) :
    Name.normalize catalog spec.pv = .ok (Name.split catalog spec.pv) := by
  unfold Name.normalize
  exact if_pos valid

theorem ArchiveSpec.normalize_of_invalid (invalid : Name.isValid (spec.baseName catalog) = false) :
    Name.normalize catalog spec.pv = .error (.invalidName (spec.baseName catalog)) := by
  unfold Name.normalize
  exact if_neg (Bool.eq_false_iff.mp invalid)

theorem ArchiveSpec.normalize_eq_ok {name : NormalizedName} :
    Name.normalize catalog spec.pv = .ok name ↔
      name = Name.split catalog spec.pv ∧ Name.isValid (spec.baseName catalog) = true := by
  cases valid : Name.isValid (spec.baseName catalog) with
  | true => simp [normalize_of_isValid valid, eq_comm]
  | false => simp [normalize_of_invalid valid]

/-! The catalog is a setting, so it stays as it is. -/

theorem loadCatalog_run_seen (surroundings : Surroundings) (world : World) :
    loadCatalog.run surroundings world = (world.seenCatalog surroundings, world) :=
  Prod.ext rfl (loadCatalog_onlyLooks.run surroundings world)

theorem World.seenCatalog_of_settings (same : world.store.SameSettings after.store) :
    after.seenCatalog surroundings = world.seenCatalog surroundings := by
  have fields : (after.respond surroundings .standardFields).1 =
      (world.respond surroundings .standardFields).1 := by
    unfold World.respond
    split
    · rfl
    · exact same.standardFields
  change (Program.run surroundings (.ask .standardFields _) after).1 =
    (Program.run surroundings (.ask .standardFields _) world).1
  rw [Program.run_ask, Program.run_ask, fields]
  cases (world.respond surroundings .standardFields).1 <;> rfl

theorem archiveBatch_run_seen (surroundings : Surroundings) (world : World) :
    (archiveBatch defaultPeriod specs).run surroundings world =
      (archiveItems defaultPeriod (world.seenCatalog surroundings) specs).run surroundings world := by
  rw [archiveBatch, Attempt.run_bind, Attempt.run_lift, loadCatalog_run_seen]

/-! Items one after another. -/

theorem archiveItems_append (defaultPeriod : Single) (catalog : Catalog) (first second : List ArchiveSpec) :
    archiveItems defaultPeriod catalog (first ++ second) = do
      let outcomes ← archiveItems defaultPeriod catalog first
      let others ← archiveItems defaultPeriod catalog second
      return outcomes ++ others := by
  induction first with
  | nil => simp [archiveItems]
  | cons spec rest ih => simp [archiveItems, ih]

theorem archiveItems_run_of_isValid (surroundings : Surroundings) (defaultPeriod : Single)
    (valid : ∀ spec ∈ specs, Name.isValid (spec.baseName catalog) = true) (world : World) :
    ∃ outcomes after, (archiveItems defaultPeriod catalog specs).run surroundings world =
        (.ok outcomes, after) ∧
      outcomes.map (·.pvName) = specs.map (·.baseName catalog) := by
  induction specs generalizing world with
  | nil => exact ⟨[], world, rfl, rfl⟩
  | cons spec rest ih =>
    obtain ⟨here, others⟩ := List.forall_mem_cons.mp valid
    have normalized := ArchiveSpec.normalize_of_isValid here
    cases ran : (archiveNamed defaultPeriod (Name.split catalog spec.pv) spec).run surroundings world with
    | mk result middle =>
      obtain ⟨status, course, rfl⟩ := archiveNamed_course ran
      obtain ⟨outcome, continues⟩ := course.exists_outcome
      rw [continues] at ran
      obtain ⟨outcomes, after, later, names⟩ := ih others middle
      refine ⟨outcome :: outcomes, after, archiveItems_run_cons normalized ran later, ?_⟩
      rw [List.map_cons, List.map_cons, names, outcomeOf_pvName continues]
      rfl

/-- The first item of a batch whose name fails the syntax check, and the items before it. -/
structure FirstInvalid (catalog : Catalog) (specs earlier : List ArchiveSpec) (spec : ArchiveSpec) :
    Prop where
  split : ∃ later, specs = earlier ++ spec :: later
  valid : ∀ item ∈ earlier, Name.isValid (item.baseName catalog) = true
  invalid : Name.isValid (spec.baseName catalog) = false

theorem all_valid_or_firstInvalid (catalog : Catalog) (specs : List ArchiveSpec) :
    (∀ spec ∈ specs, Name.isValid (spec.baseName catalog) = true) ∨
      ∃ earlier spec, FirstInvalid catalog specs earlier spec := by
  cases found : specs.find? fun spec => !Name.isValid (spec.baseName catalog) with
  | none => exact .inl (by simpa using found)
  | some spec =>
    obtain ⟨invalid, earlier, later, same, valid⟩ := List.find?_eq_some_iff_append.mp found
    exact .inr ⟨earlier, spec, ⟨later, same⟩, by simpa using valid, by simpa using invalid⟩

theorem FirstInvalid.run {earlier : List ArchiveSpec} (first : FirstInvalid catalog specs earlier spec)
    (surroundings : Surroundings) (defaultPeriod : Single) (world : World) :
    ∃ outcomes after, (archiveItems defaultPeriod catalog earlier).run surroundings world =
        (.ok outcomes, after) ∧
      (archiveItems defaultPeriod catalog specs).run surroundings world =
        (.error (.invalidName (spec.baseName catalog)), after) := by
  obtain ⟨later, rfl⟩ := first.split
  obtain ⟨outcomes, after, ran, -⟩ :=
    archiveItems_run_of_isValid surroundings defaultPeriod first.valid world
  refine ⟨outcomes, after, ran, ?_⟩
  rw [archiveItems_append, Attempt.run_bind, ran]
  simp only
  rw [Attempt.run_bind, archiveItems_run_of_invalid (ArchiveSpec.normalize_of_invalid first.invalid)]

/-- Nothing but an invalid name ends a batch. -/
theorem archiveItems_run_eq_error {e : AdmissionError} :
    (archiveItems defaultPeriod catalog specs).run surroundings world = (.error e, after) ↔
      ∃ earlier spec outcomes, FirstInvalid catalog specs earlier spec ∧
        e = .invalidName (spec.baseName catalog) ∧
        (archiveItems defaultPeriod catalog earlier).run surroundings world = (.ok outcomes, after) := by
  constructor
  · intro failed
    rcases all_valid_or_firstInvalid catalog specs with valid | ⟨earlier, spec, first⟩
    · obtain ⟨outcomes, _, ran, -⟩ := archiveItems_run_of_isValid surroundings defaultPeriod valid world
      cases failed.symm.trans ran
    · obtain ⟨outcomes, _, ran, aborted⟩ := first.run surroundings defaultPeriod world
      cases failed.symm.trans aborted
      exact ⟨earlier, spec, outcomes, first, rfl, ran⟩
  · rintro ⟨earlier, spec, outcomes, first, rfl, ran⟩
    obtain ⟨_, _, same, aborted⟩ := first.run surroundings defaultPeriod world
    cases ran.symm.trans same
    exact aborted

theorem archiveBatch_nil (surroundings : Surroundings) (defaultPeriod : Single) (world : World) :
    (archiveBatch defaultPeriod []).run surroundings world = (.ok [], world) := by
  rw [archiveBatch_run_seen]
  rfl

theorem archiveBatch_singleton (surroundings : Surroundings) (defaultPeriod : Single) (world : World)
    (spec : ArchiveSpec) :
    (archiveBatch defaultPeriod [spec]).run surroundings world =
      (do
        let outcome ← archivePv defaultPeriod (world.seenCatalog surroundings) spec
        return [outcome] : Attempt (List ArchiveOutcome)).run surroundings world := by
  rw [archiveBatch_run_seen]
  simp only [archiveItems, pure_bind]

theorem archiveBatch_append (surroundings : Surroundings) (defaultPeriod : Single) (world : World)
    (first second : List ArchiveSpec) :
    (archiveBatch defaultPeriod (first ++ second)).run surroundings world =
      (do
        let outcomes ← archiveBatch defaultPeriod first
        let others ← archiveBatch defaultPeriod second
        return outcomes ++ others : Attempt (List ArchiveOutcome)).run surroundings world := by
  rw [archiveBatch_run_seen, archiveItems_append, Attempt.run_bind, Attempt.run_bind, archiveBatch_run_seen]
  cases ran : (archiveItems defaultPeriod (world.seenCatalog surroundings) first).run surroundings world with
  | mk result middle =>
    cases result with
    | error e => rfl
    | ok outcomes =>
      simp only
      rw [Attempt.run_bind, Attempt.run_bind, archiveBatch_run_seen,
        World.seenCatalog_of_settings (Attempt.run_settings ran)]

/-- A batch has one outcome for each item, in order and under its base name, or is ended by the first
invalid name, in the world that the items before it leave. -/
theorem archiveBatch_cases (surroundings : Surroundings) (defaultPeriod : Single) (world : World)
    (specs : List ArchiveSpec) :
    (∃ outcomes after, (archiveBatch defaultPeriod specs).run surroundings world = (.ok outcomes, after) ∧
        outcomes.map (·.pvName) = specs.map (·.baseName (world.seenCatalog surroundings))) ∨
      ∃ earlier spec outcomes after, FirstInvalid (world.seenCatalog surroundings) specs earlier spec ∧
        (archiveBatch defaultPeriod earlier).run surroundings world = (.ok outcomes, after) ∧
        (archiveBatch defaultPeriod specs).run surroundings world =
          (.error (.invalidName (spec.baseName (world.seenCatalog surroundings))), after) := by
  simp only [archiveBatch_run_seen]
  rcases all_valid_or_firstInvalid (world.seenCatalog surroundings) specs with
    valid | ⟨earlier, spec, first⟩
  · exact .inl (archiveItems_run_of_isValid surroundings defaultPeriod valid world)
  · obtain ⟨outcomes, after, ran, aborted⟩ := first.run surroundings defaultPeriod world
    exact .inr ⟨earlier, spec, outcomes, after, first, ran, aborted⟩

theorem Attempt.run_ofExcept_bind {given : Except AdmissionError α} {next : α → Attempt β}
    {result : Except AdmissionError β}
    (ran : (ofExcept given >>= next).run surroundings world = (result, after)) :
    (∃ e, given = .error e ∧ result = .error e ∧ after = world) ∨
      ∃ value, given = .ok value ∧ (next value).run surroundings world = (result, after) := by
  rw [run_bind, run_ofExcept] at ran
  cases given with
  | error e =>
    cases ran
    exact .inl ⟨e, rfl, rfl, rfl⟩
  | ok value => exact .inr ⟨value, rfl, ran⟩

/-- How batches run in a world. -/
structure BatchLaws (surroundings : Surroundings) (defaultPeriod : Single) (world : World) : Prop where
  empty : (archiveBatch defaultPeriod []).run surroundings world = (.ok [], world)
  /-- A batch of one item is this item, with the catalog as it is seen. -/
  single : ∀ spec, (archiveBatch defaultPeriod [spec]).run surroundings world =
    (do
      let outcome ← archivePv defaultPeriod (world.seenCatalog surroundings) spec
      return [outcome] : Attempt (List ArchiveOutcome)).run surroundings world
  append : ∀ first second : List ArchiveSpec,
    (archiveBatch defaultPeriod (first ++ second)).run surroundings world =
      (do
        let outcomes ← archiveBatch defaultPeriod first
        let others ← archiveBatch defaultPeriod second
        return outcomes ++ others : Attempt (List ArchiveOutcome)).run surroundings world
  fails_iff : ∀ specs, (∃ e after, (archiveBatch defaultPeriod specs).run surroundings world =
      (.error e, after)) ↔
    ∃ spec ∈ specs, Name.isValid (spec.baseName (world.seenCatalog surroundings)) = false
  /-- A batch fails with the first invalid name, in the world that the items before it leave. -/
  aborted : ∀ specs e after, (archiveBatch defaultPeriod specs).run surroundings world =
      (.error e, after) ↔
    ∃ earlier spec outcomes, FirstInvalid (world.seenCatalog surroundings) specs earlier spec ∧
      e = .invalidName (spec.baseName (world.seenCatalog surroundings)) ∧
      (archiveBatch defaultPeriod earlier).run surroundings world = (.ok outcomes, after)
  answered : ∀ specs, (∀ spec ∈ specs,
      Name.isValid (spec.baseName (world.seenCatalog surroundings)) = true) →
    ∃ outcomes after, (archiveBatch defaultPeriod specs).run surroundings world = (.ok outcomes, after) ∧
      outcomes.map (·.pvName) = specs.map (·.baseName (world.seenCatalog surroundings))
  /-- A request that fails with any other error has done nothing. -/
  plain : ∀ request e after, (archivePlain defaultPeriod request).run surroundings world =
      (.error e, after) → (∀ baseName, e ≠ .invalidName baseName) → after = world
  structured : ∀ body e after, (archiveStructured defaultPeriod body).run surroundings world =
      (.error e, after) → (∀ baseName, e ≠ .invalidName baseName) → after = world

theorem batch_runs_items_in_order (surroundings : Surroundings) (defaultPeriod : Single)
    (world : World) : BatchLaws surroundings defaultPeriod world := by
  have aborted (specs : List ArchiveSpec) (e : AdmissionError) (after : World) :
      (archiveBatch defaultPeriod specs).run surroundings world = (.error e, after) ↔
        ∃ earlier spec outcomes, FirstInvalid (world.seenCatalog surroundings) specs earlier spec ∧
          e = .invalidName (spec.baseName (world.seenCatalog surroundings)) ∧
          (archiveBatch defaultPeriod earlier).run surroundings world = (.ok outcomes, after) := by
    simp only [archiveBatch_run_seen]
    exact archiveItems_run_eq_error
  have kept {specs : List ArchiveSpec} {e : AdmissionError} {after : World}
      (failed : (archiveBatch defaultPeriod specs).run surroundings world = (.error e, after))
      (other : ∀ baseName, e ≠ .invalidName baseName) : after = world := by
    obtain ⟨_, _, _, _, invalid, _⟩ := (aborted specs e after).mp failed
    exact absurd invalid (other _)
  refine ⟨archiveBatch_nil surroundings defaultPeriod world,
    archiveBatch_singleton surroundings defaultPeriod world,
    archiveBatch_append surroundings defaultPeriod world, ?_, aborted, ?_, ?_, ?_⟩
  · intro specs
    constructor
    · rintro ⟨e, after, failed⟩
      obtain ⟨earlier, spec, _, first, -⟩ := (aborted specs e after).mp failed
      obtain ⟨later, rfl⟩ := first.split
      exact ⟨spec, List.mem_append_right _ List.mem_cons_self, first.invalid⟩
    · rintro ⟨spec, member, invalid⟩
      rcases all_valid_or_firstInvalid (world.seenCatalog surroundings) specs with
        valid | ⟨earlier, other, first⟩
      · rw [valid spec member] at invalid
        cases invalid
      · obtain ⟨_, after, _, failed⟩ := first.run surroundings defaultPeriod world
        rw [archiveBatch_run_seen]
        exact ⟨_, after, failed⟩
  · intro specs valid
    rw [archiveBatch_run_seen]
    exact archiveItems_run_of_isValid surroundings defaultPeriod valid world
  · intro request e after failed other
    rcases Attempt.run_ofExcept_bind failed with ⟨_, _, _, rfl⟩ | ⟨specs, _, ran⟩
    · rfl
    · exact kept ran other
  · intro body e after failed other
    rcases Attempt.run_ofExcept_bind failed with ⟨_, _, _, rfl⟩ | ⟨specs, _, ran⟩
    · rfl
    · exact kept ran other

/-- The second of three names is invalid, and the engine cannot be told of the first. -/
theorem batch_runs_items_in_order_up_to_invalid_name :
    let start : World := .fresh (.memoryOf .default) .noting
    let run (specs : List ArchiveSpec) := (archiveBatch AdmissionConfig.default.defaultPeriod specs).run
      (.withOutages ["start_workflow"] fun _ => 0) start
    ∃ after, run [{ pv := "A.HIHI" }] = (.ok [⟨"A", .exceptionOccurred⟩], after) ∧
      run [{ pv := "A.HIHI" }, { pv := "B C" }, { pv := "D" }] = (.error (.invalidName "B C"), after) := by
  intro start run
  have laws := batch_runs_items_in_order (.withOutages ["start_workflow"] fun _ => 0)
    AdmissionConfig.default.defaultPeriod start
  have ran : run [{ pv := "A.HIHI" }] =
    (.ok [⟨"A", .exceptionOccurred⟩], (run [{ pv := "A.HIHI" }]).2) := Prod.ext rfl rfl
  refine ⟨_, ran, (laws.aborted _ _ _).mpr ⟨[{ pv := "A.HIHI" }], { pv := "B C" }, _, ?_, rfl, ran⟩⟩
  exact ⟨⟨[{ pv := "D" }], rfl⟩, by decide +kernel, by decide +kernel⟩

end ArchiveIntake
