import ArchiveIntake.Proofs.Settled

/-! A batch that is submitted twice. After the first run every item is settled, so the second
run only registers aliases again, the same ones in the same order, and the index ends as the
first run left it. A batch that an invalid name ends is ended by the same name again. -/

namespace ArchiveIntake

/-- A batch in which no request fails. An invalid name ends it; every other item has an outcome. -/
inductive BatchRun (surroundings : Surroundings) (defaultPeriod : Single) (catalog : Catalog) :
    World → List ArchiveSpec → Except AdmissionError (List ArchiveOutcome) → World → Prop
  | nil (world : World) : BatchRun surroundings defaultPeriod catalog world [] (.ok []) world
  | aborted (world : World) (spec : ArchiveSpec) (rest : List ArchiveSpec) (e : AdmissionError)
      (invalid : Name.normalize catalog spec.pv = .error e) :
      BatchRun surroundings defaultPeriod catalog world (spec :: rest) (.error e) world
  | item (world middle after : World) (name : NormalizedName) (spec : ArchiveSpec)
      (rest : List ArchiveSpec) (status : Except AdmissionError ArchiveStatus) (outcome : ArchiveOutcome)
      (answer : Except AdmissionError (List ArchiveOutcome))
      (valid : Name.normalize catalog spec.pv = .ok name)
      (effect : ItemEffect defaultPeriod name spec world status middle)
      (course : ItemCourse surroundings defaultPeriod name spec world status middle)
      (answered : outcomeOf name.baseName status = .ok outcome)
      (others : BatchRun surroundings defaultPeriod catalog middle rest answer after) :
      BatchRun surroundings defaultPeriod catalog world (spec :: rest) (answer.map (outcome :: ·)) after

def SinglyMarked (catalog : Catalog) (specs : List ArchiveSpec) : Prop :=
  ∀ spec ∈ specs, ∀ name, Name.normalize catalog spec.pv = .ok name →
    Name.isDoublyMarked name.baseName = false

variable {surroundings : Surroundings} {defaultPeriod minimum : Single} {catalog : Catalog}
  {world after : World} {specs : List ArchiveSpec}
  {answer : Except AdmissionError (List ArchiveOutcome)}

/-- A fault-free run of the items, by induction on them. -/
theorem archiveItems_batchRun
    (completed : (archiveItems defaultPeriod catalog specs).Completes surroundings world answer after) :
    BatchRun surroundings defaultPeriod catalog world specs answer after := by
  induction specs generalizing world answer with
  | nil =>
    obtain ⟨rfl, rfl⟩ := Attempt.completes_pure.mp completed
    exact .nil _
  | cons spec rest ih =>
    rcases Attempt.completes_bind.mp completed with ⟨e, failed, rfl⟩ | ⟨outcome, middle, first, later⟩
    · rcases archivePv_completes failed with ⟨e, invalid, same, rfl⟩ | ⟨name, status, _, admitted, ended⟩
      · cases same
        exact .aborted _ _ _ e invalid
      · -- An item with a valid name has an outcome.
        obtain ⟨outcome, continues⟩ := (admitItem_course admitted.1).exists_outcome
        cases ended.trans continues
    · rcases archivePv_completes first with ⟨_, _, same, _⟩ | ⟨name, status, valid, admitted, ended⟩
      · cases same
      · have run {others : Except AdmissionError (List ArchiveOutcome)}
            (remaining : BatchRun surroundings defaultPeriod catalog middle rest others after) :=
          BatchRun.item world middle after name spec rest status outcome others valid
            (admitItem_effect admitted) (admitItem_course admitted.1) ended.symm remaining
        rcases Attempt.completes_bind.mp later with ⟨e, failed, rfl⟩ | ⟨outcomes, _, others, done⟩
        · exact run (ih failed)
        · obtain ⟨rfl, rfl⟩ := Attempt.completes_pure.mp done
          exact run (ih others)

namespace BatchRun

theorem sameVariables (ran : BatchRun surroundings defaultPeriod catalog world specs answer after) :
    SameVariables world.store after.store := by
  induction ran with
  | nil world | aborted world => exact .refl _
  | item _ _ _ _ _ _ _ _ _ _ effect _ _ _ ih => exact effect.sameVariables.trans ih

theorem catalog_eq (ran : BatchRun surroundings defaultPeriod catalog world specs answer after) :
    after.catalog = world.catalog := by
  induction ran with
  | nil world | aborted world => rfl
  | item _ _ _ _ _ _ _ _ _ _ effect _ _ _ ih => exact ih.trans effect.catalog

theorem kept (ran : BatchRun surroundings defaultPeriod catalog world specs answer after)
    (single : SinglyMarked catalog specs) {name : NormalizedName} {spec : ArchiveSpec}
    {entries : List (String × String)} (settled : Settled name spec world entries) :
    Settled name spec after entries := by
  induction ran with
  | nil world | aborted world => exact settled
  | item _ _ _ other otherSpec _ _ _ _ valid effect _ _ _ ih =>
    obtain ⟨first, singles⟩ := List.forall_mem_cons.mp single
    exact ih singles (settled.kept ⟨catalog, otherSpec, other, valid⟩ (first other valid) effect)

end BatchRun

/-- What a batch is answered the second time, given its first answer. -/
structure Repeats (specs : List ArchiveSpec) (answer again : Except AdmissionError (List ArchiveOutcome)) :
    Prop where
  aborted : ∀ e, answer = .error e → again = .error e
  answered : ∀ outcomes, answer = .ok outcomes → ∃ repeated, again = .ok repeated ∧
    repeated.map (·.pvName) = outcomes.map (·.pvName) ∧
    repeated.map (·.status) = specs.map ArchiveSpec.repeatedStatus

namespace Repeats
variable {again : Except AdmissionError (List ArchiveOutcome)}

theorem cons {spec : ArchiveSpec} {outcome repeated : ArchiveOutcome} (rest : Repeats specs answer again)
    (named : repeated.pvName = outcome.pvName) (status : repeated.status = spec.repeatedStatus) :
    Repeats (spec :: specs) (answer.map (outcome :: ·)) (again.map (repeated :: ·)) := by
  constructor
  · intro e failed
    cases answer with
    | ok outcomes => cases failed
    | error reason =>
      rw [rest.aborted reason rfl]
      exact failed
  · intro outcomes answered
    cases answer with
    | error reason => cases answered
    | ok others =>
      cases answered
      obtain ⟨repeatedOthers, rfl, names, statuses⟩ := rest.answered others rfl
      refine ⟨repeated :: repeatedOthers, rfl, ?_, ?_⟩
      · simp only [List.map_cons, named, names]
      · simp only [List.map_cons, status, statuses]

end Repeats

/-! The items of a batch, run one by one. -/

theorem archiveItems_run_of_invalid {spec : ArchiveSpec} {rest : List ArchiveSpec} {e : AdmissionError}
    (invalid : Name.normalize catalog spec.pv = .error e) :
    (archiveItems defaultPeriod catalog (spec :: rest)).run surroundings world = (.error e, world) := by
  rw [archiveItems, Attempt.run_bind, archivePv, Attempt.run_bind, Attempt.run_ofExcept, invalid]

theorem archiveItems_run_cons {spec : ArchiveSpec} {rest : List ArchiveSpec} {name : NormalizedName}
    {outcome : ArchiveOutcome} {middle : World} (valid : Name.normalize catalog spec.pv = .ok name)
    (first : (archiveNamed defaultPeriod name spec).run surroundings world = (.ok outcome, middle))
    (later : (archiveItems defaultPeriod catalog rest).run surroundings middle = (answer, after)) :
    (archiveItems defaultPeriod catalog (spec :: rest)).run surroundings world =
      (answer.map (outcome :: ·), after) := by
  rw [archiveItems, Attempt.run_bind, archivePv, Attempt.run_bind, Attempt.run_ofExcept, valid]
  simp only [first]
  rw [Attempt.run_bind, later]
  cases answer <;> rfl

/-- The second run of a batch, by induction on the first. It starts in the world that the first
run left, but for what the items before these have registered again. -/
theorem BatchRun.repeated (calm : surroundings.FaultFree)
    (ran : BatchRun surroundings defaultPeriod catalog world specs answer after)
    (readable : readMinimumPeriod (world.store.property minimumPeriodProperty) = .ok minimum)
    (single : SinglyMarked catalog specs) :
    ∃ entries, after.store.aliasIndex =
        (world.store.aliasIndex.map fun index => Table.insertAll index entries) ∧
      ∀ earlier, ∃ again, (archiveItems defaultPeriod catalog specs).run surroundings
          (after.reindexed earlier) = (again, after.reindexed (earlier ++ entries)) ∧
        Repeats specs answer again := by
  induction ran with
  | nil world =>
    refine ⟨[], Option.map_id'.symm, fun earlier => ⟨.ok [], ?_, nofun, ?_⟩⟩
    · rw [List.append_nil]
      rfl
    · intro outcomes answered
      cases answered
      exact ⟨[], rfl, rfl, rfl⟩
  | aborted world spec rest e invalid =>
    refine ⟨[], Option.map_id'.symm, fun earlier => ⟨.error e, ?_, fun _ same => same, nofun⟩⟩
    rw [List.append_nil]
    exact archiveItems_run_of_invalid invalid
  | item world middle after name spec rest status outcome answer valid effect course answered others ih =>
    obtain ⟨-, singles⟩ := List.forall_mem_cons.mp single
    obtain ⟨entries, settled, index, present⟩ := effect.settled course readable
    have readableLater : readMinimumPeriod (middle.store.property minimumPeriodProperty) = .ok minimum := by
      rw [effect.sameVariables.property]
      exact readable
    obtain ⟨later, lateIndex, repeated⟩ := ih readableLater singles
    refine ⟨entries ++ later, ?_, fun earlier => ?_⟩
    · rw [lateIndex, index, Option.map_map]
      simp only [Function.comp_def, Table.insertAll_append]
    · have still := (others.kept singles settled).reindexed earlier
      have readableStill : readMinimumPeriod
          ((after.reindexed earlier).store.property minimumPeriodProperty) = .ok minimum := by
        rw [World.reindexed, ConfigStore.property_reindex, others.sameVariables.property]
        exact readableLater
      have indexed : entries ≠ [] → ∃ index, (after.reindexed earlier).store.aliasIndex = some index := by
        intro some
        obtain ⟨index, here⟩ := present some
        rw [World.reindexed, ConfigStore.aliasIndex_reindex, lateIndex, here]
        exact ⟨_, rfl⟩
      have first := still.archiveNamed_run defaultPeriod calm readableStill indexed
      obtain ⟨again, second, repeats⟩ := repeated (earlier ++ entries)
      rw [World.reindexed_reindexed] at first
      refine ⟨_, archiveItems_run_cons valid first (List.append_assoc _ _ _ ▸ second), repeats.cons ?_ rfl⟩
      exact (outcomeOf_pvName answered).symm

theorem archiveBatch_run (calm : surroundings.FaultFree) (world : World) :
    (archiveBatch defaultPeriod specs).run surroundings world =
      (archiveItems defaultPeriod world.catalog specs).run surroundings world := by
  rw [archiveBatch, Attempt.run_bind, Attempt.run_lift, loadCatalog_run calm]

theorem archiveBatch_batchRun (calm : surroundings.FaultFree)
    (completed : (archiveBatch defaultPeriod specs).Completes surroundings world answer after) :
    BatchRun surroundings defaultPeriod world.catalog world specs answer after := by
  rcases Attempt.completes_bind.mp completed with ⟨e, failed, -⟩ | ⟨catalog, middle, loaded, items⟩
  · obtain ⟨_, _, same⟩ := Attempt.completes_lift.mp failed
    cases same
  · obtain ⟨_, loading, same⟩ := Attempt.completes_lift.mp loaded
    cases same
    have loaded := loading.1
    rw [loadCatalog_run calm] at loaded
    cases loaded
    exact archiveItems_batchRun items

/-- A batch that was processed and is submitted again changes nothing at all: the world stays as
the first run left it. An error that ended the batch ends it again; otherwise every item is
answered under the same name, as an exception if its method or period cannot be used and as
submitted already if they can. -/
theorem resubmitted_batch_changes_nothing (surroundings : Surroundings) (defaultPeriod minimum : Single)
    (world after : World) (specs : List ArchiveSpec)
    (answer : Except AdmissionError (List ArchiveOutcome)) (calm : surroundings.FaultFree)
    (readable : readMinimumPeriod (world.store.property minimumPeriodProperty) = .ok minimum)
    (single : SinglyMarked world.catalog specs)
    (steady : Program.faults surroundings (ExceptT.run (archiveBatch defaultPeriod specs)) world = [])
    (ran : (archiveBatch defaultPeriod specs).run surroundings world = (answer, after)) :
    ∃ again, (archiveBatch defaultPeriod specs).run surroundings after = (again, after) ∧
      Repeats specs answer again := by
  have batch := archiveBatch_batchRun calm ⟨ran, steady⟩
  obtain ⟨entries, indexed, repeated⟩ := batch.repeated calm readable single
  obtain ⟨again, second, repeats⟩ := repeated []
  have unchanged : after.reindexed entries = after := by
    rw [World.reindexed, ConfigStore.reindex_eq_self indexed]
  rw [World.reindexed_nil, List.nil_append, unchanged] at second
  refine ⟨again, ?_, repeats⟩
  rw [archiveBatch_run calm, batch.catalog_eq]
  exact second

/-- An active variable gets a field and an alias, two names share a key, and one item is unusable. -/
theorem resubmitted_batch_changes_nothing_across_marks :
    let store : MemoryStore :=
      ⟨(∅ : Table ActiveRecord).insert "ACT" ⟨"ACT", ∅, ∅, 5⟩, ∅, ∅, ["HIHI", "LOLO"]⟩
    let start : World := .fresh (.memory store) .noting
    let specs : List ArchiveSpec := [{ pv := "ACT.HIHI", aliasName := some "A" },
      { pv := "pva://SRC.HIHI", aliasName := some "B" }, { pv := "SRC.LOLO", aliasName := some "A" },
      { pv := "BAD", method := some "NOPE" }]
    let batch := archiveBatch AdmissionConfig.default.defaultPeriod specs
    let first := batch.run (.calm 7) start
    first.1.toOption = some [⟨"ACT", .alreadySubmitted⟩, ⟨"pva://SRC", .submitted⟩,
        ⟨"SRC", .alreadySubmitted⟩, ⟨"BAD", .exceptionOccurred⟩] ∧
      ∃ again, batch.run (.calm 7) first.2 = (again, first.2) ∧ Repeats specs first.1 again := by
  intro store start specs batch first
  have calm : (Surroundings.calm 7).FaultFree := fun _ => rfl
  have sound : start.Sound := World.sound_fresh trivial rfl
  have single : SinglyMarked start.catalog specs := by
    intro spec member name valid
    have bases : ∀ spec ∈ specs, ((Name.normalize start.catalog spec.pv).toOption.all fun name =>
        !Name.isDoublyMarked name.baseName) = true := by decide +kernel
    simpa [valid, Except.toOption] using bases spec member
  have answers : first.1.toOption = some [⟨"ACT", .alreadySubmitted⟩, ⟨"pva://SRC", .submitted⟩,
      ⟨"SRC", .alreadySubmitted⟩, ⟨"BAD", .exceptionOccurred⟩] := by decide +kernel
  have steady := (Program.faults_eq_nil calm sound (ExceptT.run batch)).1
  have number : (readMinimumPeriod (start.store.property minimumPeriodProperty)).isOk = true := by
    decide +kernel
  cases readable : readMinimumPeriod (start.store.property minimumPeriodProperty) with
  | error e =>
    rw [readable] at number
    cases number
  | ok minimum =>
    exact ⟨answers, resubmitted_batch_changes_nothing (.calm 7) _ minimum start first.2 specs first.1
      calm readable single steady (Prod.eta first).symm⟩

end ArchiveIntake
