import ArchiveIntake.Proofs.Batch

/-! Plain requests. The method and the period that its variables share are checked before any of them
is looked at, and nothing passes these checks that an item could not use. So the items of a plain
request are never unusable, and as long as nothing fails none of them is answered with an exception. -/

namespace ArchiveIntake

inductive AdmissionError.IsUnreadable : AdmissionError → Prop
  | malformed (reason : Malformed) : IsUnreadable (.malformed reason)
  | unknownMethod (text : String) : IsUnreadable (.unknownMethod text)
  | invalidPeriod (text : String) : IsUnreadable (.invalidPeriod text)

theorem SamplingMethod.ofName_cases (text : String) :
    (∃ method : SamplingMethod, ofName text = .ok method) ∨ ofName text = .error (.unknownMethod text) := by
  unfold ofName
  split
  · exact .inl ⟨_, rfl⟩
  · split
    · exact .inl ⟨_, rfl⟩
    · exact .inr rfl

theorem SamplingMethod.ofNameAnyCase_name (method : SamplingMethod) :
    ofNameAnyCase method.name = .ok method := by
  cases method <;> rfl

namespace PlainRequest

theorem sharedMethod_cases (request : PlainRequest) :
    (∃ method, request.sharedMethod = .ok method ∧
        ∀ spec : ArchiveSpec, spec.method = method → spec.requestedMethod.isOk = true) ∨
      ∃ text, request.sharedMethod = .error (.unknownMethod text) := by
  unfold sharedMethod ArchiveSpec.requestedMethod
  cases request.method with
  | none =>
    refine .inl ⟨none, rfl, fun spec same => ?_⟩
    rw [same]
    rfl
  | some text =>
    rcases SamplingMethod.ofName_cases text with ⟨method, read⟩ | unknown
    · refine .inl ⟨some method.name, by simp only [read, Except.map], fun spec same => ?_⟩
      rw [same]
      exact congrArg Except.isOk method.ofNameAnyCase_name
    · exact .inr ⟨text, by simp only [unknown, Except.map]⟩

theorem sharedPeriod_cases (request : PlainRequest) :
    (∃ period, request.sharedPeriod = .ok period ∧
        ∀ spec : ArchiveSpec, spec.period = period → spec.requestedPeriod.isOk = true) ∨
      ∃ text, request.sharedPeriod = .error (.invalidPeriod text) := by
  unfold sharedPeriod ArchiveSpec.requestedPeriod
  cases nonEmpty request.period with
  | none =>
    refine .inl ⟨none, rfl, fun spec same => ?_⟩
    rw [same]
    rfl
  | some text =>
    rcases (RawPeriod.text text).seconds_cases with ⟨value, read, -⟩ | ⟨shown, invalid⟩
    · refine .inl ⟨some (.text text), by simp only [read, Except.map], fun spec same => ?_⟩
      simp only [same, read, Except.map]
      rfl
    · exact .inr ⟨shown, by simp only [invalid, Except.map]⟩

/-- A plain request can be read, and then all its items have usable overrides, or it is refused. -/
theorem specs_cases (request : PlainRequest) :
    (∃ specs, request.specs = .ok specs ∧ ∀ spec ∈ specs, spec.overridesAreValid = true) ∨
      ∃ e, request.specs = .error e ∧ e.IsUnreadable := by
  unfold specs
  cases request.pv with
  | none => exact .inr ⟨_, rfl, .malformed .missingPv⟩
  | some list =>
    rcases request.sharedPeriod_cases with ⟨period, readPeriod, usablePeriod⟩ | ⟨text, invalid⟩
    · rcases request.sharedMethod_cases with ⟨method, readMethod, usableMethod⟩ | ⟨text, unknown⟩
      · simp only [readPeriod, readMethod]
        by_cases blank : (entries list).isEmpty = true
        · exact .inr ⟨_, if_pos blank, .malformed .emptyPvList⟩
        · refine .inl ⟨_, if_neg blank, ?_⟩
          intro spec member
          obtain ⟨pv, -, rfl⟩ := List.mem_map.mp member
          rw [ArchiveSpec.overridesAreValid, usableMethod _ rfl, usablePeriod _ rfl]
          rfl
      · exact .inr ⟨_, by rw [readPeriod, unknown]; rfl, .unknownMethod text⟩
    · exact .inr ⟨_, by rw [invalid]; rfl, .invalidPeriod text⟩

theorem overridesAreValid_of_specs {specs : List ArchiveSpec} (request : PlainRequest)
    (given : request.specs = .ok specs) : ∀ spec ∈ specs, spec.overridesAreValid = true := by
  rcases request.specs_cases with ⟨_, read, usable⟩ | ⟨_, refused, -⟩
  · cases given.symm.trans read
    exact usable
  · cases given.symm.trans refused

theorem isUnreadable_of_specs {e : AdmissionError} (request : PlainRequest)
    (given : request.specs = .error e) : e.IsUnreadable := by
  rcases request.specs_cases with ⟨_, read, -⟩ | ⟨_, refused, unreadable⟩
  · cases given.symm.trans read
  · cases given.symm.trans refused
    exact unreadable

end PlainRequest

def ArchiveOutcome.IsAccepted (outcome : ArchiveOutcome) : Prop :=
  outcome.status = .submitted ∨ outcome.status = .alreadySubmitted

variable {surroundings : Surroundings} {defaultPeriod minimum : Single} {world after : World}
  {specs : List ArchiveSpec}

theorem ItemEffect.isAccepted {name : NormalizedName} {spec : ArchiveSpec} {outcome : ArchiveOutcome}
    {result : Except AdmissionError ArchiveStatus}
    (effect : ItemEffect defaultPeriod name spec world result after)
    (usable : spec.overridesAreValid = true)
    (readable : readMinimumPeriod (world.store.property minimumPeriodProperty) = .ok minimum)
    (answered : outcomeOf name.baseName result = .ok outcome) : outcome.IsAccepted := by
  cases effect with
  | invalid e unusable => cases usable.symm.trans unusable
  | unresolved e _ _ _ unreadable =>
    obtain ⟨policy, resolved⟩ := ArchiveSpec.exists_effectivePolicy defaultPeriod usable readable
    cases unreadable.symm.trans resolved
  | active | pending | refused =>
    cases answered
    exact .inr rfl
  | queued =>
    cases answered
    exact .inl rfl

/-- No item changes the least period, so the items of a batch are accepted one like the other. -/
theorem BatchRun.isAccepted {catalog : Catalog} {answer : Except AdmissionError (List ArchiveOutcome)}
    (ran : BatchRun surroundings defaultPeriod catalog world specs answer after)
    (usable : ∀ spec ∈ specs, spec.overridesAreValid = true)
    (readable : readMinimumPeriod (world.store.property minimumPeriodProperty) = .ok minimum) :
    ∀ outcomes, answer = .ok outcomes → ∀ outcome ∈ outcomes, outcome.IsAccepted := by
  induction ran with
  | nil world => rintro _ ⟨⟩ _ ⟨⟩
  | aborted world spec rest e invalid => rintro _ ⟨⟩
  | item world middle after name spec rest status own answer valid effect course answered others ih =>
    obtain ⟨usableHere, usableLater⟩ := List.forall_mem_cons.mp usable
    have readableLater : readMinimumPeriod (middle.store.property minimumPeriodProperty) = .ok minimum := by
      rw [effect.sameVariables.property]
      exact readable
    cases answer with
    | error e => rintro _ ⟨⟩
    | ok outcomes =>
      rintro _ ⟨⟩
      exact List.forall_mem_cons.mpr
        ⟨effect.isAccepted usableHere readable answered, ih usableLater readableLater outcomes rfl⟩

theorem archiveBatch_completes {answer : Except AdmissionError (List ArchiveOutcome)}
    (completed : (archiveBatch defaultPeriod specs).Completes surroundings world answer after) :
    (archiveItems defaultPeriod (world.seenCatalog surroundings) specs).Completes surroundings world
      answer after := by
  rcases Attempt.completes_bind.mp completed with ⟨e, failed, -⟩ | ⟨catalog, middle, loaded, items⟩
  · obtain ⟨_, _, same⟩ := Attempt.completes_lift.mp failed
    cases same
  · obtain ⟨_, loading, same⟩ := Attempt.completes_lift.mp loaded
    cases same
    cases (loadCatalog_run_seen surroundings world).symm.trans loading.1
    exact items

theorem archiveItems_completes_left {catalog : Catalog} {first second : List ArchiveSpec} {middle : World}
    {answer : Except AdmissionError (List ArchiveOutcome)} {outcomes : List ArchiveOutcome}
    (completed : (archiveItems defaultPeriod catalog (first ++ second)).Completes surroundings world answer
      after)
    (ran : (archiveItems defaultPeriod catalog first).run surroundings world = (.ok outcomes, middle)) :
    (archiveItems defaultPeriod catalog first).Completes surroundings world (.ok outcomes) middle := by
  rw [archiveItems_append] at completed
  rcases Attempt.completes_bind.mp completed with ⟨e, failed, -⟩ | ⟨_, _, begun, -⟩
  · cases ran.symm.trans failed.1
  · cases ran.symm.trans begun.1
    exact begun

/-- What comes of a plain request. -/
inductive PlainCourse (surroundings : Surroundings) (defaultPeriod : Single) (request : PlainRequest)
    (world : World) : Except AdmissionError (List ArchiveOutcome) → World → Prop
  | refused (e : AdmissionError) (given : request.specs = .error e) (unreadable : e.IsUnreadable) :
      PlainCourse surroundings defaultPeriod request world (.error e) world
  /-- The request is ended by its first invalid name, after the variables before it were accepted. -/
  | aborted (specs earlier : List ArchiveSpec) (spec : ArchiveSpec) (outcomes : List ArchiveOutcome)
      (after : World) (given : request.specs = .ok specs)
      (first : FirstInvalid (world.seenCatalog surroundings) specs earlier spec)
      (ran : (archiveBatch defaultPeriod earlier).run surroundings world = (.ok outcomes, after))
      (accepted : ∀ outcome ∈ outcomes, outcome.IsAccepted) :
      PlainCourse surroundings defaultPeriod request world
        (.error (.invalidName (spec.baseName (world.seenCatalog surroundings)))) after
  | answered (specs : List ArchiveSpec) (outcomes : List ArchiveOutcome) (after : World)
      (given : request.specs = .ok specs)
      (names : outcomes.map (·.pvName) = specs.map (·.baseName (world.seenCatalog surroundings)))
      (accepted : ∀ outcome ∈ outcomes, outcome.IsAccepted) :
      PlainCourse surroundings defaultPeriod request world (.ok outcomes) after

theorem archiveBatch_plainCourse {request : PlainRequest}
    {answer : Except AdmissionError (List ArchiveOutcome)} (given : request.specs = .ok specs)
    (usable : ∀ spec ∈ specs, spec.overridesAreValid = true)
    (readable : readMinimumPeriod (world.store.property minimumPeriodProperty) = .ok minimum)
    (completed : (archiveBatch defaultPeriod specs).Completes surroundings world answer after) :
    PlainCourse surroundings defaultPeriod request world answer after := by
  have items := archiveBatch_completes completed
  rcases archiveBatch_cases surroundings defaultPeriod world specs with
    ⟨outcomes, _, ran, names⟩ | ⟨earlier, spec, outcomes, _, first, ran, ended⟩
  · cases ran.symm.trans completed.1
    exact .answered specs outcomes after given names
      ((archiveItems_batchRun items).isAccepted usable readable outcomes rfl)
  · cases ended.symm.trans completed.1
    obtain ⟨later, rfl⟩ := first.split
    have begun := archiveItems_completes_left items (archiveBatch_run_seen surroundings world ▸ ran)
    refine .aborted _ earlier spec outcomes after given first ran ?_
    exact (archiveItems_batchRun begun).isAccepted (List.forall_mem_append.mp usable).1 readable outcomes rfl

/-- When nothing fails and the least period is a number, a plain request is refused as a whole, in the
world as it was unless a name is invalid, or all its variables are accepted. What its own checks let
through, the checks of each item let through too. -/
theorem plain_request_is_checked_up_front (surroundings : Surroundings) (defaultPeriod minimum : Single)
    (world after : World) (request : PlainRequest)
    (answer : Except AdmissionError (List ArchiveOutcome))
    (readable : readMinimumPeriod (world.store.property minimumPeriodProperty) = .ok minimum)
    (steady : Program.faults surroundings (ExceptT.run (archivePlain defaultPeriod request)) world = [])
    (ran : (archivePlain defaultPeriod request).run surroundings world = (answer, after)) :
    PlainCourse surroundings defaultPeriod request world answer after ∧
      ∀ specs, request.specs = .ok specs → ∀ spec ∈ specs, spec.overridesAreValid = true := by
  refine ⟨?_, fun specs => request.overridesAreValid_of_specs⟩
  rcases Attempt.completes_bind.mp ⟨ran, steady⟩ with ⟨e, failed, rfl⟩ | ⟨specs, _, read, batch⟩
  · obtain ⟨given, rfl⟩ := Attempt.completes_ofExcept.mp failed
    exact .refused e given.symm (request.isUnreadable_of_specs given.symm)
  · obtain ⟨given, rfl⟩ := Attempt.completes_ofExcept.mp read
    exact archiveBatch_plainCourse given.symm (request.overridesAreValid_of_specs given.symm) readable batch

/-- A list with blanks and a method and a period for an active variable and two names with one key. -/
theorem plain_request_is_checked_up_front_across_marks :
    let store : MemoryStore :=
      ⟨(∅ : Table ActiveRecord).insert "ACT" ⟨"ACT", ∅, ∅, 5⟩, ∅, ∅, ["HIHI", "LOLO"]⟩
    let start : World := .fresh (.memory store) .noting
    let request : PlainRequest :=
      { pv := some " ACT.HIHI,\n, SRC\npva://SRC.LOLO", period := some " 2 ", method := some "SCAN" }
    let ran := (archivePlain AdmissionConfig.default.defaultPeriod request).run (.calm 7) start
    ran.1.toOption = some [⟨"ACT", .alreadySubmitted⟩, ⟨"SRC", .submitted⟩,
        ⟨"pva://SRC", .alreadySubmitted⟩] ∧
      PlainCourse (.calm 7) AdmissionConfig.default.defaultPeriod request start ran.1 ran.2 := by
  intro store start request ran
  have calm : (Surroundings.calm 7).FaultFree := fun _ => rfl
  have sound : start.Sound := World.sound_fresh trivial rfl
  have number : (readMinimumPeriod (start.store.property minimumPeriodProperty)).isOk = true := by
    decide +kernel
  refine ⟨by decide +kernel, ?_⟩
  cases readable : readMinimumPeriod (start.store.property minimumPeriodProperty) with
  | error e =>
    rw [readable] at number
    cases number
  | ok minimum =>
    exact (plain_request_is_checked_up_front (.calm 7) _ minimum start ran.2 request ran.1 readable
      (Program.faults_eq_nil calm sound _).1 (Prod.eta ran).symm).1

end ArchiveIntake
