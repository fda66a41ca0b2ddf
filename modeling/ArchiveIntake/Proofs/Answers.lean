import ArchiveIntake.Proofs.Steps

/-! Where the outcomes in the answers of a session come from: each is the answer of an item, at the
moment when the session came to it. So what holds of the answer of every item, in whatever world it
runs, holds of all that the clients get to see. -/

namespace ArchiveIntake

def Performed.outcomes : Performed → List ArchiveOutcome
  | ⟨.archivePlain _, .ok outcomes⟩ => outcomes
  | ⟨.archiveStructured _, .ok outcomes⟩ => outcomes
  | ⟨.archiveBatch _, .ok outcomes⟩ => outcomes
  | ⟨.archivePv _ _, .ok outcome⟩ => [outcome]
  | _ => []

def World.Answers (surroundings : Surroundings) (defaultPeriod : Single) (world : World)
    (steps : List Operation) (outcome : ArchiveOutcome) : Prop :=
  ∃ earlier later, ∃ item : NamedItem, steps = earlier ++ item.operation :: later ∧
    ((archivePv defaultPeriod item.catalog item.spec).run surroundings
      (world.reached surroundings defaultPeriod earlier)).1 = .ok outcome

variable {surroundings : Surroundings} {defaultPeriod : Single} {world after : World}
  {first second : List Operation} {outcome : ArchiveOutcome} {catalog : Catalog} {spec : ArchiveSpec}

theorem ArchiveSpec.isValid_of_outcome
    (ran : (archivePv defaultPeriod catalog spec).run surroundings world = (.ok outcome, after)) :
    Name.isValid (spec.baseName catalog) = true := by
  rcases archivePv_course ran with ⟨_, _, same, _⟩ | ⟨name, _, valid, _, _⟩
  · cases same
  · exact (normalize_eq_ok.mp valid).2

namespace World.Answers

theorem here {rest : List Operation}
    (ran : (archivePv defaultPeriod catalog spec).run surroundings world = (.ok outcome, after)) :
    world.Answers surroundings defaultPeriod (.archivePv catalog spec :: rest) outcome := by
  have valid := ArchiveSpec.normalize_of_isValid (ArchiveSpec.isValid_of_outcome ran)
  exact ⟨[], rest, ⟨catalog, spec, _, valid⟩, rfl, congrArg Prod.fst ran⟩

theorem append_left (answers : world.Answers surroundings defaultPeriod first outcome) :
    world.Answers surroundings defaultPeriod (first ++ second) outcome := by
  obtain ⟨earlier, later, item, rfl, answered⟩ := answers
  exact ⟨earlier, later ++ second, item, by simp, answered⟩

theorem append_right
    (answers : (world.reached surroundings defaultPeriod first).Answers surroundings defaultPeriod second
      outcome) :
    world.Answers surroundings defaultPeriod (first ++ second) outcome := by
  obtain ⟨earlier, later, item, rfl, answered⟩ := answers
  refine ⟨first ++ earlier, later, item, by simp, ?_⟩
  rw [World.reached_append]
  exact answered

end World.Answers

theorem archiveItems_answers {specs : List ArchiveSpec} {outcomes : List ArchiveOutcome}
    (ran : (archiveItems defaultPeriod catalog specs).run surroundings world = (.ok outcomes, after)) :
    ∀ outcome ∈ outcomes,
      world.Answers surroundings defaultPeriod (Operation.items catalog specs) outcome := by
  induction specs generalizing world outcomes with
  | nil =>
    cases ran
    simp
  | cons spec rest ih =>
    rcases Attempt.run_bind_eq.mp ran with ⟨_, _, same⟩ | ⟨own, middle, item, ran⟩
    · cases same
    rcases Attempt.run_bind_eq.mp ran with ⟨_, _, same⟩ | ⟨others, last, ran, ended⟩
    · cases same
    cases ended
    rw [Operation.items_cons rest (ArchiveSpec.isValid_of_outcome item)]
    intro outcome member
    rcases List.mem_cons.mp member with rfl | member
    · exact .here item
    · have later : (world.reached surroundings defaultPeriod [.archivePv catalog spec]).Answers
          surroundings defaultPeriod (Operation.items catalog rest) outcome := by
        have stepped : world.reached surroundings defaultPeriod [.archivePv catalog spec] = middle :=
          (World.reached_cons _ _).trans (congrArg Prod.snd item)
        rw [stepped]
        exact ih ran outcome member
      exact later.append_right

theorem archiveBatch_answers {specs : List ArchiveSpec} {outcomes : List ArchiveOutcome}
    (ran : (archiveBatch defaultPeriod specs).run surroundings world = (.ok outcomes, after)) :
    ∀ outcome ∈ outcomes, world.Answers surroundings defaultPeriod
      (Operation.items (world.seenCatalog surroundings) specs) outcome := by
  rw [archiveBatch_run_seen] at ran
  exact archiveItems_answers ran

theorem archiveRead_answers {given : Except AdmissionError (List ArchiveSpec)}
    {outcomes : List ArchiveOutcome}
    (ran : (Attempt.ofExcept given >>= archiveBatch defaultPeriod).run surroundings world =
      (.ok outcomes, after)) :
    ∀ outcome ∈ outcomes, world.Answers surroundings defaultPeriod
      (Operation.items (world.seenCatalog surroundings) (given.toOption.getD [])) outcome := by
  rcases Attempt.run_ofExcept_bind ran with ⟨_, _, same, _⟩ | ⟨specs, rfl, ran⟩
  · cases same
  · exact archiveBatch_answers ran

theorem Operation.answers {operation : Operation} {answer : operation.Answer}
    (ran : (operation.program defaultPeriod).run surroundings world = (answer, after)) :
    ∀ outcome ∈ Performed.outcomes ⟨operation, answer⟩, world.Answers surroundings defaultPeriod
      (operation.steps (world.seenCatalog surroundings)) outcome := by
  intro outcome member
  cases operation with
  | archivePlain | archiveStructured =>
    cases answer with
    | error => simp [Performed.outcomes] at member
    | ok outcomes => exact archiveRead_answers ran outcome member
  | archiveBatch =>
    cases answer with
    | error => simp [Performed.outcomes] at member
    | ok outcomes => exact archiveBatch_answers ran outcome member
  | archivePv =>
    cases answer with
    | error => simp [Performed.outcomes] at member
    | ok own =>
      cases List.mem_singleton.mp member
      exact .here ran
  | submit | check | status | confirmStarted | promote => simp [Performed.outcomes] at member

/-- By induction on the operations, each with the catalog that is there first. -/
theorem session_answers {operations : List Operation} {performed : List Performed}
    (ran : (session defaultPeriod operations).run surroundings world = (performed, after)) :
    ∀ outcome ∈ performed.flatMap Performed.outcomes, world.Answers surroundings defaultPeriod
      (operations.flatMap (·.steps (world.seenCatalog surroundings))) outcome := by
  induction operations generalizing world performed with
  | nil =>
    cases ran
    simp
  | cons operation rest ih =>
    simp only [session, Program.run_bind, Program.run_done] at ran
    cases first : (operation.program defaultPeriod).run surroundings world with
    | mk answer middle =>
      cases others : (session defaultPeriod rest).run surroundings middle with
      | mk more last =>
        simp only [first, others] at ran
        cases ran
        intro outcome member
        rw [List.flatMap_cons] at member ⊢
        rcases List.mem_append.mp member with own | later
        · exact (Operation.answers first outcome own).append_left
        · have reached : world.reached surroundings defaultPeriod
              (operation.steps (world.seenCatalog surroundings)) = middle :=
            operation.program_comesTo.reached.trans (congrArg Prod.snd first)
          have settings := Program.run_settings surroundings (operation.program defaultPeriod) world
          rw [first] at settings
          refine World.Answers.append_right ?_
          rw [reached, ← World.seenCatalog_of_settings settings]
          exact ih others outcome later

end ArchiveIntake
