import ArchiveIntake.Proofs.Batch
import ArchiveIntake.Proofs.Session

/-! Sessions cut into steps on single variables. A request in any form comes to the items before
the first invalid name, read with the catalog of the store, and since no request changes the
catalog a whole session comes to one list of steps. It leaves the same world, whatever is out
of order, and what holds of every step holds of every session. -/

namespace ArchiveIntake

namespace Operation

/-- The items of a batch that are reached. -/
def items (catalog : Catalog) (specs : List ArchiveSpec) : List Operation :=
  (specs.takeWhile fun spec => Name.isValid (spec.baseName catalog)).map (.archivePv catalog)

def steps (catalog : Catalog) : Operation → List Operation
  | .archivePlain request => items catalog (request.specs.toOption.getD [])
  | .archiveStructured body => items catalog ((parseStructured body).toOption.getD [])
  | .archiveBatch specs => items catalog specs
  | operation => [operation]

end Operation

def World.reached (surroundings : Surroundings) (defaultPeriod : Single) (world : World)
    (operations : List Operation) : World :=
  ((session defaultPeriod operations).run surroundings world).2

variable {surroundings : Surroundings} {defaultPeriod : Single} {catalog : Catalog} {world after : World}

namespace World

@[simp] theorem reached_nil (surroundings : Surroundings) (defaultPeriod : Single) (world : World) :
    world.reached surroundings defaultPeriod [] = world := rfl

theorem reached_cons (operation : Operation) (rest : List Operation) :
    world.reached surroundings defaultPeriod (operation :: rest) =
      reached surroundings defaultPeriod
        ((operation.program defaultPeriod).run surroundings world).2 rest := by
  simp only [reached, session, Program.run_bind, Program.run_done]

theorem reached_append (first second : List Operation) :
    world.reached surroundings defaultPeriod (first ++ second) =
      (world.reached surroundings defaultPeriod first).reached surroundings defaultPeriod second := by
  induction first generalizing world with
  | nil => rfl
  | cons operation rest ih => rw [List.cons_append, reached_cons, reached_cons, ih]

theorem reached_settings (operations : List Operation) :
    world.store.SameSettings (world.reached surroundings defaultPeriod operations).store :=
  Program.run_settings surroundings (session defaultPeriod operations) world

end World

theorem session_faults_cons (operation : Operation) (rest : List Operation) :
    (session defaultPeriod (operation :: rest)).faults surroundings world =
      (operation.program defaultPeriod).faults surroundings world ++
        (session defaultPeriod rest).faults surroundings
          ((operation.program defaultPeriod).run surroundings world).2 := by
  simp [session, Program.faults_bind, Program.faults]

theorem session_faults_append (first second : List Operation) :
    (session defaultPeriod (first ++ second)).faults surroundings world =
      (session defaultPeriod first).faults surroundings world ++
        (session defaultPeriod second).faults surroundings
          (world.reached surroundings defaultPeriod first) := by
  induction first generalizing world with
  | nil => rfl
  | cons operation rest ih =>
    rw [List.cons_append, session_faults_cons, session_faults_cons, ih, World.reached_cons,
      List.append_assoc]

theorem Attempt.faults_bind (attempt : Attempt α) (next : α → Attempt β) :
    Program.faults surroundings (ExceptT.run (attempt >>= next)) world =
      Program.faults surroundings (ExceptT.run attempt) world ++
        match attempt.run surroundings world with
        | (.ok value, after) => Program.faults surroundings (ExceptT.run (next value)) after
        | (.error _, _) => [] := by
  refine (Program.faults_bind surroundings _ _ world).trans ?_
  unfold run ExceptT.run
  rcases Program.run surroundings attempt world with ⟨_ | value, after⟩ <;> rfl

namespace Operation

theorem items_of_invalid {spec : ArchiveSpec} (rest : List ArchiveSpec)
    (invalid : Name.isValid (spec.baseName catalog) = false) : items catalog (spec :: rest) = [] := by
  simp [items, invalid]

theorem items_cons {spec : ArchiveSpec} (rest : List ArchiveSpec)
    (valid : Name.isValid (spec.baseName catalog) = true) :
    items catalog (spec :: rest) = .archivePv catalog spec :: items catalog rest := by
  simp [items, valid]

end Operation

/-- Items as steps leave the world that they leave in a batch, and fail alike. -/
theorem archiveItems_as_steps (specs : List ArchiveSpec) (world : World) :
    world.reached surroundings defaultPeriod (Operation.items catalog specs) =
        ((archiveItems defaultPeriod catalog specs).run surroundings world).2 ∧
      (session defaultPeriod (Operation.items catalog specs)).faults surroundings world =
        Program.faults surroundings (ExceptT.run (archiveItems defaultPeriod catalog specs)) world := by
  induction specs generalizing world with
  | nil => exact ⟨rfl, rfl⟩
  | cons spec rest ih =>
    cases valid : Name.isValid (spec.baseName catalog) with
    | false =>
      have normalized := ArchiveSpec.normalize_of_invalid valid
      rw [Operation.items_of_invalid rest valid, archiveItems_run_of_invalid normalized]
      refine ⟨rfl, ?_⟩
      rw [archiveItems, Attempt.faults_bind, archivePv, Attempt.faults_bind, Attempt.run_bind,
        Attempt.run_ofExcept, normalized]
      rfl
    | true =>
      have normalized := ArchiveSpec.normalize_of_isValid valid
      cases ran : (archivePv defaultPeriod catalog spec).run surroundings world with
      | mk result middle =>
        obtain ⟨outcome, rfl, -, -⟩ := NamedItem.writes ⟨catalog, spec, _, normalized⟩ ran
        have stepped : ((Operation.archivePv catalog spec).program defaultPeriod).run surroundings world =
          (.ok outcome, middle) := ran
        obtain ⟨reached, faults⟩ := ih middle
        rw [Operation.items_cons rest valid, World.reached_cons, session_faults_cons, stepped, archiveItems,
          Attempt.run_bind, Attempt.faults_bind, ran]
        simp only
        rw [Attempt.run_bind, Attempt.faults_bind, reached, faults]
        constructor
        · rcases (archiveItems defaultPeriod catalog rest).run surroundings middle with ⟨_ | _, _⟩ <;> rfl
        · rcases (archiveItems defaultPeriod catalog rest).run surroundings middle with ⟨_ | _, _⟩ <;>
            simp [Operation.program, Program.faults]

/-- A program comes to steps that leave the world that it leaves, and fail only if it does. -/
structure Program.ComesTo (surroundings : Surroundings) (defaultPeriod : Single) (world : World)
    (program : Program α) (steps : List Operation) : Prop where
  reached : world.reached surroundings defaultPeriod steps = (program.run surroundings world).2
  steady : program.faults surroundings world = [] →
    (session defaultPeriod steps).faults surroundings world = []

theorem archiveBatch_comesTo (specs : List ArchiveSpec) :
    Program.ComesTo surroundings defaultPeriod world (ExceptT.run (archiveBatch defaultPeriod specs))
      (Operation.items (world.seenCatalog surroundings) specs) := by
  constructor
  · rw [(archiveItems_as_steps specs world).1, ← archiveBatch_run_seen]
    rfl
  · intro steady
    rw [archiveBatch, Attempt.faults_bind, Attempt.run_lift, loadCatalog_run_seen] at steady
    rw [(archiveItems_as_steps specs world).2]
    exact (List.append_eq_nil_iff.mp steady).2

theorem archiveRead_comesTo (given : Except AdmissionError (List ArchiveSpec)) :
    Program.ComesTo surroundings defaultPeriod world
      (ExceptT.run do archiveBatch defaultPeriod (← Attempt.ofExcept given))
      (Operation.items (world.seenCatalog surroundings) (given.toOption.getD [])) := by
  cases given with
  | error e => exact ⟨rfl, fun _ => rfl⟩
  | ok specs =>
    have batch : Program.ComesTo surroundings defaultPeriod world
        (ExceptT.run (archiveBatch defaultPeriod specs))
        (Operation.items (world.seenCatalog surroundings) specs) := archiveBatch_comesTo specs
    exact ⟨batch.reached, batch.steady⟩

theorem Operation.program_comesTo (operation : Operation) :
    Program.ComesTo surroundings defaultPeriod world (operation.program defaultPeriod)
      (operation.steps (world.seenCatalog surroundings)) := by
  have single (operation : Operation) :
      Program.ComesTo surroundings defaultPeriod world (operation.program defaultPeriod) [operation] := by
    refine ⟨World.reached_cons operation [], fun steady => ?_⟩
    rw [session_faults_cons, steady]
    rfl
  cases operation with
  | archivePlain request => exact archiveRead_comesTo request.specs
  | archiveStructured body => exact archiveRead_comesTo (parseStructured body)
  | archiveBatch specs => exact archiveBatch_comesTo specs
  | archivePv | submit | check | status | confirmStarted | promote => exact single _

/-- A session comes to the steps of its operations, all read with the catalog that is there first. -/
theorem session_comesTo (surroundings : Surroundings) (defaultPeriod : Single) (world : World)
    (operations : List Operation) :
    (session defaultPeriod operations).ComesTo surroundings defaultPeriod world
      (operations.flatMap (·.steps (world.seenCatalog surroundings))) := by
  induction operations generalizing world with
  | nil => exact ⟨rfl, fun _ => rfl⟩
  | cons operation rest ih =>
    have first : Program.ComesTo surroundings defaultPeriod world (operation.program defaultPeriod)
        (operation.steps (world.seenCatalog surroundings)) := operation.program_comesTo
    have others := ih ((operation.program defaultPeriod).run surroundings world).2
    rw [World.seenCatalog_of_settings (Program.run_settings _ _ _)] at others
    constructor
    · rw [List.flatMap_cons, World.reached_append, first.reached, others.reached]
      exact (World.reached_cons operation rest).symm
    · intro steady
      rw [session_faults_cons, List.append_eq_nil_iff] at steady
      rw [List.flatMap_cons, session_faults_append, first.reached, first.steady steady.1,
        others.steady steady.2]
      rfl

theorem World.reached_steps (operations : List Operation) :
    world.reached surroundings defaultPeriod
        (operations.flatMap (·.steps (world.seenCatalog surroundings))) =
      world.reached surroundings defaultPeriod operations :=
  (session_comesTo surroundings defaultPeriod world operations).reached

end ArchiveIntake
