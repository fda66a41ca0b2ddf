import ArchiveIntake.Proofs.StoreWrites
import Mathlib.Data.List.Induction

/-! What an active record keeps. Every later item only adds to the record. It is replaced as a whole
if its variable is confirmed again while a request is queued under its key, and since an active
variable queues none, that request was made for the other name with the same key: the one with the
mark, or without it. -/

namespace ArchiveIntake

def ActiveRecord.Has (record : ActiveRecord) : PendingEdit → Prop
  | .addField name => name ∈ record.archivedFields
  | .addAlias name => name ∈ record.aliases

def PendingRecord.Has (record : PendingRecord) : PendingEdit → Prop
  | .addField name => name ∈ record.requestedFields
  | .addAlias name => name ∈ record.aliases

section Step
variable {surroundings : Surroundings} {defaultPeriod : Single} {world after : World} {step : Operation}
  {pv : String} {record : ActiveRecord}

theorem RecordMerge.keeps {fields aliases : List String} {before after : ConfigStore} {other : String}
    (merge : RecordMerge other fields aliases before after)
    (active : before.activeRecord pv = .ok (some record)) :
    ∃ grown, after.activeRecord pv = .ok (some grown) ∧ ∀ edit, record.Has edit → grown.Has edit := by
  by_cases same : pv = other
  · subst same
    obtain ⟨grown, present, -, hasFields, hasAliases⟩ := merge.here record active
    refine ⟨grown, present, ?_⟩
    rintro (name | name) has
    · exact (hasFields name).mpr (.inl has)
    · exact (hasAliases name).mpr (.inl has)
  · exact ⟨record, (merge.elsewhere pv same).trans active, fun _ has => has⟩

/-- An active record keeps all it has in a step, unless the step confirms its variable while a request
is queued under its key. -/
theorem StoreWrites.keeps (writes : StoreWrites surroundings defaultPeriod world step after)
    (active : world.store.activeRecord pv = .ok (some record)) :
    (∃ grown, after.store.activeRecord pv = .ok (some grown) ∧
      ∀ edit, record.Has edit → grown.Has edit) ∨
    step = .confirmStarted pv ∧ ∃ pending, world.queue[Name.queueKey pv]? = some pending ∧
      ((step.program defaultPeriod).faults surroundings world = [] →
        Promoted pv pending world.store after.store) := by
  cases writes with
  | nothing same => exact .inl ⟨record, by rw [same, active], fun _ has => has⟩
  | merged other _ _ _ _ _ _ _ merge => exact .inl (merge.keeps active)
  | renewed other pending registered confirms found _ complete promoted =>
    by_cases same : pv = other
    · subst same
      refine .inr ⟨confirms, pending, found, fun steady => ?_⟩
      rw [complete steady] at promoted
      exact promoted
    · exact .inl ⟨record, (promoted.elsewhere pv same).trans active, fun _ has => has⟩

end Step

/-- Steps that clients make one after another from an empty queue, none of which fails. -/
structure ClientRun (surroundings : Surroundings) (defaultPeriod : Single) (start : World)
    (steps : List Operation) : Prop where
  unqueued : start.queue = ∅
  external : ∀ step ∈ steps, step.isInternal = false
  single : ∀ step ∈ steps, step.isStep = true
  steady : (session defaultPeriod steps).faults surroundings start = []

/-- A variable that is active after these steps, and a request queued for its other name: confirmed
now, the variable gets the fields and aliases of this request and no others. -/
structure World.DisplacedBy (surroundings : Surroundings) (defaultPeriod : Single) (start : World)
    (steps : List Operation) (pv rival : String) (pending : PendingRecord) : Prop where
  other : rival = Name.marked pv ∨ pv = Name.marked rival
  active : ∃ record, (start.reached surroundings defaultPeriod steps).store.activeRecord pv =
    .ok (some record)
  found : (start.reached surroundings defaultPeriod steps).queue[Name.queueKey pv]? = some pending
  origin : ∃ earlier catalog spec later name, steps = earlier ++ .archivePv catalog spec :: later ∧
    start.QueuedBy surroundings defaultPeriod earlier catalog spec later (Name.queueKey pv) pending ∧
    Name.normalize catalog spec.pv = .ok name ∧ name.baseName = rival
  replaced : Promoted pv pending (start.reached surroundings defaultPeriod steps).store
    (start.reached surroundings defaultPeriod (steps ++ [.confirmStarted pv])).store

namespace ClientRun
variable {surroundings : Surroundings} {defaultPeriod : Single} {start : World}
  {steps first second : List Operation} {pv : String}

theorem of_operations {operations : List Operation} (unqueued : start.queue = ∅)
    (external : ∀ operation ∈ operations, operation.isInternal = false)
    (steady : (session defaultPeriod operations).faults surroundings start = []) :
    ClientRun surroundings defaultPeriod start
      (operations.flatMap (·.steps (start.seenCatalog surroundings))) := by
  have steps := Operation.external_steps (start.seenCatalog surroundings) external
  exact ⟨unqueued, fun step member => (steps step member).1, fun step member => (steps step member).2,
    (session_comesTo surroundings defaultPeriod start operations).steady steady⟩

theorem of_append (run : ClientRun surroundings defaultPeriod start (first ++ second)) :
    ClientRun surroundings defaultPeriod start first where
  unqueued := run.unqueued
  external step member := run.external step (List.mem_append_left _ member)
  single step member := run.single step (List.mem_append_left _ member)
  steady := session_faults_of_prefix (List.prefix_append first second) run.steady

theorem step {last : Operation} (run : ClientRun surroundings defaultPeriod start (steps ++ [last])) :
    StoreWrites surroundings defaultPeriod (start.reached surroundings defaultPeriod steps) last
        (start.reached surroundings defaultPeriod (steps ++ [last])) ∧
      (last.program defaultPeriod).faults surroundings (start.reached surroundings defaultPeriod steps) =
        [] := by
  have steady := run.steady
  rw [session_faults_append, List.append_eq_nil_iff, session_faults_cons, List.append_eq_nil_iff] at steady
  rw [World.reached_append, World.reached_cons, World.reached_nil]
  exact ⟨Operation.storeWrites (run.external last (by simp)) (run.single last (by simp)), steady.2.1⟩

theorem origin (run : ClientRun surroundings defaultPeriod start steps) {key : String}
    {pending : PendingRecord}
    (found : (start.reached surroundings defaultPeriod steps).queue[key]? = some pending) :
    ∃ earlier catalog spec later name, steps = earlier ++ .archivePv catalog spec :: later ∧
      start.QueuedBy surroundings defaultPeriod earlier catalog spec later key pending ∧
      Name.normalize catalog spec.pv = .ok name ∧ name.queueKey = key ∧
      (start.reached surroundings defaultPeriod steps).store.activeRecord name.baseName = .ok none := by
  rcases World.queue_origin run.single found with since | ⟨earlier, catalog, spec, later, rfl, queued⟩
  · obtain ⟨held, _, _, there, -⟩ := since [] List.nil_prefix
    simp [run.unqueued] at there
  obtain ⟨name, valid, rfl⟩ := queued.named
  refine ⟨earlier, catalog, spec, later, name, rfl, queued, valid, rfl, ?_⟩
  have steady := run.steady
  rw [session_faults_append, List.append_eq_nil_iff, session_faults_cons, List.append_eq_nil_iff]
    at steady
  have since := queued.since
  rw [World.reached_append, World.reached_cons, World.reached_nil] at since
  obtain ⟨held, _, _, there, -⟩ := since [] List.nil_prefix
  rw [World.reached_append, World.reached_cons]
  refine World.inactive_of_holdsThroughout (fun step member => run.external step (by simp [member]))
    (fun step member => run.single step (by simp [member])) steady.2.2 ?_ since
  have completed : (archivePv defaultPeriod catalog spec).Completes surroundings
      (start.reached surroundings defaultPeriod earlier) _ _ := ⟨rfl, steady.2.1⟩
  rcases archivePv_effect completed with ⟨_, invalid, _⟩ | ⟨other, status, named, effect, _⟩
  · cases valid.symm.trans invalid
  · cases valid.symm.trans named
    exact effect.inactive_of_new queued.free (Table.mem_of_getElem? there)

/-- A request that is queued under the key of an active variable was made for its other name. -/
theorem displacedBy {record : ActiveRecord} {pending : PendingRecord}
    (run : ClientRun surroundings defaultPeriod start steps)
    (active : (start.reached surroundings defaultPeriod steps).store.activeRecord pv = .ok (some record))
    (found : (start.reached surroundings defaultPeriod steps).queue[Name.queueKey pv]? = some pending)
    (replaced : Promoted pv pending (start.reached surroundings defaultPeriod steps).store
      (start.reached surroundings defaultPeriod (steps ++ [.confirmStarted pv])).store) :
    ∃ rival, start.DisplacedBy surroundings defaultPeriod steps pv rival pending := by
  obtain ⟨earlier, catalog, spec, later, name, split, queued, valid, key, inactive⟩ := run.origin found
  have apart : name.baseName ≠ pv := by
    intro same
    rw [same] at inactive
    cases active.symm.trans inactive
  have other := Name.eq_marked_of_queueKey_eq
    (show Name.queueKey name.baseName = Name.queueKey pv from key) apart
  exact ⟨name.baseName, other, ⟨record, active⟩, found,
    ⟨earlier, catalog, spec, later, name, split, queued, valid, rfl⟩, replaced⟩

theorem keeps_or_displaced {record : ActiveRecord} {last : Operation}
    (run : ClientRun surroundings defaultPeriod start (steps ++ [last]))
    (active : (start.reached surroundings defaultPeriod steps).store.activeRecord pv = .ok (some record)) :
    (∃ grown, (start.reached surroundings defaultPeriod (steps ++ [last])).store.activeRecord pv =
        .ok (some grown) ∧ ∀ edit, record.Has edit → grown.Has edit) ∨
      last = .confirmStarted pv ∧ ∃ rival pending,
        start.DisplacedBy surroundings defaultPeriod steps pv rival pending := by
  obtain ⟨writes, steady⟩ := run.step
  rcases writes.keeps active with kept | ⟨rfl, pending, found, replaced⟩
  · exact .inl kept
  · obtain ⟨rival, displaced⟩ := run.of_append.displacedBy active found (replaced steady)
    exact .inr ⟨rfl, rival, pending, displaced⟩

end ClientRun

theorem Promoted.has {pv : String} {pending : PendingRecord} {before after : ConfigStore}
    (promoted : Promoted pv pending before after) :
    ∃ record, after.activeRecord pv = .ok (some record) ∧
      ∀ edit, record.Has edit ↔ pending.Has edit := by
  obtain ⟨record, active, -, fields, aliases⟩ := promoted.here
  refine ⟨record, active, ?_⟩
  rintro (name | name)
  · exact fields name
  · exact aliases name

/-- What an active record has is lost in these steps, after the first ones, where it is displaced by a
request that does not have it. -/
def World.Loses (surroundings : Surroundings) (defaultPeriod : Single) (start : World)
    (first second : List Operation) (pv : String) (edit : PendingEdit) : Prop :=
  ∃ earlier later rival pending, second = earlier ++ .confirmStarted pv :: later ∧
    start.DisplacedBy surroundings defaultPeriod (first ++ earlier) pv rival pending ∧ ¬pending.Has edit

section Run
variable {surroundings : Surroundings} {defaultPeriod : Single} {start : World}
  {first second more : List Operation} {pv : String} {record : ActiveRecord} {edit : PendingEdit}

theorem World.Loses.append (loses : start.Loses surroundings defaultPeriod first second pv edit) :
    start.Loses surroundings defaultPeriod first (second ++ more) pv edit := by
  obtain ⟨earlier, later, rival, pending, rfl, displaced⟩ := loses
  exact ⟨earlier, later ++ more, rival, pending, by simp, displaced⟩

/-- By induction on the later steps, the last one at the end. -/
theorem ClientRun.keeps_or_loses
    (run : ClientRun surroundings defaultPeriod start (first ++ second))
    (active : (start.reached surroundings defaultPeriod first).store.activeRecord pv = .ok (some record)) :
    ∃ grown, (start.reached surroundings defaultPeriod (first ++ second)).store.activeRecord pv =
        .ok (some grown) ∧
      ∀ edit, record.Has edit →
        grown.Has edit ∨ start.Loses surroundings defaultPeriod first second pv edit := by
  induction second using List.reverseRecOn with
  | nil =>
    rw [List.append_nil]
    exact ⟨record, active, fun _ has => .inl has⟩
  | append_singleton second last ih =>
    rw [← List.append_assoc] at run ⊢
    obtain ⟨middle, held, kept⟩ := ih run.of_append
    rcases run.keeps_or_displaced held with ⟨grown, present, keeps⟩ | ⟨rfl, rival, pending, displaced⟩
    · refine ⟨grown, present, fun edit has => ?_⟩
      rcases kept edit has with still | lost
      · exact .inl (keeps edit still)
      · exact .inr lost.append
    · obtain ⟨grown, present, same⟩ := displaced.replaced.has
      refine ⟨grown, present, fun edit _ => ?_⟩
      by_cases has : pending.Has edit
      · exact .inl ((same edit).mpr has)
      · exact .inr ⟨second, [], rival, pending, rfl, displaced, has⟩

end Run

/-- Once a variable is active it stays active, and its record keeps every field and every alias, when
nothing fails. Only the request of its other name, queued under the key that both have, can take
something from it: by being confirmed under its name. -/
theorem active_record_grows_until_displaced (surroundings : Surroundings) (defaultPeriod : Single)
    (start : World) (first second : List Operation) (unqueued : start.queue = ∅)
    (external : ∀ operation ∈ first ++ second, operation.isInternal = false)
    (steady : (session defaultPeriod (first ++ second)).faults surroundings start = []) :
    ∀ pv record, (start.reached surroundings defaultPeriod first).store.activeRecord pv =
        .ok (some record) →
      ∃ grown, (start.reached surroundings defaultPeriod (first ++ second)).store.activeRecord pv =
          .ok (some grown) ∧
        ∀ edit, record.Has edit → grown.Has edit ∨
          start.Loses surroundings defaultPeriod
            (first.flatMap (·.steps (start.seenCatalog surroundings)))
            (second.flatMap (·.steps (start.seenCatalog surroundings))) pv edit := by
  intro pv record active
  have run := ClientRun.of_operations unqueued external steady
  rw [List.flatMap_append] at run
  rw [← World.reached_steps] at active
  rw [← World.reached_steps, List.flatMap_append]
  exact run.keeps_or_loses active

/-- A variable is archived with a field, and is active. -/
def plainConfirmed : List Operation :=
  [.archivePv (.ofList ["HIHI"]) { pv := "SRC.HIHI" }, .confirmStarted "SRC"]

/-- Then the same variable is archived under its other name, and confirmed once more. -/
def markedConfirmed : List Operation :=
  [.archivePv (.ofList ["HIHI"]) { pv := "pva://SRC" }, .confirmStarted "SRC"]

theorem active_record_grows_until_displaced_of_marked :
    World.Loses (.calm 0) AdmissionConfig.default.defaultPeriod (.fresh (.memory .empty) .noting)
      plainConfirmed markedConfirmed "SRC" (.addField "HIHI") := by
  let start : World := .fresh (.memory .empty) .noting
  let period := AdmissionConfig.default.defaultPeriod
  have calm : (Surroundings.calm 0).FaultFree := fun _ => rfl
  have sound : start.Sound := World.sound_fresh trivial rfl
  have active : (start.reached (.calm 0) period plainConfirmed).store.activeRecord "SRC" =
    .ok (some ⟨"SRC", .ofList ["HIHI"], ∅, 0⟩) := by decide +kernel
  have replaced : (start.reached (.calm 0) period (plainConfirmed ++ markedConfirmed)).store.activeRecord
    "SRC" = .ok (some ⟨"SRC", ∅, ∅, 0⟩) := by decide +kernel
  obtain ⟨grown, present, kept⟩ := active_record_grows_until_displaced (.calm 0) period start
    plainConfirmed markedConfirmed rfl (by decide) (Program.faults_eq_nil calm sound _).1 "SRC" _ active
  cases replaced.symm.trans present
  exact (kept (.addField "HIHI") (show "HIHI" ∈ NameSet.ofList ["HIHI"] by decide +kernel)).resolve_left
    (show "HIHI" ∉ (∅ : NameSet) by decide +kernel)

/-- The field of an active variable is gone from its record. -/
theorem active_record_is_displaced :
    let start : World := .fresh (.memory .empty) .noting
    let period := AdmissionConfig.default.defaultPeriod
    let middle := start.reached (.calm 0) period plainConfirmed
    let now := start.reached (.calm 0) period (plainConfirmed ++ markedConfirmed)
    (session period (plainConfirmed ++ markedConfirmed)).faults (.calm 0) start = [] ∧
      ∃ record shrunk, middle.store.activeRecord "SRC" = .ok (some record) ∧
        now.store.activeRecord "SRC" = .ok (some shrunk) ∧
        "HIHI" ∈ record.archivedFields ∧ "HIHI" ∉ shrunk.archivedFields :=
  ⟨rfl, _, _, rfl, rfl, by decide +kernel, by decide +kernel⟩

end ArchiveIntake
