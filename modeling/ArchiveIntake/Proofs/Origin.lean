import ArchiveIntake.Proofs.Growth
import ArchiveIntake.Proofs.Steps

/-! Where a queued request comes from. Only an item can queue one, and whatever is done later either
takes it out of the queue or adds to it. So a request that is queued now has been there since
an item found its key free, and has only got fields and aliases, whatever was out of order. -/

namespace ArchiveIntake

/-- A step on a single variable that queues no request of its own policy. -/
def Operation.isStep : Operation → Bool
  | .archivePv _ _ | .check _ _ | .status _ | .confirmStarted _ | .promote _ _ => true
  | .archivePlain _ | .archiveStructured _ | .archiveBatch _ | .submit _ _ _ => false

def Operation.isSubmission : Operation → Bool
  | .submit _ _ _ => true
  | _ => false

theorem Operation.isStep_of_mem_steps {catalog : Catalog} {operation step : Operation}
    (checked : operation.isSubmission = false) (member : step ∈ operation.steps catalog) :
    step.isStep = true := by
  have item {specs : List ArchiveSpec} (member : step ∈ items catalog specs) : step.isStep = true := by
    obtain ⟨spec, -, rfl⟩ := List.mem_map.mp member
    rfl
  cases operation with
  | archivePlain | archiveStructured | archiveBatch => exact item member
  | submit => cases checked
  | archivePv | check | status | confirmStarted | promote =>
    cases List.mem_singleton.mp member
    rfl

/-- Under a key is a request that has become this record, if not the same, by getting fields and
aliases alone. -/
def World.Holds (world : World) (key : String) (record : PendingRecord) : Prop :=
  ∃ held fields aliases, world.queue[key]? = some held ∧ PendingMerge fields aliases held record

theorem World.Holds.of_found {world : World} {key : String} {record : PendingRecord}
    (found : world.queue[key]? = some record) : world.Holds key record :=
  ⟨record, [], [], found, .refl record⟩

theorem World.Holds.grown {world : World} {key : String} {record grown : PendingRecord}
    {fields aliases : List String} (holds : world.Holds key record)
    (merge : PendingMerge fields aliases record grown) : world.Holds key grown := by
  obtain ⟨held, _, _, found, first⟩ := holds
  exact ⟨held, _, _, found, first.trans merge⟩

def Request.QueuesNothing : Request → Prop
  | .updatePending _ _ | .insertIfAbsent _ _ => False
  | _ => True

variable {surroundings : Surroundings} {defaultPeriod : Single} {world : World} {key : String}
  {record : PendingRecord}

theorem World.respond_queued {request : Request} (quiet : request.QueuesNothing)
    (found : (world.respond surroundings request).2.queue[key]? = some record) :
    world.queue[key]? = some record := by
  unfold respond at found
  split at found
  · exact found
  · cases request with
    | takePending other =>
      simp only [answer, takePending, Std.ExtTreeMap.getElem?_erase] at found
      split at found
      · cases found
      · exact found
    | updatePending _ _ | insertIfAbsent _ _ => exact quiet.elim
    | activeRecord _ | updateActiveRecord _ _ | addAlias _ _ | property _ | standardFields | activeCount
    | hasPending _ | pendingRecord _ | pendingNames | queueLength | startWorkflow _ | readClock => exact found

theorem Program.run_queued {program : Program α} (uses : program.Uses Request.QueuesNothing)
    (found : (program.run surroundings world).2.queue[key]? = some record) :
    world.queue[key]? = some record := by
  induction program generalizing world with
  | done value => exact found
  | ask request next ih =>
    rw [run_ask] at found
    exact World.respond_queued uses.1 (ih _ (uses.2 _) found)

theorem registerAliases_uses (pv : String) (names : List String) :
    (registerAliases pv names).Uses Request.QueuesNothing := by
  induction names with
  | nil => trivial
  | cons name rest ih =>
    refine ⟨trivial, ?_⟩
    rintro (failure | _)
    · trivial
    · exact ih

theorem promote_uses (key pv : String) : (promote key pv).Uses Request.QueuesNothing := by
  refine ⟨trivial, ?_⟩
  rintro (failure | _ | pending)
  · trivial
  · trivial
  refine ⟨trivial, fun now => ⟨trivial, ?_⟩⟩
  rintro (failure | _)
  · trivial
  · refine (registerAliases_uses pv pending.aliases).bind ?_
    rintro (failure | _) <;> trivial

theorem CheckCourse.queued {name : NormalizedName} {aliasName : Option String} {after : World}
    {result : Except AdmissionError Admission}
    (course : CheckCourse surroundings name aliasName world result after)
    (found : after.queue[key]? = some record) : world.Holds key record := by
  cases course with
  | unread | unedited | unknown => exact .of_found found
  | fieldLost _ _ _ held field =>
    obtain ⟨_, _, _, -, rfl, -⟩ := field.merge held
    exact .of_found found
  | aliasLost _ _ _ _ _ held field registration | active _ _ _ _ _ held field registration =>
    obtain ⟨_, _, _, -, rfl, -⟩ := field.merge held
    obtain ⟨_, _, -, rfl, -⟩ := registration.merge
    exact .of_found found
  | pending other inactive held =>
    rw [Table.getElem?_insert_iff] at found
    split at found
    next same =>
      cases found
      exact (World.Holds.of_found (same ▸ held)).grown (.of_pendingEdits other name aliasName)
    next => exact .of_found found

theorem ItemWrites.queued {name : NormalizedName} {spec : ArchiveSpec} {started : List String}
    {after : World} (writes : ItemWrites surroundings defaultPeriod name spec world started after)
    (found : after.queue[key]? = some record) : world.Holds key record ∨ key ∉ world.queue := by
  by_cases held : key ∈ world.queue
  · obtain ⟨before, there⟩ :=
      Option.isSome_iff_exists.mp (Std.ExtTreeMap.mem_iff_isSome_getElem?.mp held)
    obtain ⟨fields, aliases, grown, -, -, here, merge⟩ := writes.request_kept there
    cases found.symm.trans here
    exact .inl ⟨before, fields, aliases, there, merge⟩
  · exact .inr held

theorem Operation.queued {step : Operation} (single : step.isStep = true)
    (found : ((step.program defaultPeriod).run surroundings world).2.queue[key]? = some record) :
    world.Holds key record ∨
      key ∉ world.queue ∧ ∃ catalog spec name, step = .archivePv catalog spec ∧
        Name.normalize catalog spec.pv = .ok name ∧ name.queueKey = key := by
  cases step with
  | archivePlain | archiveStructured | archiveBatch | submit => cases single
  | archivePv catalog spec =>
    cases ran : (ArchiveIntake.archivePv defaultPeriod catalog spec).run surroundings world with
    | mk result after =>
      have ended : (((Operation.archivePv catalog spec).program defaultPeriod).run surroundings world).2 =
        after := congrArg Prod.snd ran
      rw [ended] at found
      cases valid : Name.normalize catalog spec.pv with
      | error e =>
        rcases archivePv_course ran with ⟨_, _, _, rfl⟩ | ⟨_, _, named, _⟩
        · exact .inl (.of_found found)
        · cases valid.symm.trans named
      | ok name =>
        obtain ⟨outcome, -, -, writes⟩ := NamedItem.writes ⟨catalog, spec, name, valid⟩ ran
        rcases writes.queued found with before | free
        · exact .inl before
        · have own := (writes.fresh (Table.mem_of_getElem? found)).resolve_left free
          exact .inr ⟨free, catalog, spec, name, rfl, valid, own.symm⟩
  | check name aliasName =>
    cases ran : (Admission.check name aliasName).run surroundings world with
    | mk result after =>
      have ended : (((Operation.check name aliasName).program defaultPeriod).run surroundings world).2 =
        after := congrArg Prod.snd ran
      rw [ended] at found
      exact .inl ((Admission.check_course ran).queued found)
  | status raw =>
    have same := (status_onlyLooks raw).run surroundings world
    exact .inl (.of_found (same ▸ found))
  | confirmStarted pv =>
    have uses : (ArchiveIntake.confirmStarted pv).Uses Request.QueuesNothing :=
      .await (promote_uses (Name.queueKey pv) pv)
    exact .inl (.of_found (Program.run_queued uses found))
  | promote key pv => exact .inl (.of_found (Program.run_queued (promote_uses key pv) found))

/-- A request has been under a key all along these steps, and since then has only got fields and
aliases. -/
def World.HoldsThroughout (surroundings : Surroundings) (defaultPeriod : Single) (world : World)
    (steps : List Operation) (key : String) (record : PendingRecord) : Prop :=
  ∀ moment, moment <+: steps → (world.reached surroundings defaultPeriod moment).Holds key record

/-- An item has found its key free among these steps, and the request that it queued is still there. -/
structure World.QueuedBy (surroundings : Surroundings) (defaultPeriod : Single) (world : World)
    (earlier : List Operation) (catalog : Catalog) (spec : ArchiveSpec) (later : List Operation)
    (key : String) (record : PendingRecord) : Prop where
  named : ∃ name, Name.normalize catalog spec.pv = .ok name ∧ name.queueKey = key
  free : key ∉ (world.reached surroundings defaultPeriod earlier).queue
  since : (world.reached surroundings defaultPeriod (earlier ++ [.archivePv catalog spec])).HoldsThroughout
    surroundings defaultPeriod later key record

/-- What is queued now has been there from the start, or since an item found its key free. By
induction on the steps from the first one on. -/
theorem World.queue_origin {steps : List Operation} (single : ∀ step ∈ steps, step.isStep = true)
    (found : (world.reached surroundings defaultPeriod steps).queue[key]? = some record) :
    world.HoldsThroughout surroundings defaultPeriod steps key record ∨
      ∃ earlier catalog spec later, steps = earlier ++ .archivePv catalog spec :: later ∧
        world.QueuedBy surroundings defaultPeriod earlier catalog spec later key record := by
  induction steps generalizing world with
  | nil =>
    refine .inl fun moment within => ?_
    rw [List.prefix_nil.mp within]
    exact .of_found found
  | cons step rest ih =>
    obtain ⟨here, others⟩ := List.forall_mem_cons.mp single
    rw [reached_cons] at found
    rcases ih others found with since | ⟨earlier, catalog, spec, later, rfl, queued⟩
    · -- What has been there since the first step was there before it, or this step has queued it.
      obtain ⟨held, fields, aliases, there, merge⟩ := since [] List.nil_prefix
      rcases Operation.queued here there with before | ⟨free, item⟩
      · refine .inl fun moment within => ?_
        rcases List.prefix_cons_iff.mp within with rfl | ⟨more, rfl, inside⟩
        · exact before.grown merge
        · rw [reached_cons]
          exact since more inside
      · obtain ⟨catalog, spec, name, rfl, named⟩ := item
        refine .inr ⟨[], catalog, spec, rest, rfl, ⟨name, named⟩, free, ?_⟩
        rw [List.nil_append, reached_cons]
        exact since
    · refine .inr ⟨step :: earlier, catalog, spec, later, rfl, queued.named, ?_, ?_⟩
      · rw [reached_cons]
        exact queued.free
      · rw [List.cons_append, reached_cons]
        exact queued.since

theorem World.exists_queuedBy {operations : List Operation} (unqueued : world.queue = ∅)
    (requests : ∀ operation ∈ operations, operation.isSubmission = false)
    (found : (world.reached surroundings defaultPeriod operations).queue[key]? = some record) :
    ∃ earlier catalog spec later,
      operations.flatMap (·.steps (world.seenCatalog surroundings)) =
        earlier ++ .archivePv catalog spec :: later ∧
      world.QueuedBy surroundings defaultPeriod earlier catalog spec later key record := by
  have single : ∀ step ∈ operations.flatMap (·.steps (world.seenCatalog surroundings)),
      step.isStep = true := by
    intro step member
    obtain ⟨operation, given, member⟩ := List.mem_flatMap.mp member
    exact Operation.isStep_of_mem_steps (requests operation given) member
  rw [← World.reached_steps] at found
  rcases World.queue_origin single found with since | queued
  · obtain ⟨held, _, _, there, -⟩ := since [] List.nil_prefix
    simp [unqueued] at there
  · exact queued

end ArchiveIntake
