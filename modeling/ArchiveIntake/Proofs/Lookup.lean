import ArchiveIntake.Proofs.Faults

/-! Programs that only look things up. They change nothing, faults or not. Looking a
variable up answers what store and queue hold under its base name itself, whether or not
the name carries the mark. -/

namespace ArchiveIntake

def Request.isLookup : Request → Bool
  | .activeRecord _ | .property _ | .standardFields | .activeCount | .hasPending _
  | .pendingRecord _ | .pendingNames | .queueLength => true
  | .updateActiveRecord _ _ | .addAlias _ _ | .updatePending _ _ | .insertIfAbsent _ _
  | .takePending _ | .startWorkflow _ | .readClock => false

theorem World.respond_of_isLookup {request : Request} (lookup : request.isLookup = true)
    (surroundings : Surroundings) (world : World) :
    (world.respond surroundings request).2 = world := by
  unfold respond
  split
  · rfl
  · cases request <;> first | rfl | cases lookup

def Program.OnlyLooks : Program α → Prop
  | .done _ => True
  | .ask request next => request.isLookup = true ∧ ∀ reply, (next reply).OnlyLooks

namespace Program.OnlyLooks

theorem bind {program : Program α} {next : α → Program β} (first : program.OnlyLooks)
    (rest : ∀ value, (next value).OnlyLooks) : (program.bind next).OnlyLooks := by
  induction program with
  | done value => exact rest value
  | ask request others ih => exact ⟨first.1, fun reply => ih reply (first.2 reply)⟩

theorem attempt_bind {attempt : Attempt α} {next : α → Attempt β}
    (first : OnlyLooks (ExceptT.run attempt)) (rest : ∀ value, OnlyLooks (ExceptT.run (next value))) :
    OnlyLooks (ExceptT.run (attempt >>= next)) := by
  refine bind first ?_
  rintro (e | value)
  · trivial
  · exact rest value

theorem run {program : Program α} (looks : program.OnlyLooks) (surroundings : Surroundings)
    (world : World) : (program.run surroundings world).2 = world := by
  induction program generalizing world with
  | done value => rfl
  | ask request next ih =>
    rw [run_ask, ih _ (looks.2 _)]
    exact World.respond_of_isLookup looks.1 surroundings world

end Program.OnlyLooks

namespace Attempt
variable (surroundings : Surroundings) (world : World)

theorem run_bind (attempt : Attempt α) (next : α → Attempt β) :
    (attempt >>= next).run surroundings world =
      match attempt.run surroundings world with
      | (.ok value, after) => (next value).run surroundings after
      | (.error e, after) => (.error e, after) := by
  refine (Program.run_bind surroundings _ _ world).trans ?_
  unfold run ExceptT.run
  rcases Program.run surroundings attempt world with ⟨_ | value, after⟩ <;> rfl

theorem run_await (wrap : Failure → AdmissionError) (program : Program (Except Failure α)) :
    (await wrap program).run surroundings world =
      ((program.run surroundings world).1.mapError wrap, (program.run surroundings world).2) := by
  refine (Program.run_bind surroundings _ _ world).trans ?_
  cases (program.run surroundings world).1 <;> rfl

theorem run_lift (program : Program α) :
    run surroundings (ExceptT.lift program) world =
      (.ok (program.run surroundings world).1, (program.run surroundings world).2) :=
  Program.run_bind surroundings _ _ world

theorem run_ofExcept (result : Except AdmissionError α) :
    (ofExcept result).run surroundings world = (result, world) := rfl

end Attempt

theorem Program.run_request (surroundings : Surroundings) (world : World) (asked : Request) :
    (Program.request asked).run surroundings world = world.respond surroundings asked := rfl

theorem loadCatalog_onlyLooks : loadCatalog.OnlyLooks := by
  refine ⟨rfl, ?_⟩
  intro reply
  cases reply <;> trivial

theorem find_onlyLooks (name : NormalizedName) :
    Program.OnlyLooks (ExceptT.run (Admission.find name)) := by
  refine ⟨rfl, ?_⟩
  rintro (_ | _ | record)
  · trivial
  · refine ⟨rfl, ?_⟩
    rintro (_ | _ | record) <;> trivial
  · trivial

theorem status_onlyLooks (raw : String) : Program.OnlyLooks (ExceptT.run (status raw)) := by
  refine .attempt_bind (.bind loadCatalog_onlyLooks fun _ => trivial) fun catalog => ?_
  exact .attempt_bind trivial fun name => find_onlyLooks name

namespace World

def catalog (world : World) : Catalog :=
  match world.store.standardFields with
  | .ok fields => NameSet.ofList fields
  | .error _ => ∅

def registration (world : World) (baseName : String) : Except Failure Admission :=
  (world.store.activeRecord baseName).map fun
    | some record => .alreadyActive record
    | none =>
      match world.queue[baseName]? with
      | some record => .alreadyPending record
      | none => .notRegistered

end World

variable {surroundings : Surroundings}

theorem Surroundings.FaultFree.respond (calm : surroundings.FaultFree) (world : World)
    (request : Request) :
    world.respond surroundings request = world.answer surroundings.clock request := by
  simp [World.respond, calm request]

theorem Surroundings.FaultFree.fault?_eq (calm : surroundings.FaultFree) (world : World)
    (request : Request) :
    world.fault? surroundings request = request.failure? (world.answer surroundings.clock request).1 := by
  simp [World.fault?, calm request]

theorem loadCatalog_run (calm : surroundings.FaultFree) (world : World) :
    loadCatalog.run surroundings world = (world.catalog, world) := by
  change Program.run surroundings (.ask .standardFields _) world = _
  rw [Program.run_ask, calm.respond]
  unfold World.answer World.catalog
  cases world.store.standardFields <;> rfl

theorem find_run (calm : surroundings.FaultFree) (name : NormalizedName) (world : World) :
    (Admission.find name).run surroundings world =
      ((world.registration name.baseName).mapError .collaborator, world) := by
  unfold Admission.find World.registration
  rw [Attempt.run_bind, Attempt.collaborate, Attempt.run_await, Program.run_request, calm.respond]
  simp only [World.answer]
  cases world.store.activeRecord name.baseName with
  | error failure => rfl
  | ok found =>
    cases found with
    | some record => rfl
    | none =>
      refine (Attempt.run_bind surroundings world _ _).trans ?_
      rw [Attempt.collaborate, Attempt.run_await, Program.run_request, calm.respond]
      simp only [World.answer, World.pendingRecord]
      cases world.queue[name.baseName]? <;> rfl

theorem status_run (calm : surroundings.FaultFree) (raw : String) (world : World) :
    (status raw).run surroundings world =
      ((Name.normalize world.catalog raw).bind fun name =>
        (world.registration name.baseName).mapError .collaborator, world) := by
  unfold status
  rw [Attempt.run_bind, Attempt.run_lift, loadCatalog_run calm]
  simp only
  rw [Attempt.run_bind, Attempt.run_ofExcept]
  cases Name.normalize world.catalog raw with
  | error e => rfl
  | ok name => exact find_run calm name world

end ArchiveIntake
