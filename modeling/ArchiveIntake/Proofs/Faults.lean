import ArchiveIntake.Workflow

/-! Runs without faults. A request fails when it is out of order or when its
collaborator answers with a failure, and a run is fault-free when no request in it
fails. Such a run is taken apart along the steps of its program. -/

namespace ArchiveIntake

def failureIn : Except Failure α → Option Failure
  | .ok _ => none
  | .error failure => some failure

@[simp] theorem failureIn_eq_none {reply : Except Failure α} :
    failureIn reply = none ↔ ∃ value, reply = .ok value := by
  cases reply <;> simp [failureIn]

/-- The failure in a reply. The clock, the length of the queue and properties have none. -/
def Request.failure? : (request : Request) → request.Reply → Option Failure
  | .activeRecord _, reply => failureIn reply
  | .updateActiveRecord _ _, reply => failureIn reply
  | .addAlias _ _, reply => failureIn reply
  | .standardFields, reply => failureIn reply
  | .activeCount, reply => failureIn reply
  | .hasPending _, reply => failureIn reply
  | .pendingRecord _, reply => failureIn reply
  | .updatePending _ _, reply => failureIn reply
  | .insertIfAbsent _ _, reply => failureIn reply
  | .takePending _, reply => failureIn reply
  | .pendingNames, reply => failureIn reply
  | .startWorkflow _, reply => failureIn reply
  | .property _, _ | .queueLength, _ | .readClock, _ => none

namespace World

/-- Why a request fails in a world, if it does. -/
def fault? (surroundings : Surroundings) (world : World) (request : Request) : Option Failure :=
  match (surroundings.outage request).filter fun failure => (request.refusal failure).isSome with
  | some failure => some failure
  | none => request.failure? (world.answer surroundings.clock request).1

theorem respond_of_fault?_eq_none {surroundings : Surroundings} {world : World} {request : Request}
    (fine : world.fault? surroundings request = none) :
    world.respond surroundings request = world.answer surroundings.clock request ∧
      request.failure? (world.answer surroundings.clock request).1 = none := by
  unfold fault? at fine
  unfold respond
  cases out : surroundings.outage request with
  | none => exact ⟨rfl, by simpa [out] using fine⟩
  | some failure => cases refused : request.refusal failure <;> simp_all [Option.filter]

end World

namespace Program

/-- What fails while a program runs alone. -/
def faults (surroundings : Surroundings) : Program α → World → List Failure
  | .done _, _ => []
  | .ask request next, world =>
    let (reply, after) := world.respond surroundings request
    (world.fault? surroundings request).toList ++ (next reply).faults surroundings after

theorem faults_bind (surroundings : Surroundings) (program : Program α) (next : α → Program β)
    (world : World) :
    (program.bind next).faults surroundings world =
      program.faults surroundings world ++
        (next (program.run surroundings world).1).faults surroundings
          (program.run surroundings world).2 := by
  induction program generalizing world with
  | done value => rfl
  | ask asked rest ih => simp only [bind, faults, run_ask, ih, List.append_assoc]

def Completes (surroundings : Surroundings) (program : Program α) (world : World) (value : α)
    (after : World) : Prop :=
  program.run surroundings world = (value, after) ∧ program.faults surroundings world = []

variable {surroundings : Surroundings} {world after : World} {value : α}

@[simp] theorem completes_done {result : α} :
    (done result).Completes surroundings world value after ↔ value = result ∧ after = world := by
  simp [Completes, faults, eq_comm]

theorem completes_ask {asked : Request} {next : asked.Reply → Program α} :
    (ask asked next).Completes surroundings world value after ↔
      world.fault? surroundings asked = none ∧
        (next (world.answer surroundings.clock asked).1).Completes surroundings
          (world.answer surroundings.clock asked).2 value after := by
  simp only [Completes, faults, run_ask, List.append_eq_nil_iff, Option.toList_eq_nil_iff]
  constructor
  · rintro ⟨ran, fine, steady⟩
    rw [(World.respond_of_fault?_eq_none fine).1] at ran steady
    exact ⟨fine, ran, steady⟩
  · rintro ⟨fine, ran, steady⟩
    rw [(World.respond_of_fault?_eq_none fine).1]
    exact ⟨ran, fine, steady⟩

theorem completes_bind {program : Program α} {next : α → Program β} {final : β} :
    (program.bind next).Completes surroundings world final after ↔
      ∃ value middle, program.Completes surroundings world value middle ∧
        (next value).Completes surroundings middle final after := by
  simp only [Completes, run_bind, faults_bind, List.append_eq_nil_iff]
  constructor
  · rintro ⟨ran, first, rest⟩
    exact ⟨_, _, ⟨rfl, first⟩, ran, rest⟩
  · rintro ⟨value, middle, ⟨ran, first⟩, last, rest⟩
    rw [ran]
    exact ⟨last, first, rest⟩

theorem Completes.request {asked : Request} {reply : asked.Reply}
    (completed : (Program.request asked).Completes surroundings world reply after) :
    asked.failure? reply = none ∧ reply = (world.answer surroundings.clock asked).1 ∧
      after = (world.answer surroundings.clock asked).2 := by
  obtain ⟨fine, rest⟩ := completes_ask.mp completed
  obtain ⟨rfl, rfl⟩ := completes_done.mp rest
  exact ⟨(World.respond_of_fault?_eq_none fine).2, rfl, rfl⟩

end Program

namespace Attempt

def Completes (surroundings : Surroundings) (attempt : Attempt α) (world : World)
    (result : Except AdmissionError α) (after : World) : Prop :=
  Program.Completes surroundings (ExceptT.run attempt) world result after

variable {surroundings : Surroundings} {world after : World} {result : Except AdmissionError α}

@[simp] theorem completes_pure {value : α} :
    (pure value : Attempt α).Completes surroundings world result after ↔
      result = .ok value ∧ after = world :=
  Program.completes_done

@[simp] theorem completes_ofExcept {given : Except AdmissionError α} :
    (ofExcept given).Completes surroundings world result after ↔ result = given ∧ after = world :=
  Program.completes_done

theorem completes_bind {attempt : Attempt α} {next : α → Attempt β}
    {result : Except AdmissionError β} :
    (attempt >>= next).Completes surroundings world result after ↔
      (∃ e, attempt.Completes surroundings world (.error e) after ∧ result = .error e) ∨
      ∃ value middle, attempt.Completes surroundings world (.ok value) middle ∧
        (next value).Completes surroundings middle result after := by
  refine Program.completes_bind.trans ⟨?_, ?_⟩
  · rintro ⟨value, middle, first, rest⟩
    cases value with
    | error e =>
      obtain ⟨rfl, rfl⟩ := Program.completes_done.mp rest
      exact .inl ⟨e, first, rfl⟩
    | ok value => exact .inr ⟨value, middle, first, rest⟩
  · rintro (⟨e, first, rfl⟩ | ⟨value, middle, first, rest⟩)
    · exact ⟨_, _, first, Program.completes_done.mpr ⟨rfl, rfl⟩⟩
    · exact ⟨_, _, first, rest⟩

theorem completes_lift {program : Program α} :
    (ExceptT.lift program : Attempt α).Completes surroundings world result after ↔
      ∃ value, program.Completes surroundings world value after ∧ result = .ok value := by
  refine Program.completes_bind.trans ⟨?_, ?_⟩
  · rintro ⟨value, middle, first, rest⟩
    obtain ⟨rfl, rfl⟩ := Program.completes_done.mp rest
    exact ⟨value, first, rfl⟩
  · rintro ⟨value, first, rfl⟩
    exact ⟨value, after, first, Program.completes_done.mpr ⟨rfl, rfl⟩⟩

theorem completes_await {wrap : Failure → AdmissionError} {program : Program (Except Failure α)} :
    (await wrap program).Completes surroundings world result after ↔
      ∃ reply, program.Completes surroundings world reply after ∧ result = reply.mapError wrap := by
  refine Program.completes_bind.trans ⟨?_, ?_⟩
  · rintro ⟨reply, middle, first, rest⟩
    cases reply <;> obtain ⟨rfl, rfl⟩ := Program.completes_done.mp rest <;> exact ⟨_, first, rfl⟩
  · rintro ⟨reply, first, rfl⟩
    refine ⟨reply, after, first, ?_⟩
    cases reply <;> exact Program.completes_done.mpr ⟨rfl, rfl⟩

/-! Each request to a collaborator, when it does not fail. -/

variable {wrap : Failure → AdmissionError}

theorem Completes.activeRecord {pv : String} {result : Except AdmissionError (Option ActiveRecord)}
    (completed : (await wrap (Program.request (.activeRecord pv))).Completes surroundings world
      result after) :
    ∃ found, world.store.activeRecord pv = .ok found ∧ result = .ok found ∧ after = world := by
  obtain ⟨reply, asked, rfl⟩ := completes_await.mp completed
  obtain ⟨fine, same, rfl⟩ := asked.request
  obtain ⟨found, rfl⟩ := failureIn_eq_none.mp fine
  exact ⟨found, same.symm, rfl, rfl⟩

theorem Completes.updateActiveRecord {pv : String} {record : ActiveRecord}
    {result : Except AdmissionError Unit}
    (completed : (await wrap (Program.request (.updateActiveRecord pv record))).Completes surroundings
      world result after) :
    ∃ store, world.store.updateActiveRecord pv record = (.ok (), store) ∧ result = .ok () ∧
      after = { world with store } := by
  obtain ⟨reply, asked, rfl⟩ := completes_await.mp completed
  obtain ⟨fine, same, rfl⟩ := asked.request
  obtain ⟨_, rfl⟩ := failureIn_eq_none.mp fine
  exact ⟨_, Prod.ext same.symm rfl, rfl, rfl⟩

theorem Completes.addAlias {name pv : String} {result : Except AdmissionError Unit}
    (completed : (await wrap (Program.request (.addAlias name pv))).Completes surroundings world result
      after) :
    ∃ store, world.store.addAlias name pv = (.ok (), store) ∧ result = .ok () ∧
      after = { world with store } := by
  obtain ⟨reply, asked, rfl⟩ := completes_await.mp completed
  obtain ⟨fine, same, rfl⟩ := asked.request
  obtain ⟨_, rfl⟩ := failureIn_eq_none.mp fine
  exact ⟨_, Prod.ext same.symm rfl, rfl, rfl⟩

theorem Completes.updatePending {key : String} {edits : List PendingEdit}
    {result : Except AdmissionError (Option (PendingRecord × List Bool))}
    (completed : (await wrap (Program.request (.updatePending key edits))).Completes surroundings world
      result after) :
    result = .ok (world.updatePending key edits).1 ∧ after = (world.updatePending key edits).2 := by
  obtain ⟨reply, asked, rfl⟩ := completes_await.mp completed
  obtain ⟨-, rfl, rfl⟩ := asked.request
  exact ⟨rfl, rfl⟩

theorem Completes.insertIfAbsent {key : String} {record : PendingRecord}
    {result : Except AdmissionError Bool}
    (completed : (await wrap (Program.request (.insertIfAbsent key record))).Completes surroundings world
      result after) :
    result = .ok (world.insertIfAbsent key record).1 ∧ after = (world.insertIfAbsent key record).2 := by
  obtain ⟨reply, asked, rfl⟩ := completes_await.mp completed
  obtain ⟨-, rfl, rfl⟩ := asked.request
  exact ⟨rfl, rfl⟩

theorem Completes.startWorkflow {pv : String} {result : Except AdmissionError Unit}
    (completed : (await wrap (Program.request (.startWorkflow pv))).Completes surroundings world result
      after) :
    world.engine.running = true ∧ result = .ok () ∧
      after = { world with engine := (world.engine.start pv).2 } := by
  obtain ⟨reply, asked, rfl⟩ := completes_await.mp completed
  obtain ⟨fine, same, rfl⟩ := asked.request
  obtain ⟨_, rfl⟩ := failureIn_eq_none.mp fine
  refine ⟨?_, rfl, rfl⟩
  cases running : world.engine.running with
  | true => rfl
  | false => simp [World.answer, World.startWorkflow, Engine.start, running] at same

end Attempt
end ArchiveIntake
