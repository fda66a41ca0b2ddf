import ArchiveIntake.Proofs.Lookup
import ArchiveIntake.Proofs.Store

/-! Runs in which requests may fail. A request that fails leaves the world as it was,
whether it was out of order or its collaborator answered with a failure: the statements of
a database that write either happen or leave no trace. What remains of a program that ends
early is therefore what its earlier requests did. -/

namespace ArchiveIntake

namespace Statement
variable {β : Type}

/-- A statement that fails leaves the database as it was. -/
def Atomic (statement : Statement α) : Prop :=
  ∀ db failure after, statement db = (.error failure, after) → after = db

theorem atomic_transaction (statement : Statement α) : statement.transaction.Atomic := by
  intro db failure after failed
  unfold transaction at failed
  split at failed
  · cases failed
  · cases failed
    rfl

theorem Atomic.query_andThen {read : DatabaseStore → Except Failure α} {write : α → Statement β}
    (atomic : ∀ value, (write value).Atomic) : ((query read).andThen write).Atomic := by
  intro db failure after failed
  unfold andThen query at failed
  cases found : read db with
  | error reason =>
    simp only [found] at failed
    cases failed
    rfl
  | ok value =>
    simp only [found] at failed
    exact atomic value db failure after failed

end Statement

namespace DatabaseStore

theorem atomic_updateActiveRecord (pv : String) (record : ActiveRecord) :
    (updateActiveRecord pv record).Atomic := by
  apply Statement.Atomic.query_andThen
  intro table db failure after failed
  cases failed

end DatabaseStore

namespace ConfigStore
variable {store after : ConfigStore} {failure : Failure} {pv : String}

private theorem ofStatement_of_error {statement : Statement α} {db : DatabaseStore}
    (atomic : statement.Atomic) (failed : ofStatement statement db = (.error failure, after)) :
    after = .database db := by
  unfold ofStatement at failed
  cases ran : statement db with
  | mk result final =>
    rw [ran] at failed
    cases failed
    rw [atomic db failure final ran]

theorem updateActiveRecord_of_error {record : ActiveRecord}
    (failed : store.updateActiveRecord pv record = (.error failure, after)) : after = store := by
  cases store with
  | memory store => cases failed
  | database db => exact ofStatement_of_error (DatabaseStore.atomic_updateActiveRecord pv record) failed

theorem addAlias_of_error {name : String} (failed : store.addAlias name pv = (.error failure, after)) :
    after = store := by
  cases store with
  | memory store => cases failed
  | database db => exact ofStatement_of_error (Statement.atomic_transaction _) failed

end ConfigStore

theorem failureIn_eq_some {reply : Except Failure α} {failure : Failure} :
    failureIn reply = some failure ↔ reply = .error failure := by
  cases reply <;> simp [failureIn]

/-- Reads the reply to a request so that it shows whether the request failed. A reply that
says whether a property is set does not show it. -/
structure Request.Reads (request : Request) (read : request.Reply → Except Failure α) : Prop where
  refused : ∀ failure, (request.refusal failure).map read = some (.error failure)
  failed : ∀ reply, request.failure? reply = failureIn (read reply)

namespace World
variable {surroundings : Surroundings} {world : World} {request : Request} {failure : Failure}

theorem answer_of_failure? (clock : Nat → Time)
    (failed : request.failure? (world.answer clock request).1 = some failure) :
    (world.answer clock request).2 = world := by
  cases request with
  | updateActiveRecord pv record =>
    cases written : world.store.updateActiveRecord pv record with
    | mk reply store =>
      simp only [answer, withStore, written, Request.failure?, failureIn] at failed ⊢
      cases reply with
      | ok _ => cases failed
      | error _ => rw [ConfigStore.updateActiveRecord_of_error written]
  | addAlias name pv =>
    cases written : world.store.addAlias name pv with
    | mk reply store =>
      simp only [answer, withStore, written, Request.failure?, failureIn] at failed ⊢
      cases reply with
      | ok _ => cases failed
      | error _ => rw [ConfigStore.addAlias_of_error written]
  | startWorkflow pv =>
    simp only [answer, startWorkflow, Engine.start, Request.failure?] at failed ⊢
    cases running : world.engine.running with
    | true =>
      simp only [running, if_true, failureIn] at failed
      cases failed
    | false => simp
  | updatePending _ _ | insertIfAbsent _ _ | takePending _ | readClock => cases failed
  | activeRecord _ | property _ | standardFields | activeCount | hasPending _ | pendingRecord _
  | pendingNames | queueLength => rfl

/-- A request that fails, for either reason, has done nothing. -/
theorem respond_of_fault? (failed : world.fault? surroundings request = some failure) :
    (world.respond surroundings request).2 = world := by
  unfold fault? at failed
  unfold respond
  cases out : surroundings.outage request with
  | none =>
    simp only [out, Option.filter_none] at failed
    exact answer_of_failure? surroundings.clock failed
  | some reason =>
    cases refused : request.refusal reason with
    | some reply => simp [refused]
    | none =>
      simp only [out, Option.filter_some, refused, Option.isSome_none, Bool.false_eq_true,
        if_false] at failed
      simpa [refused] using answer_of_failure? surroundings.clock failed

/-- A request fails and nothing happens, or it gets the answer of its collaborator. -/
theorem respond_cases {read : request.Reply → Except Failure α} (reads : request.Reads read) :
    (∃ failure, world.fault? surroundings request = some failure ∧
      read (world.respond surroundings request).1 = .error failure ∧
      (world.respond surroundings request).2 = world) ∨
    ∃ value, world.respond surroundings request = world.answer surroundings.clock request ∧
      read (world.answer surroundings.clock request).1 = .ok value := by
  cases fault : world.fault? surroundings request with
  | none =>
    obtain ⟨answered, fine⟩ := respond_of_fault?_eq_none fault
    rw [reads.failed, failureIn_eq_none] at fine
    obtain ⟨value, same⟩ := fine
    exact .inr ⟨value, answered, same⟩
  | some failure =>
    refine .inl ⟨failure, rfl, ?_, respond_of_fault? fault⟩
    unfold fault? at fault
    unfold respond
    cases out : surroundings.outage request with
    | none =>
      simp only [out, Option.filter_none] at fault
      rw [reads.failed] at fault
      exact failureIn_eq_some.mp fault
    | some reason =>
      obtain ⟨reply, refused, same⟩ := Option.map_eq_some_iff.mp (reads.refused reason)
      simp only [out, Option.filter_some, refused, Option.isSome_some, if_true] at fault
      cases fault
      simpa [refused] using same

theorem respond_readClock (surroundings : Surroundings) (world : World) :
    world.respond surroundings .readClock =
      (surroundings.clock world.readings, { world with readings := world.readings + 1 }) := by
  unfold respond
  cases surroundings.outage .readClock <;> rfl

end World

namespace Attempt
variable {surroundings : Surroundings} {world after : World}

theorem run_bind_eq {attempt : Attempt α} {next : α → Attempt β} {result : Except AdmissionError β} :
    (attempt >>= next).run surroundings world = (result, after) ↔
      (∃ e, attempt.run surroundings world = (.error e, after) ∧ result = .error e) ∨
      ∃ value middle, attempt.run surroundings world = (.ok value, middle) ∧
        (next value).run surroundings middle = (result, after) := by
  rw [run_bind]
  cases ran : attempt.run surroundings world with
  | mk first middle =>
    cases first with
    | error e =>
      constructor
      · intro same
        cases same
        exact .inl ⟨e, rfl, rfl⟩
      · intro ended
        rcases ended with ⟨_, same, rfl⟩ | ⟨_, _, same, _⟩
        · cases same
          rfl
        · cases same
    | ok value =>
      constructor
      · intro rest
        exact .inr ⟨value, middle, rfl, rest⟩
      · intro ended
        rcases ended with ⟨_, same, _⟩ | ⟨_, _, same, rest⟩
        · cases same
        · cases same
          exact rest

theorem run_request_bind {wrap : Failure → AdmissionError} (request : Request)
    (read : request.Reply → Except Failure α) (reads : request.Reads read) {next : α → Attempt β}
    {result : Except AdmissionError β}
    (ran : (await wrap (.ask request fun reply => .done (read reply)) >>= next).run surroundings world =
      (result, after)) :
    (∃ failure, world.fault? surroundings request = some failure ∧ result = .error (wrap failure) ∧
      after = world) ∨
    ∃ value, read (world.answer surroundings.clock request).1 = .ok value ∧
      (next value).run surroundings (world.answer surroundings.clock request).2 = (result, after) := by
  rw [run_bind, run_await, Program.run_ask, Program.run_done] at ran
  rcases World.respond_cases reads with ⟨failure, fault, failed, same⟩ | ⟨value, answered, found⟩
  · rw [failed, same] at ran
    cases ran
    exact .inl ⟨failure, fault, rfl, rfl⟩
  · rw [answered, found] at ran
    exact .inr ⟨value, found, ran⟩

theorem run_readClock :
    readClock.run surroundings world =
      (.ok (surroundings.clock world.readings), { world with readings := world.readings + 1 }) := by
  unfold readClock
  rw [run_lift, Program.run_request, World.respond_readClock]

end Attempt
end ArchiveIntake
