import ArchiveIntake.Proofs.Outage
import ArchiveIntake.Proofs.Promotion

/-! Promotions that fail. A promotion takes the request out of the queue before it writes
the record, and it writes the record before it registers the aliases. Nothing is put back,
so how far it came decides what is still known of the request. -/

namespace ArchiveIntake

variable {surroundings : Surroundings} {world after : World} {key pv : String}

/-- Aliases are registered in order, up to the first that cannot be. -/
theorem registerAliases_course {names : List String} {result : Except Failure Unit}
    (ran : (registerAliases pv names).run surroundings world = (result, after)) :
    ∃ registered store, after = { world with store } ∧
      RecordMerge pv [] registered world.store store ∧
      (∀ name, store.resolveAlias name =
        if name ∈ registered then .ok (some pv) else world.store.resolveAlias name) ∧
      (result = .ok () ∧ registered = names ∨
        ∃ lost rest failure, result = .error failure ∧ names = registered ++ lost :: rest ∧
          World.fault? surroundings { world with store } (.addAlias lost pv) = some failure) := by
  induction names generalizing world with
  | nil =>
    cases ran
    exact ⟨[], after.store, rfl, .refl pv _, by simp, .inl ⟨rfl, rfl⟩⟩
  | cons name rest ih =>
    rw [registerAliases, Program.run_ask] at ran
    have reads : (Request.addAlias name pv).Reads id := ⟨fun _ => rfl, fun _ => rfl⟩
    rcases World.respond_cases reads with ⟨failure, fault, refused, same⟩ | ⟨_, answered, written⟩
    · have refused : (world.respond surroundings (.addAlias name pv)).1 = .error failure := refused
      rw [refused, same] at ran
      cases ran
      exact ⟨[], after.store, rfl, .refl pv _, by simp, .inr ⟨name, rest, failure, rfl, rfl, fault⟩⟩
    · have written : (world.answer surroundings.clock (.addAlias name pv)).1 = .ok () := written
      rw [answered, written] at ran
      have added : world.store.addAlias name pv = (.ok (), (world.store.addAlias name pv).2) :=
        Prod.ext written rfl
      obtain ⟨registered, store, rfl, merge, index, ended⟩ := ih ran
      refine ⟨name :: registered, store, rfl, (RecordMerge.of_addAlias added).trans merge, ?_, ?_⟩
      · intro other
        have indexed := ConfigStore.resolveAlias_addAlias added other
        simp only [index, World.answer, World.withStore, indexed, List.mem_cons]
        by_cases here : other = name <;> by_cases later : other ∈ registered <;> simp [here, later]
      · rcases ended with ⟨rfl, rfl⟩ | ⟨lost, others, failure, rfl, rfl, fault⟩
        · exact .inl ⟨rfl, rfl⟩
        · exact .inr ⟨lost, others, failure, rfl, rfl, fault⟩

/-- The worlds that a promotion can leave when it fails. -/
inductive Interruption (surroundings : Surroundings) (key pv : String) (world : World) : World → Prop
  | untaken (failure : Failure)
      (failed : world.fault? surroundings (.takePending key) = some failure) :
      Interruption surroundings key pv world world
  /-- The record could not be written. The request is gone. -/
  | unwritten (pending : PendingRecord) (failure : Failure) (found : world.queue[key]? = some pending)
      (failed : World.fault? surroundings
        { world with queue := world.queue.erase key, readings := world.readings + 1 }
        (.updateActiveRecord pv { ActiveRecord.new pv (surroundings.clock world.readings) with
          archivedFields := pending.requestedFields }) = some failure) :
      Interruption surroundings key pv world
        { world with queue := world.queue.erase key, readings := world.readings + 1 }
  /-- The record has the fields, and the aliases before the one that could not be registered. -/
  | unregistered (pending : PendingRecord) (registered rest : List String) (lost : String)
      (store : ConfigStore) (failure : Failure) (found : world.queue[key]? = some pending)
      (aliases : pending.aliases = registered ++ lost :: rest)
      (promoted : Promoted pv { pending with aliases := registered } world.store store)
      (index : ∀ name, store.resolveAlias name =
        if name ∈ registered then .ok (some pv) else world.store.resolveAlias name)
      (failed : World.fault? surroundings
        { world with store, queue := world.queue.erase key, readings := world.readings + 1 }
        (.addAlias lost pv) = some failure) :
      Interruption surroundings key pv world
        { world with store, queue := world.queue.erase key, readings := world.readings + 1 }

private theorem registerTaken_course {pending : PendingRecord} {now : Time} {middle : ConfigStore}
    {failure : Failure} (found : world.queue[key]? = some pending)
    (written : world.store.updateActiveRecord pv
      { ActiveRecord.new pv now with archivedFields := pending.requestedFields } = (.ok (), middle))
    (ran : ((registerAliases pv pending.aliases).bind fun
        | .error failure => .done (.error failure)
        | .ok () => .done (.ok true) : Program (Except Failure Bool)).run surroundings
      { world with store := middle, queue := world.queue.erase key, readings := world.readings + 1 } =
        (.error failure, after)) :
    Interruption surroundings key pv world after := by
  rw [Program.run_bind] at ran
  cases loop : (registerAliases pv pending.aliases).run surroundings
    { world with store := middle, queue := world.queue.erase key, readings := world.readings + 1 } with
  | mk reply final =>
    rw [loop] at ran
    obtain ⟨registered, store, rfl, merge, index, ended⟩ := registerAliases_course loop
    rcases ended with ⟨rfl, rfl⟩ | ⟨lost, rest, reason, rfl, aliases, fault⟩
    · cases ran
    · cases ran
      refine .unregistered pending registered rest lost store _ found aliases
        (.of_steps written merge) ?_ fault
      intro name
      rw [index, ConfigStore.resolveAlias_updateActiveRecord written]

theorem promote_interruption {failure : Failure}
    (ran : (promote key pv).run surroundings world = (.error failure, after)) :
    Interruption surroundings key pv world after := by
  rw [promote, Program.run_ask] at ran
  have taking : (Request.takePending key).Reads id := ⟨fun _ => rfl, fun _ => rfl⟩
  rcases World.respond_cases taking with ⟨reason, fault, refused, same⟩ | ⟨_, answered, _⟩
  · have refused : (world.respond surroundings (.takePending key)).1 = .error reason := refused
    rw [refused, same] at ran
    cases ran
    exact .untaken _ fault
  rw [answered] at ran
  cases queued : world.queue[key]? with
  | none =>
    simp only [World.answer, World.takePending, queued, Program.run_done] at ran
    cases ran
  | some pending =>
    simp only [World.answer, World.takePending, queued] at ran
    rw [Program.run_ask, World.respond_readClock, Program.run_ask] at ran
    have writing (record : ActiveRecord) : (Request.updateActiveRecord pv record).Reads id :=
      ⟨fun _ => rfl, fun _ => rfl⟩
    rcases World.respond_cases (writing _) with ⟨_, fault, refused, same⟩ | ⟨_, answered, written⟩
    · rw [same] at ran
      simp only [id] at refused
      rw [refused] at ran
      cases ran
      exact .unwritten pending _ queued fault
    · rw [answered] at ran
      simp only [id] at written
      rw [written] at ran
      exact registerTaken_course queued (Prod.ext written rfl) ran

theorem confirmStarted_interruption {e : AdmissionError}
    (ran : (confirmStarted pv).run surroundings world = (.error e, after)) :
    Interruption surroundings (Name.queueKey pv) pv world after := by
  rw [confirmStarted, Attempt.collaborate, Attempt.run_await] at ran
  cases promoted : (promote (Name.queueKey pv) pv).run surroundings world with
  | mk reply final =>
    rw [promoted] at ran
    cases reply with
    | ok moved => cases ran
    | error failure =>
      cases ran
      exact promote_interruption promoted

/-- A promotion that fails has either not begun, and then nothing has changed; or it could not
write the active record, and then the request is lost; or it could not register an alias, and
then the active record has every field and the aliases that come before that one. Started by
its key or by the engine's report, it leaves no other world. -/
theorem failed_promotion_interrupted (surroundings : Surroundings) (world after : World)
    (key pv : String) :
    (∀ failure, (promote key pv).run surroundings world = (.error failure, after) →
      Interruption surroundings key pv world after) ∧
    ∀ e, (confirmStarted pv).run surroundings world = (.error e, after) →
      Interruption surroundings (Name.queueKey pv) pv world after :=
  ⟨fun _ ran => promote_interruption ran, fun _ ran => confirmStarted_interruption ran⟩

/-- Of two aliases the second cannot be registered, by either way to promote. -/
theorem failed_promotion_interrupted_between_aliases :
    let pending : PendingRecord := ⟨.monitor, AdmissionConfig.default.defaultPeriod, none, none,
      false, .ofList ["HIHI"], ["A", "B"]⟩
    let start : World := { World.fresh (.memoryOf .default) .noting with
      queue := (∅ : Table PendingRecord).insert "SRC" pending }
    let surroundings := Surroundings.withOutages ["add_alias:B"] fun _ => 7
    let promoted := (promote "SRC" "SRC").run surroundings start
    let confirmed := (confirmStarted "SRC").run surroundings start
    promoted.1 = .error (.outage "add_alias:B") ∧
      confirmed.1 = .error (.collaborator (.outage "add_alias:B")) ∧
      Interruption surroundings "SRC" "SRC" start promoted.2 ∧
      Interruption surroundings "SRC" "SRC" start confirmed.2 :=
  ⟨rfl, rfl, (failed_promotion_interrupted _ _ _ _ _).1 (.outage "add_alias:B") rfl,
    (failed_promotion_interrupted _ _ _ "SRC" "SRC").2 (.collaborator (.outage "add_alias:B")) rfl⟩

/-- A request whose record cannot be written is neither queued nor active afterwards. -/
theorem unwritten_request_is_lost :
    let pending : PendingRecord := ⟨.monitor, AdmissionConfig.default.defaultPeriod, none, none,
      false, .ofList ["HIHI"], ["A"]⟩
    let start : World := { World.fresh (.memoryOf .default) .noting with
      queue := (∅ : Table PendingRecord).insert "SRC" pending }
    ∃ after, (confirmStarted "SRC").run (.withOutages ["update_active_record"] fun _ => 7) start =
        (.error (.collaborator (.outage "update_active_record")), after) ∧
      "SRC" ∈ start.queue ∧ "SRC" ∉ after.queue ∧ after.store.activeRecord "SRC" = .ok none :=
  ⟨_, rfl, by decide +kernel, by decide +kernel, rfl⟩

end ArchiveIntake
