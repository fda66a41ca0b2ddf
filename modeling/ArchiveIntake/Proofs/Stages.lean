import ArchiveIntake.Clients
import ArchiveIntake.Proofs.Growth

/-! The stages of an item. An item that asks one request at a time is at a stage, which says what
it asks next and all that it has to remember. What a program still has to do is put down once,
and from then on an item is a stage that moves along with the world, while others may move the
world in between. -/

namespace ArchiveIntake

/-- What an item does next, or how it has been answered. -/
inductive Stage where
  | checking
  /-- Its variable is active and lacks the field. -/
  | timing (record : ActiveRecord) (field : String)
  | writing (record : ActiveRecord)
  | registering (aliasName : String)
  /-- Its variable is not active. -/
  | merging
  /-- Nothing is queued under its base name, and it asks for a period. -/
  | reading (asked : Override)
  | inserting (policy : EffectivePolicy)
  /-- It has queued its request. -/
  | starting
  | answered (result : Except AdmissionError ArchiveStatus)

namespace Stage

def ofAlias (item : Item) : Stage :=
  match item.spec.aliasName with
  | none => .answered (.ok .alreadySubmitted)
  | some aliasName => .registering aliasName

def ofRecord (item : Item) (record : ActiveRecord) : Stage :=
  match item.name.standardField with
  | none => ofAlias item
  | some field => if record.isFieldArchived field then ofAlias item else .timing record field

def ofFloor (item : Item) (asked : Override) : Except AdmissionError Single → Stage
  | .ok floor => .inserting (.ofOverride asked floor item.spec)
  | .error e => .answered (.error e)

def ofUnknown (defaultPeriod : Single) (item : Item) : Stage :=
  match item.spec.override with
  | .ok none => .inserting (.ofDefault defaultPeriod item.spec)
  | .ok (some asked) => .reading asked
  | .error e => .answered (.error e)

def first (item : Item) : Stage :=
  match item.spec.requestedMethod, item.spec.requestedPeriod with
  | .error e, _ => .answered (.error e)
  | .ok _, .error e => .answered (.error e)
  | .ok _, .ok _ => .checking

/-- A program is what an item at a stage still has to do, as long as nothing fails. -/
inductive Runs (defaultPeriod : Single) (item : Item) :
    Stage → Program (Except AdmissionError ArchiveOutcome) → Prop
  | answered (result : Except AdmissionError ArchiveStatus) :
      Runs defaultPeriod item (.answered result) (.done (outcomeOf item.name.baseName result))
  | checking (next : Except Failure (Option ActiveRecord) → Program _)
      (active : ∀ record, Runs defaultPeriod item (ofRecord item record) (next (.ok (some record))))
      (inactive : Runs defaultPeriod item .merging (next (.ok none))) :
      Runs defaultPeriod item .checking (.ask (.activeRecord item.name.baseName) next)
  | timing (record : ActiveRecord) (field : String) (next : Time → Program _)
      (timed : ∀ now, Runs defaultPeriod item (.writing (record.withField field now)) (next now)) :
      Runs defaultPeriod item (.timing record field) (.ask .readClock next)
  | writing (record : ActiveRecord) (next : Except Failure Unit → Program _)
      (written : Runs defaultPeriod item (ofAlias item) (next (.ok ()))) :
      Runs defaultPeriod item (.writing record)
        (.ask (.updateActiveRecord item.name.baseName record) next)
  | registering (aliasName : String) (next : Except Failure Unit → Program _)
      (registered : Runs defaultPeriod item (.answered (.ok .alreadySubmitted)) (next (.ok ()))) :
      Runs defaultPeriod item (.registering aliasName)
        (.ask (.addAlias aliasName item.name.baseName) next)
  | merging (next : Except Failure (Option (PendingRecord × List Bool)) → Program _)
      (found : ∀ merged, Runs defaultPeriod item (.answered (.ok .alreadySubmitted))
        (next (.ok (some merged))))
      (absent : Runs defaultPeriod item (ofUnknown defaultPeriod item) (next (.ok none))) :
      Runs defaultPeriod item .merging
        (.ask (.updatePending item.name.baseName
          (Admission.pendingEdits item.name item.spec.aliasName)) next)
  | reading (asked : Override) (next : Option String → Program _)
      (read : ∀ property, Runs defaultPeriod item (ofFloor item asked (readMinimumPeriod property))
        (next property)) :
      Runs defaultPeriod item (.reading asked) (.ask (.property minimumPeriodProperty) next)
  | inserting (policy : EffectivePolicy) (next : Except Failure Bool → Program _)
      (inserted : Runs defaultPeriod item .starting (next (.ok true)))
      (refused : Runs defaultPeriod item (.answered (.ok .alreadySubmitted)) (next (.ok false))) :
      Runs defaultPeriod item (.inserting policy)
        (.ask (.insertIfAbsent item.name.queueKey
          (.ofRequest item.name policy item.spec.aliasName)) next)
  | starting (next : Except Failure Unit → Program _)
      (started : Runs defaultPeriod item (.answered (.ok .submitted)) (next (.ok ()))) :
      Runs defaultPeriod item .starting (.ask (.startWorkflow item.name.baseName) next)

end Stage

section Programs
variable {defaultPeriod : Single} {item : Item}

def Item.concludes (item : Item) (attempt : Attempt ArchiveStatus) :
    Program (Except AdmissionError ArchiveOutcome) :=
  (ExceptT.run attempt).bind fun result => .done (outcomeOf item.name.baseName result)

theorem Item.concludes_lift (item : Item) (asked : Request)
    (next : asked.Reply → Attempt ArchiveStatus) :
    item.concludes (ExceptT.lift (Program.request asked) >>= next) =
      .ask asked fun reply => item.concludes (next reply) := rfl

theorem Item.concludes_ofExcept (item : Item) (result : Except AdmissionError α)
    (next : α → Attempt ArchiveStatus) :
    item.concludes (Attempt.ofExcept result >>= next) =
      match result with
      | .ok value => item.concludes (next value)
      | .error e => .done (outcomeOf item.name.baseName (.error e)) := by
  cases result <;> rfl

theorem runs_ofAlias (record : ActiveRecord) :
    (Stage.ofAlias item).Runs defaultPeriod item (item.concludes do
      let _ ← Admission.mergeAlias item.name item.spec.aliasName record
      return .alreadySubmitted) := by
  unfold Stage.ofAlias
  cases item.spec.aliasName with
  | none => exact .answered _
  | some aliasName => exact .registering aliasName _ (.answered _)

theorem runs_ofRecord (record : ActiveRecord) :
    (Stage.ofRecord item record).Runs defaultPeriod item (item.concludes do
      let _ ← Admission.mergeActive item.name item.spec.aliasName record
      return .alreadySubmitted) := by
  unfold Stage.ofRecord Admission.mergeActive Admission.mergeField
  cases item.name.standardField with
  | none => exact runs_ofAlias record
  | some field =>
    by_cases archived : record.isFieldArchived field = true
    · simp only [if_pos archived]
      exact runs_ofAlias record
    · simp only [if_neg archived]
      exact .timing record field _ fun now =>
        .writing _ _ (runs_ofAlias (record.withField field now))

theorem runs_inserting (policy : EffectivePolicy) :
    (Stage.inserting policy).Runs defaultPeriod item (item.concludes do
      match ← submit item.name policy item.spec.aliasName with
      | .submitted => return .submitted
      | .alreadyQueued => return .alreadySubmitted) :=
  .inserting policy _ (.starting _ (.answered _)) (.answered _)

theorem runs_ofUnknown :
    (Stage.ofUnknown defaultPeriod item).Runs defaultPeriod item (item.concludes do
      let policy ← resolvePolicy defaultPeriod item.spec
      match ← submit item.name policy item.spec.aliasName with
      | .submitted => return .submitted
      | .alreadyQueued => return .alreadySubmitted) := by
  unfold Stage.ofUnknown resolvePolicy
  cases item.spec.override with
  | error e => exact .answered _
  | ok asked =>
    cases asked with
    | none => exact runs_inserting _
    | some asked =>
      have given : Attempt.ofExcept (.ok (some asked)) = pure (some asked) := rfl
      simp only [given, minimumPeriod, bind_assoc, pure_bind]
      rw [Item.concludes_lift]
      refine .reading asked _ fun property => ?_
      rw [Item.concludes_ofExcept]
      cases readMinimumPeriod property with
      | error e => exact .answered _
      | ok floor => exact runs_inserting _

theorem runs_first (defaultPeriod : Single) (item : Item) :
    (Stage.first item).Runs defaultPeriod item
      (ExceptT.run (archiveNamed defaultPeriod item.name item.spec)) := by
  change (Stage.first item).Runs defaultPeriod item
    (item.concludes (admitItem defaultPeriod item.name item.spec))
  unfold Stage.first admitItem
  cases item.spec.requestedMethod with
  | error e => exact .answered _
  | ok method =>
    cases item.spec.requestedPeriod with
    | error e => exact .answered _
    | ok period =>
      have valid {α : Type} (value : α) : Attempt.ofExcept (.ok value) = pure value := rfl
      simp only [valid, pure_bind, Admission.check, bind_assoc]
      refine .checking _ (fun record => ?_) (.merging _ (fun merged => .answered _) ?_)
      · change (Stage.ofRecord item record).Runs defaultPeriod item (item.concludes
          ((Admission.mergeActive item.name item.spec.aliasName record >>= fun merged =>
            (pure (.alreadyActive merged) : Attempt Admission)) >>= _))
        rw [bind_assoc]
        exact runs_ofRecord record
      · exact runs_ofUnknown

end Programs

namespace Stage

/-- What an item at a stage does to the world, when nothing fails, and the stage it comes to. -/
inductive Moves (defaultPeriod : Single) (clock : Nat → Time) (item : Item) (world : World) :
    Stage → World → Stage → Prop
  | active (record : ActiveRecord)
      (found : world.store.activeRecord item.name.baseName = .ok (some record)) :
      Moves defaultPeriod clock item world .checking world (ofRecord item record)
  | inactive (inactive : world.store.activeRecord item.name.baseName = .ok none) :
      Moves defaultPeriod clock item world .checking world .merging
  | timed (record : ActiveRecord) (field : String) :
      Moves defaultPeriod clock item world (.timing record field)
        { world with readings := world.readings + 1 }
        (.writing (record.withField field (clock world.readings)))
  | written (record : ActiveRecord) (store : ConfigStore)
      (written : world.store.updateActiveRecord item.name.baseName record = (.ok (), store)) :
      Moves defaultPeriod clock item world (.writing record) { world with store } (ofAlias item)
  | registered (aliasName : String) (store : ConfigStore)
      (written : world.store.addAlias aliasName item.name.baseName = (.ok (), store)) :
      Moves defaultPeriod clock item world (.registering aliasName) { world with store }
        (.answered (.ok .alreadySubmitted))
  | merged (record : PendingRecord) (found : world.queue[item.name.baseName]? = some record) :
      Moves defaultPeriod clock item world .merging
        { world with
          queue := world.queue.insert item.name.baseName
            (record.applyAll (Admission.pendingEdits item.name item.spec.aliasName)).1 }
        (.answered (.ok .alreadySubmitted))
  | absent (absent : world.queue[item.name.baseName]? = none) :
      Moves defaultPeriod clock item world .merging world (ofUnknown defaultPeriod item)
  | read (asked : Override) :
      Moves defaultPeriod clock item world (.reading asked) world
        (ofFloor item asked (readMinimumPeriod (world.store.property minimumPeriodProperty)))
  | refused (policy : EffectivePolicy) (taken : item.name.queueKey ∈ world.queue) :
      Moves defaultPeriod clock item world (.inserting policy) world
        (.answered (.ok .alreadySubmitted))
  | inserted (policy : EffectivePolicy) (free : item.name.queueKey ∉ world.queue) :
      Moves defaultPeriod clock item world (.inserting policy)
        { world with
          queue := world.queue.insert item.name.queueKey
            (.ofRequest item.name policy item.spec.aliasName) }
        .starting
  | started (running : world.engine.running = true) :
      Moves defaultPeriod clock item world .starting
        { world with engine := world.engine.told [item.name.baseName] } (.answered (.ok .submitted))

variable {defaultPeriod : Single} {clock : Nat → Time} {item : Item} {world after : World}
  {stage next : Stage} {program : Program (Except AdmissionError ArchiveOutcome)}

theorem moves_of_answer {request : Request} {reply : request.Reply}
    {rest : request.Reply → Program (Except AdmissionError ArchiveOutcome)}
    (answered : world.answer clock request = (reply, after)) (fine : request.failure? reply = none)
    (runs : next.Runs defaultPeriod item (rest reply)) :
    ∃ asked later, Program.ask request rest = .ask asked later ∧ (world.answer clock asked).2 = after ∧
      asked.failure? (world.answer clock asked).1 = none ∧
      next.Runs defaultPeriod item (later (world.answer clock asked).1) := by
  refine ⟨request, rest, rfl, ?_, ?_, ?_⟩
  · rw [answered]
  · rw [answered]
    exact fine
  · rw [answered]
    exact runs

/-- A program moves as its item does, and nothing fails. -/
theorem Runs.moves (runs : stage.Runs defaultPeriod item program)
    (moves : Moves defaultPeriod clock item world stage after next) :
    ∃ request rest, program = .ask request rest ∧ (world.answer clock request).2 = after ∧
      request.failure? (world.answer clock request).1 = none ∧
      next.Runs defaultPeriod item (rest (world.answer clock request).1) := by
  cases moves with
  | active record found =>
    cases runs with
    | checking rest active inactive => exact moves_of_answer (congrArg (·, world) found) rfl (active record)
  | inactive found =>
    cases runs with
    | checking rest active inactive => exact moves_of_answer (congrArg (·, world) found) rfl inactive
  | timed record field =>
    cases runs with
    | timing _ _ rest timed => exact moves_of_answer rfl rfl (timed (clock world.readings))
  | written record store written =>
    cases runs with
    | writing _ rest ended => exact moves_of_answer (congrArg world.withStore written) rfl ended
  | registered aliasName store written =>
    cases runs with
    | registering _ rest ended => exact moves_of_answer (congrArg world.withStore written) rfl ended
  | merged record queued =>
    cases runs with
    | merging rest found absent =>
      refine moves_of_answer ?_ rfl (found (record.applyAll (Admission.pendingEdits item.name item.spec.aliasName)))
      simp only [World.answer, World.updatePending, queued]
  | absent unqueued =>
    cases runs with
    | merging rest found absent =>
      refine moves_of_answer ?_ rfl absent
      simp only [World.answer, World.updatePending, unqueued]
  | read asked =>
    cases runs with
    | reading _ rest read => exact moves_of_answer rfl rfl (read (world.store.property minimumPeriodProperty))
  | refused policy taken =>
    cases runs with
    | inserting _ rest inserted refused =>
      refine moves_of_answer ?_ rfl refused
      simp only [World.answer, World.insertIfAbsent, Std.ExtTreeMap.contains_iff_mem, if_pos taken]
  | inserted policy free =>
    cases runs with
    | inserting _ rest inserted refused =>
      refine moves_of_answer ?_ rfl inserted
      simp only [World.answer, World.insertIfAbsent, Std.ExtTreeMap.contains_iff_mem, if_neg free]
  | started running =>
    cases runs with
    | starting rest ended =>
      refine moves_of_answer ?_ rfl ended
      simp only [World.answer, World.startWorkflow, Engine.start_of_running running]

theorem Runs.exists_moves {request : Request}
    {rest : request.Reply → Program (Except AdmissionError ArchiveOutcome)}
    (runs : stage.Runs defaultPeriod item (.ask request rest))
    (fine : request.failure? (world.answer clock request).1 = none) :
    ∃ after next, Moves defaultPeriod clock item world stage after next := by
  cases runs with
  | checking _ active inactive =>
    obtain ⟨found, held⟩ := failureIn_eq_none.mp fine
    cases found with
    | some record => exact ⟨_, _, .active record held⟩
    | none => exact ⟨_, _, .inactive held⟩
  | timing record field => exact ⟨_, _, .timed record field⟩
  | writing record =>
    obtain ⟨_, written⟩ := failureIn_eq_none.mp fine
    exact ⟨_, _, .written record _ (Prod.ext written rfl)⟩
  | registering aliasName =>
    obtain ⟨_, written⟩ := failureIn_eq_none.mp fine
    exact ⟨_, _, .registered aliasName _ (Prod.ext written rfl)⟩
  | merging =>
    cases found : world.queue[item.name.baseName]? with
    | some record => exact ⟨_, _, .merged record found⟩
    | none => exact ⟨_, _, .absent found⟩
  | reading asked => exact ⟨_, _, .read asked⟩
  | inserting policy =>
    by_cases taken : item.name.queueKey ∈ world.queue
    · exact ⟨_, _, .refused policy taken⟩
    · exact ⟨_, _, .inserted policy taken⟩
  | starting =>
    cases running : world.engine.running with
    | true => exact ⟨_, _, .started running⟩
    | false =>
      obtain ⟨_, started⟩ := failureIn_eq_none.mp fine
      simp [World.answer, World.startWorkflow, Engine.start, running] at started

theorem Runs.respond {surroundings : Surroundings} {request : Request}
    {rest : request.Reply → Program (Except AdmissionError ArchiveOutcome)}
    (runs : stage.Runs defaultPeriod item (.ask request rest))
    (fine : world.fault? surroundings request = none) :
    ∃ next, Moves defaultPeriod surroundings.clock item world stage
        (world.respond surroundings request).2 next ∧
      next.Runs defaultPeriod item (rest (world.respond surroundings request).1) := by
  obtain ⟨answered, fine⟩ := World.respond_of_fault?_eq_none fine
  rw [answered]
  obtain ⟨after, next, moves⟩ := runs.exists_moves fine
  obtain ⟨_, _, same, rfl, -, later⟩ := runs.moves moves
  cases same
  exact ⟨next, moves, later⟩

inductive Ends (defaultPeriod : Single) (clock : Nat → Time) (item : Item) :
    World → Stage → Except AdmissionError ArchiveStatus → World → Prop
  | answered (world : World) (result : Except AdmissionError ArchiveStatus) :
      Ends defaultPeriod clock item world (.answered result) result world
  | moves {world middle after : World} {stage next : Stage}
      {result : Except AdmissionError ArchiveStatus}
      (step : Moves defaultPeriod clock item world stage middle next)
      (rest : Ends defaultPeriod clock item middle next result after) :
      Ends defaultPeriod clock item world stage result after

theorem Ends.completes {surroundings : Surroundings} (calm : surroundings.FaultFree)
    {result : Except AdmissionError ArchiveStatus}
    (ends : Ends defaultPeriod surroundings.clock item world stage result after)
    (runs : stage.Runs defaultPeriod item program) :
    program.Completes surroundings world (outcomeOf item.name.baseName result) after := by
  induction ends generalizing program with
  | answered world result =>
    cases runs
    exact Program.completes_done.mpr ⟨rfl, rfl⟩
  | @moves world _ _ _ _ _ step rest ih =>
    obtain ⟨request, later, rfl, rfl, fine, runs⟩ := runs.moves step
    exact Program.completes_ask.mpr ⟨(calm.fault?_eq world request).trans fine, ih runs⟩

theorem Ends.archiveNamed {now : Time} {result : Except AdmissionError ArchiveStatus}
    (ends : Ends defaultPeriod (fun _ => now) item world (first item) result after) :
    (archiveNamed defaultPeriod item.name item.spec).Completes (.calm now) world
      (outcomeOf item.name.baseName result) after := by
  have calm : (Surroundings.calm now).FaultFree := fun _ => rfl
  exact Ends.completes calm ends (runs_first defaultPeriod item)

end Stage
end ArchiveIntake
