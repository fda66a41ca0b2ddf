import ArchiveIntake.Proofs.Likeness
import ArchiveIntake.Proofs.Session

/-! Histories: calls of clients among changes of the configuration, and what can be seen after
every step. A history over a store in memory and the same history over a database show the
same. Times that a database cannot keep show the same once they are cut to what it keeps. -/

namespace ArchiveIntake

/-- A step of a history. A call asks the collaborators; the other steps go to the store itself. -/
inductive Action where
  | call (operation : Operation)
  | setProperty (key value : String)
  | insertActive (record : ActiveRecord)

inductive Answered where
  | call (performed : Performed)
  | change (result : Except Failure Unit)

/-- What can be seen after a step. -/
structure Glimpse where
  answered : Answered
  queue : Table PendingRecord
  engine : Engine
  activeRecord : String → Except Failure (Option ActiveRecord)
  resolveAlias : String → Except Failure (Option String)
  activeCount : Except Failure Nat
  catalog : Catalog

def Glimpse.of (answered : Answered) (world : World) : Glimpse where
  answered := answered
  queue := world.queue
  engine := world.engine
  activeRecord := world.store.activeRecord
  resolveAlias := world.store.resolveAlias
  activeCount := world.store.activeCount
  catalog := world.catalog

section Histories
variable (defaultPeriod : Single) (surroundings : Surroundings)

def Action.step (world : World) : Action → Answered × World
  | .call operation =>
    let (answer, after) := (operation.program defaultPeriod).run surroundings world
    (.call ⟨operation, answer⟩, after)
  | .setProperty key value =>
    let (result, after) := world.withStore (world.store.setProperty key value)
    (.change result, after)
  | .insertActive record =>
    let (result, after) := world.withStore (world.store.updateActiveRecord record.pvName record)
    (.change result, after)

def history (world : World) : List Action → List Glimpse
  | [] => []
  | action :: rest =>
    let (answered, after) := action.step defaultPeriod surroundings world
    .of answered after :: history after rest

end Histories

/-! The times in what can be seen, each replaced by another. -/

section Times
variable (f : Time → Time)

def ActiveRecord.mapTime (record : ActiveRecord) : ActiveRecord :=
  { record with modificationTime := f record.modificationTime }

def Admission.mapTime : Admission → Admission
  | .alreadyActive record => .alreadyActive (record.mapTime f)
  | admission => admission

def Performed.mapTime : Performed → Performed
  | ⟨.check name aliasName, answer⟩ =>
    ⟨.check name aliasName, Except.map (Admission.mapTime f) answer⟩
  | ⟨.status raw, answer⟩ => ⟨.status raw, Except.map (Admission.mapTime f) answer⟩
  | performed => performed

def Answered.mapTime : Answered → Answered
  | .call performed => .call (performed.mapTime f)
  | .change result => .change result

def Glimpse.mapTime (glimpse : Glimpse) : Glimpse :=
  { glimpse with
    answered := glimpse.answered.mapTime f
    activeRecord := fun pv => (glimpse.activeRecord pv).map (Option.map (ActiveRecord.mapTime f)) }

theorem Admission.mapTime_id : Admission.mapTime id = id := by
  funext admission
  cases admission <;> rfl

theorem Glimpse.mapTime_id (glimpse : Glimpse) : glimpse.mapTime id = glimpse := by
  have records : ActiveRecord.mapTime id = id := rfl
  have admissions (answer : Except AdmissionError Admission) :
      Except.map (Admission.mapTime id) answer = answer := by
    rw [Admission.mapTime_id]
    cases answer <;> rfl
  have answers : glimpse.answered.mapTime id = glimpse.answered := by
    cases glimpse.answered with
    | change result => rfl
    | call performed =>
      obtain ⟨operation, answer⟩ := performed
      cases operation with
      | check name aliasName | status raw =>
        simp only [Answered.mapTime, Performed.mapTime, admissions]
      | _ => rfl
  have active : (fun pv => (glimpse.activeRecord pv).map (Option.map (ActiveRecord.mapTime id))) =
      glimpse.activeRecord := by
    funext pv
    rw [records]
    rcases glimpse.activeRecord pv with failure | _ | record <;> rfl
  unfold Glimpse.mapTime
  rw [answers, active]

end Times

section Alike
variable {same : Time → Time → Prop} {f : Time → Time}

/-- Times that may differ are replaced by the same time. -/
def Identifies (f : Time → Time) (same : Time → Time → Prop) : Prop :=
  ∀ time other, same time other → f time = f other

theorem AlikeRecord.mapTime_eq (identifies : Identifies f same) {record likeness : ActiveRecord}
    (alike : AlikeRecord same record likeness) : record.mapTime f = likeness.mapTime f := by
  unfold ActiveRecord.mapTime
  rw [alike.pvName, alike.archivedFields, alike.aliases, identifies _ _ alike.modificationTime]

theorem AlikeAdmission.mapTime_eq (identifies : Identifies f same) {admission other : Admission}
    (alike : AlikeAdmission same admission other) : admission.mapTime f = other.mapTime f := by
  cases alike with
  | active record likeness alike =>
    simp only [Admission.mapTime, alike.mapTime_eq identifies]
  | pending record | unknown => rfl

theorem Operation.program_alike (identifies : Identifies f same) (defaultPeriod : Single)
    (operation : Operation) :
    Program.Alike same (fun answer other =>
        (Performed.mk operation answer).mapTime f = (Performed.mk operation other).mapTime f)
      (operation.program defaultPeriod) (operation.program defaultPeriod) := by
  cases operation with
  | archivePlain request =>
    exact (archivePlain_alike same defaultPeriod request).mono fun _ _ answers => by rw [answers.eq]
  | archiveStructured body =>
    exact (archiveStructured_alike same defaultPeriod body).mono fun _ _ answers => by rw [answers.eq]
  | archiveBatch specs =>
    exact (archiveBatch_alike same defaultPeriod specs).mono fun _ _ answers => by rw [answers.eq]
  | archivePv catalog spec =>
    exact (archivePv_alike same defaultPeriod catalog spec).mono fun _ _ answers => by rw [answers.eq]
  | submit name policy aliasName =>
    exact (submit_alike same name policy aliasName).mono fun _ _ answers => by rw [answers.eq]
  | confirmStarted pv => exact (confirmStarted_alike same pv).mono fun _ _ answers => by rw [answers.eq]
  | promote key pv => exact (promote_alike same key pv).mono fun _ _ answers => by rw [answers]
  | check name aliasName =>
    refine (Admission.check_alike same name aliasName).mono fun _ _ answers => ?_
    simp only [Performed.mapTime, answers.map_eq fun _ _ alike => alike.mapTime_eq identifies]
  | status raw =>
    refine (status_alike same raw).mono fun _ _ answers => ?_
    simp only [Performed.mapTime, answers.map_eq fun _ _ alike => alike.mapTime_eq identifies]

/-- Whether a record that is inserted has a time that may stand beside itself. -/
def Action.Agrees (same : Time → Time → Prop) (action : Action) : Prop :=
  ∀ record, action = .insertActive record → same record.modificationTime record.modificationTime

variable {surroundings : Surroundings} {world other : World} (defaultPeriod : Single)

theorem Action.step_alike (identifies : Identifies f same) (agreement : TimeAgreement same surroundings)
    (mirrored : world.Mirrored same other) {action : Action} (agrees : action.Agrees same) :
    (action.step defaultPeriod surroundings world).1.mapTime f =
        (action.step defaultPeriod surroundings other).1.mapTime f ∧
      World.Mirrored same (action.step defaultPeriod surroundings world).2
        (action.step defaultPeriod surroundings other).2 := by
  cases action with
  | call operation =>
    obtain ⟨answers, mirrored⟩ := (Operation.program_alike identifies defaultPeriod operation).run
      agreement mirrored
    exact ⟨congrArg Answered.call answers, mirrored⟩
  | setProperty key value =>
    obtain ⟨store, others, queue, engine, readings, stores⟩ := mirrored
    obtain ⟨answers, stores⟩ := stores.setProperty key value
    exact ⟨congrArg Answered.change answers, .intro _ _ _ _ _ stores⟩
  | insertActive record =>
    obtain ⟨store, others, queue, engine, readings, stores⟩ := mirrored
    have timed := agrees record rfl
    have alike : AlikeRecord same record record := ⟨rfl, rfl, rfl, timed⟩
    obtain ⟨answers, stores⟩ := stores.updateActiveRecord alike rfl (agreement.stored _ _ timed)
    exact ⟨congrArg Answered.change answers, .intro _ _ _ _ _ stores⟩

omit defaultPeriod in
theorem World.Mirrored.glimpse (identifies : Identifies f same) (mirrored : world.Mirrored same other)
    {answered answered' : Answered} (answers : answered.mapTime f = answered'.mapTime f) :
    (Glimpse.of answered world).mapTime f = (Glimpse.of answered' other).mapTime f := by
  obtain ⟨store, others, queue, engine, readings, stores⟩ := mirrored
  have active (pv : String) : (store.activeRecord pv).map (Option.map (ActiveRecord.mapTime f)) =
      (others.activeRecord pv).map (Option.map (ActiveRecord.mapTime f)) := by
    apply (stores.activeRecord pv).map_eq
    intro found likeness alike
    cases alike with
    | absent => rfl
    | present record likeness named alike => simp only [Option.map_some, alike.mapTime_eq identifies]
  have catalog : World.catalog ⟨store, queue, engine, readings⟩ =
      World.catalog ⟨others, queue, engine, readings⟩ := by
    have fields := stores.standardFields
    unfold World.catalog
    generalize store.standardFields = listed, others.standardFields = listed' at fields
    cases fields with
    | ok fields listed alike => exact alike
    | error failure => rfl
  simp only [Glimpse.mapTime, Glimpse.of, answers, active, catalog, stores.activeCount,
    funext stores.resolveAlias]

/-- By induction on the steps: every step is answered alike and keeps the worlds mirrored. -/
theorem history_alike (identifies : Identifies f same) (agreement : TimeAgreement same surroundings)
    (mirrored : world.Mirrored same other) {actions : List Action}
    (agrees : ∀ action ∈ actions, action.Agrees same) :
    (history defaultPeriod surroundings world actions).map (Glimpse.mapTime f) =
      (history defaultPeriod surroundings other actions).map (Glimpse.mapTime f) := by
  induction actions generalizing world other with
  | nil => rfl
  | cons action rest ih =>
    have ⟨first, others⟩ := List.forall_mem_cons.mp agrees
    obtain ⟨answers, mirrored⟩ := action.step_alike defaultPeriod identifies agreement mirrored first
    simp only [history, List.map_cons, mirrored.glimpse identifies answers, ih mirrored others]

end Alike

/-! The two ways to compare times: exactly, as far as a database keeps them, or as it keeps them. -/

namespace DatabaseStore

/-- A time that a database keeps as it is. -/
def Storable (time : Time) : Prop := 0 ≤ time ∧ time ≤ maxTime

theorem storedTime_of_storable {time : Time} (storable : Storable time) : storedTime time = time := by
  obtain ⟨since, before⟩ := storable
  have fits : time.toNat ≤ maxTime := Int.toNat_le.mpr before
  unfold storedTime
  rw [Nat.min_eq_left fits, Int.toNat_of_nonneg since]

theorem storedTime_storedTime (time : Time) : storedTime (storedTime time) = storedTime time := by
  unfold storedTime
  rw [Int.toNat_natCast, Nat.min_assoc, Nat.min_self]

end DatabaseStore

open DatabaseStore

theorem TimeAgreement.exact {surroundings : Surroundings}
    (clock : ∀ reading, Storable (surroundings.clock reading)) :
    TimeAgreement (fun time other => time = other ∧ Storable time) surroundings := by
  refine ⟨fun reading => ⟨rfl, clock reading⟩, ?_, ?_⟩
  · intro time other agree
    obtain ⟨rfl, storable⟩ := agree
    exact ⟨(storedTime_of_storable storable).symm, storable⟩
  · intro pv record other alike
    have same : record.mapTime id = other.mapTime id := alike.mapTime_eq fun _ _ agree => agree.1
    have equal : record = other := same
    rw [equal]

theorem TimeAgreement.asStored {surroundings : Surroundings} (calm : surroundings.FaultFree) :
    TimeAgreement (fun time other => storedTime time = storedTime other) surroundings := by
  refine ⟨fun _ => rfl, ?_, ?_⟩
  · intro time other agree
    rw [storedTime_storedTime, agree]
  · intro pv record other _
    rw [calm, calm]

/-- A history over a store in memory and the same history over a database, both made from one
configuration and with the same clock, show the same at every step: the answer, the queue, the
engine, the active records, the aliases, the count and the catalog. Times that a database cannot
keep are no part of this; whatever they are, the two show the same as far as it keeps them. -/
theorem history_memoryOf_eq_databaseOf (defaultPeriod : Single) (surroundings : Surroundings)
    (config : AdmissionConfig) (world : World) (actions : List Action) :
    let inMemory := history defaultPeriod surroundings { world with store := .memoryOf config } actions
    let inDatabase :=
      history defaultPeriod surroundings { world with store := .databaseOf config } actions
    ((∀ reading, Storable (surroundings.clock reading)) →
      (∀ record, .insertActive record ∈ actions → Storable record.modificationTime) →
        inMemory = inDatabase) ∧
      (surroundings.FaultFree →
        inMemory.map (Glimpse.mapTime fun time => storedTime time) =
          inDatabase.map (Glimpse.mapTime fun time => storedTime time)) := by
  intro inMemory inDatabase
  have mirrored (same : Time → Time → Prop) : World.Mirrored same
      { world with store := .memoryOf config } { world with store := .databaseOf config } :=
    .intro _ _ _ _ _ (.initial same config)
  constructor
  · intro clock inserted
    have alike := history_alike defaultPeriod (f := id) (fun _ _ agree => agree.1) (.exact clock)
      (mirrored _) fun action member record same => ⟨rfl, inserted record (same ▸ member)⟩
    have exact : Glimpse.mapTime id = id := funext Glimpse.mapTime_id
    rw [exact, List.map_id, List.map_id] at alike
    exact alike
  · intro calm
    exact history_alike defaultPeriod (fun _ _ agree => congrArg Nat.cast agree) (.asStored calm)
      (mirrored _) fun _ _ _ _ => rfl

/-- A field is merged into an active record, and a new request is queued and promoted. -/
theorem history_memoryOf_eq_databaseOf_of_promotion :
    let surroundings := Surroundings.calm 7
    let start := World.fresh (.memoryOf .default) .noting
    let actions : List Action :=
      [.insertActive ⟨"SRC", .ofList ["HIHI"], .ofList ["A"], 5⟩,
        .call (.archiveBatch [{ pv := "SRC.LOLO", aliasName := some "B" }, { pv := "NEW.HIGH" }]),
        .call (.confirmStarted "NEW")]
    let inMemory := history AdmissionConfig.default.defaultPeriod surroundings
      { start with store := .memoryOf .default } actions
    let inDatabase := history AdmissionConfig.default.defaultPeriod surroundings
      { start with store := .databaseOf .default } actions
    inMemory.map (·.activeCount) = [.ok 1, .ok 1, .ok 2] ∧ inMemory = inDatabase ∧
      inMemory.map (Glimpse.mapTime fun time => storedTime time) =
        inDatabase.map (Glimpse.mapTime fun time => storedTime time) := by
  refine ⟨rfl, (history_memoryOf_eq_databaseOf _ _ _ _ _).1 ?_ ?_,
    (history_memoryOf_eq_databaseOf _ _ _ _ _).2 fun _ => rfl⟩
  · have seven : Storable 7 := ⟨by decide, by decide⟩
    exact fun _ => seven
  · intro record member
    simp only [List.mem_cons, Action.insertActive.injEq, reduceCtorEq, List.not_mem_nil, or_false] at member
    rw [member]
    exact ⟨by decide, by decide⟩

end ArchiveIntake
