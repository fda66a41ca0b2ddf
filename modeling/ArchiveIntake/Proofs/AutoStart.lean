import ArchiveIntake.EngineTask
import ArchiveIntake.Proofs.Calm
import ArchiveIntake.Proofs.Item
import ArchiveIntake.Proofs.Promotion

/-! The service beside an engine task that confirms each name as it receives it. The two
take turns in any order: one item is processed, or one name is received and confirmed.
A name is on its way exactly as long as its request is queued. -/

namespace ArchiveIntake

inductive GatewayTurn where
  | item (catalog : Catalog) (spec : ArchiveSpec)
  | receive

namespace GatewayTurn
variable (surroundings : Surroundings) (defaultPeriod : Single)

def take (world : World) : GatewayTurn → List Received × World
  | .item catalog spec => ([], ((archivePv defaultPeriod catalog spec).run surroundings world).2)
  | .receive =>
    let (received, after) := EngineTask.step surroundings true world
    (received.toList, after)

/-- What fails in a turn. Receiving a name cannot fail, confirming it can. -/
def faults (world : World) : GatewayTurn → List Failure
  | .item catalog spec =>
    Program.faults surroundings (ExceptT.run (archivePv defaultPeriod catalog spec)) world
  | .receive =>
    match world.receive with
    | (none, _) => []
    | (some pv, after) => Program.faults surroundings (ExceptT.run (confirmStarted pv)) after

def takeAll (world : World) : List GatewayTurn → List Received × World
  | [] => ([], world)
  | turn :: rest =>
    let (received, middle) := turn.take surroundings defaultPeriod world
    let (others, after) := takeAll middle rest
    (received ++ others, after)

def allFaults (world : World) : List GatewayTurn → List Failure
  | [] => []
  | turn :: rest =>
    turn.faults surroundings defaultPeriod world ++
      allFaults (turn.take surroundings defaultPeriod world).2 rest

end GatewayTurn

/-- Since the engine had accepted only these names, every accepted name is on its way or
active, and what is on its way is what is queued. -/
structure InFlight (before : List String) (world : World) : Prop where
  connected : world.engine.hasChannel = true
  keys : ∀ key, key ∈ world.queue ↔ key ∈ world.engine.channel.map Name.queueKey
  distinct : (world.engine.channel.map Name.queueKey).Nodup
  inactive : ∀ pv ∈ world.engine.channel, world.store.activeRecord pv = .ok none
  accepted : ∃ started, world.engine.accepted = before ++ started ∧ started.Nodup ∧
    ∀ pv ∈ started, pv ∈ world.engine.channel ∨
      ∃ record, world.store.activeRecord pv = .ok (some record)

namespace InFlight
variable {before : List String} {world after : World}

theorem initial (connected : world.engine.hasChannel = true) (queue : world.queue = ∅)
    (channel : world.engine.channel = []) : InFlight world.engine.accepted world := by
  refine ⟨connected, ?_, ?_, ?_, [], ?_, ?_, ?_⟩ <;> simp [queue, channel]

theorem merged {pv : String} {fields aliases : List String} {record : ActiveRecord}
    {store : ConfigStore} {readings : Nat} (flight : InFlight before world)
    (found : world.store.activeRecord pv = .ok (some record))
    (merge : RecordMerge pv fields aliases world.store store) :
    InFlight before { world with store, readings } := by
  obtain ⟨started, since, once, tracked⟩ := flight.accepted
  refine ⟨flight.connected, flight.keys, flight.distinct, ?_, started, since, once, ?_⟩
  · intro other sent
    exact (merge.inactive_iff found other).mpr (flight.inactive other sent)
  · intro other member
    exact (tracked other member).imp id merge.active_of_active

theorem edited {key : String} {old new : PendingRecord} (flight : InFlight before world)
    (found : world.queue[key]? = some old) :
    InFlight before { world with queue := world.queue.insert key new } := by
  refine ⟨flight.connected, ?_, flight.distinct, flight.inactive, flight.accepted⟩
  intro other
  rw [Table.mem_insert_of_mem (Table.mem_of_getElem? found)]
  exact flight.keys other

/-- A new request: its key is free, so its name is not on its way, and it is not active. -/
theorem queued {pv : String} {record : PendingRecord} (flight : InFlight before world)
    (inactive : world.store.activeRecord pv = .ok none) (free : Name.queueKey pv ∉ world.queue)
    (running : world.engine.running = true) :
    InFlight before
      { world with
        queue := world.queue.insert (Name.queueKey pv) record
        engine := (world.engine.start pv).2 } := by
  obtain ⟨started, since, once, tracked⟩ := flight.accepted
  have unsent : Name.queueKey pv ∉ world.engine.channel.map Name.queueKey := by
    rwa [← flight.keys]
  have fresh : pv ∉ started := by
    intro member
    rcases tracked pv member with sent | ⟨record, active⟩
    · exact unsent (List.mem_map_of_mem sent)
    · rw [active] at inactive
      cases inactive
  simp only [Engine.start, running, flight.connected, if_true]
  refine ⟨rfl, ?_, ?_, ?_, started ++ [pv], ?_, ?_, ?_⟩
  · intro key
    rw [Table.mem_insert_iff, flight.keys, List.map_append, List.mem_append, List.map_singleton,
      List.mem_singleton]
  · rw [List.map_append]
    exact List.nodup_append.mpr ⟨flight.distinct, by simp, by grind⟩
  · intro other sent
    rcases List.mem_append.mp sent with old | new
    · exact flight.inactive other old
    · rw [List.mem_singleton.mp new]
      exact inactive
  · simp [since]
  · exact List.nodup_append.mpr ⟨once, by simp, by grind⟩
  · intro other member
    rcases List.mem_append.mp member with old | new
    · exact (tracked other old).imp (List.mem_append_left _) id
    · exact .inl (List.mem_append_right _ new)

theorem received {pv : String} {rest : List String} {moved : Bool} (flight : InFlight before world)
    (oldest : world.engine.channel = pv :: rest)
    (effect : PromoteEffect (Name.queueKey pv) pv
      { world with engine := { world.engine with channel := rest } } moved after) :
    moved = true ∧ InFlight before after := by
  have distinct := flight.distinct
  rw [oldest, List.map_cons, List.nodup_cons] at distinct
  cases effect with
  | absent absent =>
    have queued : Name.queueKey pv ∈ world.queue := by
      rw [flight.keys, oldest]
      exact List.mem_map_of_mem List.mem_cons_self
    exact absurd queued (Table.getElem?_eq_none_iff.mp absent)
  | moved pending store readings found promoted =>
    obtain ⟨started, since, once, tracked⟩ := flight.accepted
    have apart : ∀ other ∈ rest, other ≠ pv := by
      rintro other later rfl
      exact distinct.1 (List.mem_map_of_mem later)
    refine ⟨rfl, flight.connected, ?_, distinct.2, ?_, started, since, once, ?_⟩
    · intro key
      rw [Table.mem_erase_iff, flight.keys, oldest, List.map_cons, List.mem_cons]
      constructor
      · intro ⟨other, held⟩
        exact held.resolve_left other
      · intro later
        refine ⟨?_, .inr later⟩
        rintro rfl
        exact distinct.1 later
    · intro other later
      rw [promoted.elsewhere other (apart other later)]
      apply flight.inactive
      rw [oldest]
      exact List.mem_cons_of_mem pv later
    · intro other member
      by_cases same : other = pv
      · subst same
        obtain ⟨record, active, -⟩ := promoted.here
        exact .inr ⟨record, active⟩
      · rw [promoted.elsewhere other same]
        have sent := tracked other member
        rw [oldest, List.mem_cons] at sent
        exact sent.imp (·.resolve_left same) id

end InFlight

variable {surroundings : Surroundings} {defaultPeriod : Single} {before : List String}
  {world after : World}

theorem ItemEffect.inFlight {name : NormalizedName} {spec : ArchiveSpec}
    {result : Except AdmissionError ArchiveStatus}
    (effect : ItemEffect defaultPeriod name spec world result after) (flight : InFlight before world) :
    InFlight before after := by
  cases effect with
  | invalid e unusable => exact flight
  | active record store readings usable found merge => exact flight.merged found merge
  | pending record usable inactive found => exact flight.edited found
  | unresolved e usable inactive absent unreadable => exact flight
  | refused usable inactive absent taken => exact flight
  | queued policy usable inactive absent resolved free running =>
    exact flight.queued inactive free running

namespace GatewayTurn

/-- One turn. A name that is received finds its request. -/
theorem take_inFlight (turn : GatewayTurn) (flight : InFlight before world)
    (steady : turn.faults surroundings defaultPeriod world = []) :
    InFlight before (turn.take surroundings defaultPeriod world).2 ∧
      ∀ received ∈ (turn.take surroundings defaultPeriod world).1,
        received.confirmed = some (.ok true) := by
  cases turn with
  | item catalog spec =>
    refine ⟨?_, by simp [take]⟩
    have completed : (archivePv defaultPeriod catalog spec).Completes surroundings world _ _ :=
      ⟨rfl, steady⟩
    rcases archivePv_effect completed with ⟨_, _, _, same⟩ | ⟨name, status, _, effect, _⟩
    · unfold take Attempt.run
      rw [same]
      exact flight
    · exact effect.inFlight flight
  | receive =>
    cases oldest : world.engine.channel with
    | nil =>
      simp only [take, EngineTask.step_of_drained oldest]
      exact ⟨flight, by simp⟩
    | cons pv rest =>
      simp only [faults, World.receive, Engine.receive, oldest] at steady
      simp only [take, EngineTask.step_of_oldest oldest, if_true]
      cases ran : (confirmStarted pv).run surroundings
        { world with engine := { world.engine with channel := rest } } with
      | mk outcome last =>
        obtain ⟨moved, rfl, effect⟩ := confirmStarted_effect ⟨ran, steady⟩
        obtain ⟨rfl, flight⟩ := flight.received oldest effect
        exact ⟨flight, by simp⟩

theorem takeAll_inFlight (turns : List GatewayTurn) (flight : InFlight before world)
    (steady : allFaults surroundings defaultPeriod world turns = []) :
    InFlight before (takeAll surroundings defaultPeriod world turns).2 ∧
      ∀ received ∈ (takeAll surroundings defaultPeriod world turns).1,
        received.confirmed = some (.ok true) := by
  induction turns generalizing world with
  | nil => exact ⟨flight, by simp [takeAll]⟩
  | cons turn rest ih =>
    obtain ⟨fine, others⟩ := List.append_eq_nil_iff.mp steady
    obtain ⟨flight, confirmed⟩ := take_inFlight turn flight fine
    obtain ⟨flight, later⟩ := ih flight others
    refine ⟨flight, ?_⟩
    intro received member
    rcases List.mem_append.mp member with now | then'
    · exact confirmed received now
    · exact later received then'

theorem allFaults_of_prefix {soFar turns : List GatewayTurn} (moment : soFar <+: turns)
    (steady : allFaults surroundings defaultPeriod world turns = []) :
    allFaults surroundings defaultPeriod world soFar = [] := by
  obtain ⟨others, rfl⟩ := moment
  induction soFar generalizing world with
  | nil => rfl
  | cons turn rest ih =>
    obtain ⟨fine, later⟩ := List.append_eq_nil_iff.mp steady
    exact List.append_eq_nil_iff.mpr ⟨fine, ih later⟩

theorem allFaults_eq_nil (calm : surroundings.FaultFree) (sound : world.Sound)
    (turns : List GatewayTurn) : allFaults surroundings defaultPeriod world turns = [] := by
  induction turns generalizing world with
  | nil => rfl
  | cons turn rest ih =>
    have first : turn.faults surroundings defaultPeriod world = [] ∧
        (turn.take surroundings defaultPeriod world).2.Sound := by
      cases turn with
      | item catalog spec => exact Program.faults_eq_nil calm sound _
      | receive =>
        cases oldest : world.engine.channel with
        | nil =>
          simp only [faults, World.receive, Engine.receive, take, EngineTask.step_of_drained oldest, oldest]
          exact ⟨trivial, sound⟩
        | cons pv others =>
          have received : World.Sound { world with engine := { world.engine with channel := others } } :=
            ⟨sound.store, sound.running⟩
          have confirmed := Program.faults_eq_nil calm received (ExceptT.run (confirmStarted pv))
          simp only [faults, World.receive, Engine.receive, take, EngineTask.step_of_oldest oldest, oldest,
            if_true]
          exact confirmed
    exact List.append_eq_nil_iff.mpr ⟨first.1, ih first.2⟩

end GatewayTurn

/-- Nothing is queued or on its way at first. At every moment of a fault-free run, each
received name has found its request, no name that is on its way is active, so that none of
their promotions replaces a record, and no name has been started twice. What is queued are
the keys of the names on their way, which have different keys. -/
theorem received_names_are_pending (surroundings : Surroundings) (defaultPeriod : Single)
    (world now : World) (turns soFar : List GatewayTurn) (received : List Received)
    (connected : world.engine.hasChannel = true) (unqueued : world.queue = ∅)
    (drained : world.engine.channel = [])
    (steady : GatewayTurn.allFaults surroundings defaultPeriod world turns = [])
    (moment : soFar <+: turns)
    (ran : GatewayTurn.takeAll surroundings defaultPeriod world soFar = (received, now)) :
    (∀ name ∈ received, name.confirmed = some (.ok true)) ∧
      (∀ pv ∈ now.engine.channel, now.store.activeRecord pv = .ok none) ∧
      (∃ started, now.engine.accepted = world.engine.accepted ++ started ∧ started.Nodup) ∧
      (∀ key, key ∈ now.queue ↔ ∃ pv ∈ now.engine.channel, Name.queueKey pv = key) ∧
      (now.engine.channel.map Name.queueKey).Nodup ∧
      (now.engine.channel = [] → now.queue = ∅) := by
  have initial := InFlight.initial connected unqueued drained
  have steady := GatewayTurn.allFaults_of_prefix moment steady
  obtain ⟨flight, confirmed⟩ := GatewayTurn.takeAll_inFlight soFar initial steady
  rw [ran] at flight confirmed
  obtain ⟨started, since, once, -⟩ := flight.accepted
  refine ⟨confirmed, flight.inactive, ⟨started, since, once⟩, ?_, flight.distinct, ?_⟩
  · intro key
    rw [flight.keys, List.mem_map]
  · intro drained
    apply Std.ExtTreeMap.eq_empty_iff_forall_not_mem.mpr
    intro key queued
    rw [flight.keys, drained] at queued
    cases queued

/-- Two names that share a key, the second of which has to wait for the first. -/
theorem received_names_are_pending_across_marks :
    let after := GatewayTurn.takeAll (.calm 0) AdmissionConfig.default.defaultPeriod
      (.fresh (.databaseOf .default) .channelled)
      [.item ∅ { pv := "SRC" }, .item ∅ { pv := "pva://SRC" }, .receive, .item ∅ { pv := "pva://SRC" }]
    (∀ name ∈ after.1, name.confirmed = some (.ok true)) ∧
      (∀ pv ∈ after.2.engine.channel, after.2.store.activeRecord pv = .ok none) ∧
      (∃ started, after.2.engine.accepted = [] ++ started ∧ started.Nodup) ∧
      (∀ key, key ∈ after.2.queue ↔ ∃ pv ∈ after.2.engine.channel, Name.queueKey pv = key) ∧
      (after.2.engine.channel.map Name.queueKey).Nodup ∧
      (after.2.engine.channel = [] → after.2.queue = ∅) :=
  received_names_are_pending (.calm 0) _ _ _ _ _ _ rfl rfl rfl
    (GatewayTurn.allFaults_eq_nil (fun _ => rfl)
      (World.sound_fresh (ConfigStore.sound_databaseOf _) rfl) _)
    (List.prefix_refl _) rfl

end ArchiveIntake
