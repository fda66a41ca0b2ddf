import ArchiveIntake.Store

/-! The collaborators of admission and what they can be asked. Admission itself
holds no archive state: it asks the configuration store, the queue of requests and
the engine, one request at a time, and each request is answered in one step. A
request that is out of order is refused and changes nothing. -/

namespace ArchiveIntake

structure Engine where
  /-- Every name accepted so far, in order. -/
  accepted : List String
  /-- Names on their way to the engine's task. -/
  channel : List String
  /-- Whether accepted names go through the channel. -/
  hasChannel : Bool
  running : Bool
deriving DecidableEq, Repr

namespace Engine

/-- An engine that takes note of every name at once. -/
def noting : Engine := ⟨[], [], false, true⟩

/-- An engine whose task receives names from a channel. -/
def channelled : Engine := ⟨[], [], true, true⟩

def start (engine : Engine) (pv : String) : Except Failure Unit × Engine :=
  if engine.running then
    (.ok (), { engine with
      accepted := engine.accepted ++ [pv]
      channel := if engine.hasChannel then engine.channel ++ [pv] else engine.channel })
  else (.error .engineStopped, engine)

/-- Refuses further names; those on their way can still be received. -/
def close (engine : Engine) : Engine := { engine with running := false }

/-- Takes the receiving end of the channel away, and with it what is on its way. -/
def disconnect (engine : Engine) : Engine :=
  if engine.hasChannel then { engine with running := false, channel := [] } else engine

def receive (engine : Engine) : Option String × Engine :=
  match engine.channel with
  | [] => (none, engine)
  | pv :: rest => (some pv, { engine with channel := rest })

def drain (engine : Engine) : List String × Engine :=
  (engine.channel, { engine with channel := [] })

end Engine

structure World where
  store : ConfigStore
  queue : Table PendingRecord
  engine : Engine
  /-- How often the clock has been read. -/
  readings : Nat
deriving DecidableEq

inductive Request where
  | activeRecord (pv : String)
  | updateActiveRecord (pv : String) (record : ActiveRecord)
  | addAlias (name pv : String)
  | property (key : String)
  | standardFields
  | activeCount
  | hasPending (key : String)
  | pendingRecord (key : String)
  | updatePending (key : String) (edits : List PendingEdit)
  | insertIfAbsent (key : String) (record : PendingRecord)
  | takePending (key : String)
  | pendingNames
  | queueLength
  | startWorkflow (pv : String)
  | readClock
deriving DecidableEq

namespace Request

abbrev Reply : Request → Type
  | .activeRecord _ => Except Failure (Option ActiveRecord)
  | .updateActiveRecord _ _ => Except Failure Unit
  | .addAlias _ _ => Except Failure Unit
  | .property _ => Option String
  | .standardFields => Except Failure (List String)
  | .activeCount => Except Failure Nat
  | .hasPending _ => Except Failure Bool
  | .pendingRecord _ => Except Failure (Option PendingRecord)
  | .updatePending _ _ => Except Failure (Option (PendingRecord × List Bool))
  | .insertIfAbsent _ _ => Except Failure Bool
  | .takePending _ => Except Failure (Option PendingRecord)
  | .pendingNames => Except Failure (List String)
  | .queueLength => Nat
  | .startWorkflow _ => Except Failure Unit
  | .readClock => Time

/-- The answer to a request that is out of order: a property counts as not set.
The clock and the length of the queue can always be read. -/
def refusal (failure : Failure) : (request : Request) → Option request.Reply
  | .activeRecord _ => some (.error failure)
  | .updateActiveRecord _ _ => some (.error failure)
  | .addAlias _ _ => some (.error failure)
  | .property _ => some none
  | .standardFields => some (.error failure)
  | .activeCount => some (.error failure)
  | .hasPending _ => some (.error failure)
  | .pendingRecord _ => some (.error failure)
  | .updatePending _ _ => some (.error failure)
  | .insertIfAbsent _ _ => some (.error failure)
  | .takePending _ => some (.error failure)
  | .pendingNames => some (.error failure)
  | .queueLength => none
  | .startWorkflow _ => some (.error failure)
  | .readClock => none

def name : Request → String
  | .activeRecord _ => "active_record"
  | .updateActiveRecord _ _ => "update_active_record"
  | .addAlias _ _ => "add_alias"
  | .property _ => "installation_property"
  | .standardFields => "standard_fields"
  | .activeCount => "active_count"
  | .hasPending _ => "has_pending"
  | .pendingRecord _ => "pending_record"
  | .updatePending _ _ => "update_pending"
  | .insertIfAbsent _ _ => "insert_if_absent"
  | .takePending _ => "take_pending"
  | .pendingNames => "pending_names"
  | .queueLength => "queue_length"
  | .startWorkflow _ => "start_workflow"
  | .readClock => "clock"

/-- A name that also says what is registered or started. -/
def detailedName? : Request → Option String
  | .addAlias aliasName _ => some ("add_alias:" ++ aliasName)
  | .startWorkflow pv => some ("start_workflow:" ++ pv)
  | _ => none

end Request

structure Surroundings where
  outage : Request → Option Failure
  clock : Nat → Time

namespace Surroundings

/-- Nothing is out of order, and the clock stands still. -/
def calm (now : Time) : Surroundings := ⟨fun _ => none, fun _ => now⟩

/-- The requests of the listed names are out of order. A plain name stands for every
request of that name and goes before a detailed one. -/
def withOutages (names : List String) (clock : Nat → Time) : Surroundings where
  outage request :=
    if names.contains request.name then some (.outage request.name)
    else (request.detailedName?.filter names.contains).map .outage
  clock := clock

def FaultFree (surroundings : Surroundings) : Prop := ∀ request, surroundings.outage request = none

end Surroundings

namespace World

def fresh (store : ConfigStore) (engine : Engine) : World := ⟨store, ∅, engine, 0⟩

def withStore (world : World) (result : α × ConfigStore) : α × World :=
  (result.1, { world with store := result.2 })

def pendingRecord (world : World) (key : String) : Option PendingRecord := world.queue[key]?

def updatePending (world : World) (key : String) (edits : List PendingEdit) :
    Option (PendingRecord × List Bool) × World :=
  match world.queue[key]? with
  | none => (none, world)
  | some record =>
    let (record, added) := record.applyAll edits
    (some (record, added), { world with queue := world.queue.insert key record })

/-- Queues a request unless its key is taken; says whether it was queued. -/
def insertIfAbsent (world : World) (key : String) (record : PendingRecord) : Bool × World :=
  if world.queue.contains key then (false, world)
  else (true, { world with queue := world.queue.insert key record })

def takePending (world : World) (key : String) : Option PendingRecord × World :=
  (world.queue[key]?, { world with queue := world.queue.erase key })

def startWorkflow (world : World) (pv : String) : Except Failure Unit × World :=
  let (result, engine) := world.engine.start pv
  (result, { world with engine })

def answer (clock : Nat → Time) (world : World) : (request : Request) → request.Reply × World
  | .activeRecord pv => (world.store.activeRecord pv, world)
  | .updateActiveRecord pv record => world.withStore (world.store.updateActiveRecord pv record)
  | .addAlias name pv => world.withStore (world.store.addAlias name pv)
  | .property key => (world.store.property key, world)
  | .standardFields => (world.store.standardFields, world)
  | .activeCount => (world.store.activeCount, world)
  | .hasPending key => (.ok (world.queue.contains key), world)
  | .pendingRecord key => (.ok (world.pendingRecord key), world)
  | .updatePending key edits =>
    let (reply, world) := world.updatePending key edits
    (.ok reply, world)
  | .insertIfAbsent key record =>
    let (reply, world) := world.insertIfAbsent key record
    (.ok reply, world)
  | .takePending key =>
    let (reply, world) := world.takePending key
    (.ok reply, world)
  | .pendingNames => (.ok world.queue.keys, world)
  | .queueLength => (world.queue.size, world)
  | .startWorkflow pv => world.startWorkflow pv
  | .readClock => (clock world.readings, { world with readings := world.readings + 1 })

/-- Answers a request, or refuses it if it is out of order. -/
def respond (surroundings : Surroundings) (world : World) (request : Request) :
    request.Reply × World :=
  match (surroundings.outage request).bind fun failure => request.refusal failure with
  | some reply => (reply, world)
  | none => world.answer surroundings.clock request

end World
end ArchiveIntake
