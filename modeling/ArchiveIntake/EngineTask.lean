import ArchiveIntake.Promotion

/-! The task behind the engine's channel. It receives names in the order in which
they were accepted and, if it starts them by itself, confirms each at once. -/

namespace ArchiveIntake

/-- A name that was received, and the confirmation if there was one. -/
structure Received where
  pv : String
  confirmed : Option (Except AdmissionError Bool)

namespace World

def receive (world : World) : Option String × World :=
  let (pv, engine) := world.engine.receive
  (pv, { world with engine })

end World

namespace EngineTask

def step (surroundings : Surroundings) (autoStart : Bool) (world : World) :
    Option Received × World :=
  match world.receive with
  | (none, world) => (none, world)
  | (some pv, world) =>
    if autoStart then
      let (confirmed, world) := (confirmStarted pv).run surroundings world
      (some ⟨pv, some confirmed⟩, world)
    else (some ⟨pv, none⟩, world)

variable {surroundings : Surroundings} {autoStart : Bool} {world : World} {pv : String} {rest : List String}

theorem step_of_drained (drained : world.engine.channel = []) :
    step surroundings autoStart world = (none, world) := by
  rw [step, World.receive, Engine.receive, drained]

/-- The oldest name is taken off the channel, and confirmed if the task starts names by itself. -/
theorem step_of_oldest (oldest : world.engine.channel = pv :: rest) :
    step surroundings autoStart world =
      let middle := { world with engine := { world.engine with channel := rest } }
      if autoStart then
        let (confirmed, after) := (confirmStarted pv).run surroundings middle
        (some ⟨pv, some confirmed⟩, after)
      else (some ⟨pv, none⟩, middle) := by
  rw [step, World.receive, Engine.receive, oldest]

def steps (surroundings : Surroundings) (autoStart : Bool) : Nat → World → List Received × World
  | 0, world => ([], world)
  | count + 1, world =>
    match step surroundings autoStart world with
    | (none, world) => ([], world)
    | (some received, world) =>
      let (others, world) := steps surroundings autoStart count world
      (received :: others, world)

/-- Receives all that is in the channel; confirming a start puts nothing into it. -/
def run (surroundings : Surroundings) (autoStart : Bool) (world : World) : List Received × World :=
  steps surroundings autoStart world.engine.channel.length world

end EngineTask
end ArchiveIntake
