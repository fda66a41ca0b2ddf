import ArchiveIntake.Workflow

/-! Clients that work at the same time. Each works on its items one after another,
and between any two requests to the collaborators other clients may ask theirs.
Work on an item holds the lock of its base name, so clients with the same base
name wait for each other and all others interleave freely. -/

namespace ArchiveIntake

/-- An item with the name it is worked on under. -/
structure Item where
  name : NormalizedName
  spec : ArchiveSpec
deriving DecidableEq

/-- An item in hand, with what is left to do for it. -/
structure Work where
  item : Item
  rest : Program (Except AdmissionError ArchiveOutcome)

structure Finished where
  item : Item
  result : Except AdmissionError ArchiveOutcome

structure Client where
  waiting : List Item
  current : Option Work
  finished : List Finished

namespace Client

def ofItems (items : List Item) : Client := ⟨items, none, []⟩

def holds (client : Client) (baseName : String) : Bool :=
  client.current.any fun work => work.item.name.baseName = baseName

def isDone (client : Client) : Bool := client.waiting.isEmpty && client.current.isNone

end Client

structure Crowd where
  world : World
  clients : List Client

namespace Crowd

def ofItems (world : World) (items : List Item) : Crowd :=
  ⟨world, items.map fun item => .ofItems [item]⟩

def isHeld (crowd : Crowd) (baseName : String) : Bool :=
  crowd.clients.any fun client => client.holds baseName

/-- The next step of a client: it takes the lock of its next item if that is free,
asks one request, or lays its finished item down and with it the lock. -/
def step? (surroundings : Surroundings) (defaultPeriod : Single) (crowd : Crowd) (index : Nat) :
    Option Crowd :=
  match crowd.clients[index]? with
  | some ⟨item :: waiting, none, finished⟩ =>
    if crowd.isHeld item.name.baseName then none
    else
      let work := ⟨item, ExceptT.run (archiveNamed defaultPeriod item.name item.spec)⟩
      some { crowd with clients := crowd.clients.set index ⟨waiting, some work, finished⟩ }
  | some ⟨waiting, some ⟨item, .ask request next⟩, finished⟩ =>
    let (reply, world) := crowd.world.respond surroundings request
    some ⟨world, crowd.clients.set index ⟨waiting, some ⟨item, next reply⟩, finished⟩⟩
  | some ⟨waiting, some ⟨item, .done result⟩, finished⟩ =>
    let client := ⟨waiting, none, finished ++ [⟨item, result⟩]⟩
    some { crowd with clients := crowd.clients.set index client }
  | _ => none

/-- Clients take their steps as scheduled; one that cannot move is passed over. -/
def run (surroundings : Surroundings) (defaultPeriod : Single) (crowd : Crowd)
    (schedule : List Nat) : Crowd :=
  schedule.foldl (fun crowd index => (crowd.step? surroundings defaultPeriod index).getD crowd) crowd

/-- Everybody in turn, again and again. -/
def rounds (crowd : Crowd) (count : Nat) : List Nat :=
  (List.replicate count (List.range crowd.clients.length)).flatten

def itemCount (crowd : Crowd) : Nat := (crowd.clients.flatMap Client.waiting).length

/-- An item is begun, asks at most eight requests and is finished, and in every
round some client moves. -/
def settle (surroundings : Surroundings) (defaultPeriod : Single) (crowd : Crowd) : Crowd :=
  crowd.run surroundings defaultPeriod (crowd.rounds (10 * crowd.itemCount))

def results (crowd : Crowd) : List (Except AdmissionError ArchiveOutcome) :=
  crowd.clients.flatMap fun client => client.finished.map (·.result)

end Crowd
end ArchiveIntake
