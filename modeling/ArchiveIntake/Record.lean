import ArchiveIntake.Sampling
import ArchiveIntake.Table

/-! Records of archived and of queued variables, and the outcomes reported to a
caller. Adding to a record never takes anything out of it. -/

namespace ArchiveIntake

/-- Nanoseconds since the beginning of 1970, negative before. -/
abbrev Time := Int

structure ActiveRecord where
  pvName : String
  archivedFields : NameSet
  aliases : NameSet
  modificationTime : Time
deriving DecidableEq

namespace ActiveRecord

def new (pvName : String) (now : Time) : ActiveRecord := ⟨pvName, ∅, ∅, now⟩

def isFieldArchived (record : ActiveRecord) (field : String) : Bool :=
  record.archivedFields.contains field

def withField (record : ActiveRecord) (field : String) (now : Time) : ActiveRecord :=
  { record with archivedFields := record.archivedFields.insert field, modificationTime := now }

/-- Adds a field unless it is there; says whether it was added. -/
def addField (record : ActiveRecord) (field : String) (now : Time) : ActiveRecord × Bool :=
  if record.isFieldArchived field then (record, false) else (record.withField field now, true)

def withAlias (record : ActiveRecord) (name : String) : ActiveRecord :=
  { record with aliases := record.aliases.insert name }

end ActiveRecord

/-- A request that waits for the engine to start it. -/
structure PendingRecord where
  method : SamplingMethod
  period : Single
  controllingPv : Option String
  policyName : Option String
  userOverride : Bool
  requestedFields : NameSet
  aliases : List String
deriving DecidableEq

inductive PendingEdit where
  | addField (name : String)
  | addAlias (name : String)
deriving DecidableEq, Repr

namespace PendingRecord

def isFieldRequested (record : PendingRecord) (field : String) : Bool :=
  record.requestedFields.contains field

def apply (record : PendingRecord) : PendingEdit → PendingRecord × Bool
  | .addField name =>
    if record.isFieldRequested name then (record, false)
    else ({ record with requestedFields := record.requestedFields.insert name }, true)
  | .addAlias name =>
    if record.aliases.contains name then (record, false)
    else ({ record with aliases := record.aliases ++ [name] }, true)

def applyAll (record : PendingRecord) : List PendingEdit → PendingRecord × List Bool
  | [] => (record, [])
  | edit :: rest =>
    let (record, added) := record.apply edit
    let (record, others) := record.applyAll rest
    (record, added :: others)

end PendingRecord

inductive ArchiveStatus where
  | alreadySubmitted
  | submitted
  | exceptionOccurred
deriving DecidableEq, Repr

def ArchiveStatus.text : ArchiveStatus → String
  | .alreadySubmitted => "Already submitted"
  | .submitted => "Archive request submitted"
  | .exceptionOccurred => "Exception occurred"

/-- The answer for one item, with the name it was looked up by. -/
structure ArchiveOutcome where
  pvName : String
  status : ArchiveStatus
deriving DecidableEq, Repr

end ArchiveIntake
