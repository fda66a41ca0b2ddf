import ArchiveIntake.Json.Message
import ArchiveIntake.Number.Literal

/-! What can go wrong: failures of the collaborators that hold archive state, and
errors of a request. Two kinds of errors end a whole batch, an invalid name and a
malformed request; every other error concerns one item. -/

namespace ArchiveIntake

inductive DatabaseTable where
  | activeRecords
  | aliases
  | installationProperties
  | standardFields
deriving DecidableEq, Repr

def DatabaseTable.name : DatabaseTable → String
  | .activeRecords => "active_records"
  | .aliases => "aliases"
  | .installationProperties => "installation_properties"
  | .standardFields => "standard_fields"

def minimumPeriodProperty : String :=
  "org.epics.archiverappliance.mgmt.bpl.ArchivePVAction.minimumSamplingPeriod"

inductive Failure where
  /-- The call is out of order, and did nothing. -/
  | outage (call : String)
  | missingTable (table : DatabaseTable)
  | corruptFields (pv : String)
  | corruptAliases (pv : String)
  | engineStopped
  | cannotOpen (name : String)
  | readOnlyDatabase
  /-- The least sampling period is set to something that is no number. -/
  | minimumPeriod (text : String) (reason : LiteralError)
deriving DecidableEq, Repr

def Failure.message : Failure → String
  | .outage call => "fault in " ++ call
  | .missingTable table => "no such table: " ++ table.name
  | .corruptFields pv => "Corrupt archived_fields for " ++ pv
  | .corruptAliases pv => "Corrupt aliases for " ++ pv
  | .engineStopped => "workflow engine is not running"
  | .cannotOpen name => "Failed to open SQLite database at " ++ name
  | .readOnlyDatabase => "attempt to write a readonly database"
  | .minimumPeriod text reason =>
    minimumPeriodProperty ++ " is not a number ('" ++ text ++ "'): " ++ reason.message

inductive Malformed where
  | missingPv
  | emptyPvList
  | json (error : Json.DecodeError)
deriving DecidableEq

def Malformed.message : Malformed → String
  | .missingPv => "missing pv parameter"
  | .emptyPvList => "empty pv list"
  | .json error => error.message

inductive AdmissionError where
  | invalidName (baseName : String)
  | unknownMethod (text : String)
  | invalidPeriod (text : String)
  | malformed (reason : Malformed)
  | submission (pv : String) (cause : Failure)
  | collaborator (cause : Failure)
deriving DecidableEq

namespace AdmissionError

def message : AdmissionError → String
  | .invalidName baseName => "PV name fails syntax check " ++ baseName
  | .unknownMethod text => "unknown sampling method: " ++ text
  | .invalidPeriod text => "invalid sampling period: " ++ text
  | .malformed reason => "malformed archive request: " ++ reason.message
  | .submission pv cause => "failed to submit archive request for " ++ pv ++ ": " ++ cause.message
  | .collaborator cause => "collaborator failure: " ++ cause.message

/-- Whether the error ends the batch instead of being the outcome of one item. -/
def abortsBatch : AdmissionError → Bool
  | .invalidName _ | .malformed _ => true
  | _ => false

end AdmissionError
end ArchiveIntake
