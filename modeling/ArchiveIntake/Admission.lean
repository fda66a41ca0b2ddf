import ArchiveIntake.Name
import ArchiveIntake.Program

/-! Looking up what is known about a variable, and merging a further request into
it. An active record wins over a queued request. Merging only adds: the standard
field of the name and the alias. -/

namespace ArchiveIntake

/-- What is known about a variable, with its record as it is after any merge. -/
inductive Admission where
  | alreadyActive (record : ActiveRecord)
  | alreadyPending (record : PendingRecord)
  | notRegistered
deriving DecidableEq

namespace Admission

def isRegistered : Admission → Bool
  | .notRegistered => false
  | _ => true

/-- Adds the standard field, and writes the record back if the field is new. -/
def mergeField (name : NormalizedName) (record : ActiveRecord) : Attempt ActiveRecord :=
  match name.standardField with
  | none => return record
  | some field =>
    if record.isFieldArchived field then return record
    else do
      let record := record.withField field (← Attempt.readClock)
      Attempt.collaborate (Program.request (.updateActiveRecord name.baseName record))
      return record

def mergeAlias (name : NormalizedName) (aliasName : Option String) (record : ActiveRecord) :
    Attempt ActiveRecord :=
  match aliasName with
  | none => return record
  | some aliasName => do
    Attempt.collaborate (Program.request (.addAlias aliasName name.baseName))
    return record.withAlias aliasName

def mergeActive (name : NormalizedName) (aliasName : Option String) (record : ActiveRecord) :
    Attempt ActiveRecord := do
  mergeAlias name aliasName (← mergeField name record)

/-- What a request for a queued variable adds to it. -/
def pendingEdits (name : NormalizedName) (aliasName : Option String) : List PendingEdit :=
  name.standardField.toList.map .addField ++ aliasName.toList.map .addAlias

/-- Adds to the request queued under the name, if there is one. -/
def mergePending (name : NormalizedName) (aliasName : Option String) :
    Attempt (Option PendingRecord) := do
  let merged ← Attempt.collaborate
    (Program.request (.updatePending name.baseName (pendingEdits name aliasName)))
  return merged.map (·.1)

/-- Looks a variable up and merges the field and the alias into what is found. -/
def check (name : NormalizedName) (aliasName : Option String) : Attempt Admission := do
  match ← Attempt.collaborate (Program.request (.activeRecord name.baseName)) with
  | some record => return .alreadyActive (← mergeActive name aliasName record)
  | none =>
    match ← mergePending name aliasName with
    | some record => return .alreadyPending record
    | none => return .notRegistered

/-- Looks a variable up without merging anything. -/
def find (name : NormalizedName) : Attempt Admission := do
  match ← Attempt.collaborate (Program.request (.activeRecord name.baseName)) with
  | some record => return .alreadyActive record
  | none =>
    match ← Attempt.collaborate (Program.request (.pendingRecord name.baseName)) with
    | some record => return .alreadyPending record
    | none => return .notRegistered

end Admission
end ArchiveIntake
