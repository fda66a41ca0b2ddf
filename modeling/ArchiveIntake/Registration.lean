import ArchiveIntake.Name
import ArchiveIntake.Policy
import ArchiveIntake.Program

/-! Registering a new request: it is queued under the key of its name, and the
engine is told to start it under its full name. -/

namespace ArchiveIntake

inductive Submission where
  /-- Queued and handed to the engine. -/
  | submitted
  /-- The key was taken. -/
  | alreadyQueued
deriving DecidableEq, Repr

def PendingRecord.ofRequest (name : NormalizedName) (policy : EffectivePolicy)
    (aliasName : Option String) : PendingRecord where
  method := policy.method
  period := policy.period
  controllingPv := policy.controllingPv
  policyName := policy.policyName
  userOverride := policy.userOverride
  requestedFields := .ofList name.standardField.toList
  aliases := aliasName.toList

/-- Queues a request and starts it. If the engine fails the request stays queued. -/
def submit (name : NormalizedName) (policy : EffectivePolicy) (aliasName : Option String) :
    Attempt Submission := do
  let fails := AdmissionError.submission name.baseName
  let record := PendingRecord.ofRequest name policy aliasName
  let inserted ← Attempt.await fails (Program.request (.insertIfAbsent name.queueKey record))
  if inserted then
    Attempt.await fails (Program.request (.startWorkflow name.baseName))
    return .submitted
  else return .alreadyQueued

end ArchiveIntake
