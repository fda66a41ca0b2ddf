import ArchiveIntake.Admission
import ArchiveIntake.PlainRequest
import ArchiveIntake.Promotion
import ArchiveIntake.Registration

/-! The admission of a batch. Each item is normalized, its overrides are checked,
and then it is merged into what is known of its variable or registered as a new
request. An error of an item becomes its outcome; only an invalid name ends the
batch. -/

namespace ArchiveIntake

def minimumPeriod : Attempt Single := do
  let property ← ExceptT.lift (Program.request (.property minimumPeriodProperty))
  Attempt.ofExcept (readMinimumPeriod property)

/-- The parameters of a new request; the least period is read only for an override. -/
def resolvePolicy (defaultPeriod : Single) (spec : ArchiveSpec) : Attempt EffectivePolicy := do
  match ← Attempt.ofExcept spec.override with
  | none => return .ofDefault defaultPeriod spec
  | some asked => return .ofOverride asked (← minimumPeriod) spec

/-- The catalog in the configuration store; one that cannot be read counts as empty. -/
def loadCatalog : Program Catalog := do
  match ← Program.request .standardFields with
  | .ok fields => return NameSet.ofList fields
  | .error _ => return ∅

/-- What is done for one item while no other item of the same name is worked on. -/
def admitItem (defaultPeriod : Single) (name : NormalizedName) (spec : ArchiveSpec) :
    Attempt ArchiveStatus := do
  let _ ← Attempt.ofExcept spec.requestedMethod
  let _ ← Attempt.ofExcept spec.requestedPeriod
  let found ← Admission.check name spec.aliasName
  if found.isRegistered then return .alreadySubmitted
  let policy ← resolvePolicy defaultPeriod spec
  match ← submit name policy spec.aliasName with
  | .submitted => return .submitted
  | .alreadyQueued => return .alreadySubmitted

/-- The outcome of an item: an error that does not end the batch is an outcome too. -/
def outcomeOf (pvName : String) : Except AdmissionError ArchiveStatus →
    Except AdmissionError ArchiveOutcome
  | .ok status => .ok ⟨pvName, status⟩
  | .error e => if e.abortsBatch then .error e else .ok ⟨pvName, .exceptionOccurred⟩

def archiveNamed (defaultPeriod : Single) (name : NormalizedName) (spec : ArchiveSpec) :
    Attempt ArchiveOutcome :=
  ExceptT.mk do return outcomeOf name.baseName (← ExceptT.run (admitItem defaultPeriod name spec))

def archivePv (defaultPeriod : Single) (catalog : Catalog) (spec : ArchiveSpec) :
    Attempt ArchiveOutcome := do
  let name ← Attempt.ofExcept (Name.normalize catalog spec.pv)
  archiveNamed defaultPeriod name spec

/-- The items in order, up to the first error that ends the batch. -/
def archiveItems (defaultPeriod : Single) (catalog : Catalog) :
    List ArchiveSpec → Attempt (List ArchiveOutcome)
  | [] => return []
  | spec :: rest => do
    let outcome ← archivePv defaultPeriod catalog spec
    let others ← archiveItems defaultPeriod catalog rest
    return outcome :: others

/-- A batch; the catalog is loaded once. -/
def archiveBatch (defaultPeriod : Single) (specs : List ArchiveSpec) :
    Attempt (List ArchiveOutcome) := do
  archiveItems defaultPeriod (← ExceptT.lift loadCatalog) specs

def archivePlain (defaultPeriod : Single) (request : PlainRequest) : Attempt (List ArchiveOutcome) := do
  archiveBatch defaultPeriod (← Attempt.ofExcept request.specs)

def archiveStructured (defaultPeriod : Single) (body : List UInt8) : Attempt (List ArchiveOutcome) := do
  archiveBatch defaultPeriod (← Attempt.ofExcept (parseStructured body))

/-- What is known about a raw name, without merging anything. -/
def status (raw : String) : Attempt Admission := do
  let catalog ← ExceptT.lift loadCatalog
  Admission.find (← Attempt.ofExcept (Name.normalize catalog raw))

end ArchiveIntake
