import ArchiveIntake.Record
import ArchiveIntake.Spec

/-! The sampling parameters a new request is queued with. A request without a
period takes the defaults and nothing is asked of the configuration store; one
with a period is raised to the least period. -/

namespace ArchiveIntake

structure EffectivePolicy where
  method : SamplingMethod
  period : Single
  controllingPv : Option String
  policyName : Option String
  userOverride : Bool
  /-- The period asked for, if it was raised. -/
  clampedFrom : Option Single
deriving DecidableEq

/-- What a request with a period overrides. -/
structure Override where
  method : SamplingMethod
  period : Single
deriving DecidableEq

/-- The least period when the property is not set. -/
def defaultMinimumPeriod : String := "0.1"

def readMinimumPeriod (property : Option String) : Except AdmissionError Single :=
  let text := property.getD defaultMinimumPeriod
  match Binary.read .single (Text.trim text) with
  | .ok value => .ok value
  | .error reason => .error (.collaborator (.minimumPeriod text reason))

/-- What an item overrides, if anything; method and period have to be usable then. -/
def ArchiveSpec.override (spec : ArchiveSpec) : Except AdmissionError (Option Override) :=
  match spec.period with
  | none => .ok none
  | some raw => do
    let method ← spec.requestedMethod
    let period ← raw.seconds
    return some ⟨method, period⟩

namespace EffectivePolicy

def ofDefault (defaultPeriod : Single) (spec : ArchiveSpec) : EffectivePolicy :=
  ⟨.monitor, defaultPeriod, spec.controllingPv, spec.policy, false, none⟩

def ofOverride (asked : Override) (minimum : Single) (spec : ArchiveSpec) : EffectivePolicy :=
  if asked.period.below minimum then
    ⟨asked.method, minimum, spec.controllingPv, spec.policy, true, some asked.period⟩
  else ⟨asked.method, asked.period, spec.controllingPv, spec.policy, true, none⟩

end EffectivePolicy
end ArchiveIntake
