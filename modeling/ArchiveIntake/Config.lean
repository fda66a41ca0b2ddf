import ArchiveIntake.Sampling
import ArchiveIntake.Table

/-! The settings of admission: the default period, the fields archived together
with their variable, and installation properties. A configuration is accepted
only if the periods in it are usable. -/

namespace ArchiveIntake

structure AdmissionConfig where
  /-- The period of a request that overrides nothing. -/
  defaultPeriod : Single
  standardFields : List String
  properties : Table String

namespace AdmissionConfig

def defaultStandardFields : List String :=
  ["HIHI", "HIGH", "LOW", "LOLO", "LOPR", "HOPR", "DRVH", "DRVL"]

def default : AdmissionConfig := ⟨.ofInt .single 1, defaultStandardFields, ∅⟩

instance : Inhabited AdmissionConfig := ⟨default⟩

def withProperty (config : AdmissionConfig) (key value : String) : AdmissionConfig :=
  { config with properties := config.properties.insert key value }

/-- Sets the least period; the property holds its shortest digits. -/
def withMinimumPeriod (config : AdmissionConfig) (seconds : Single) : AdmissionConfig :=
  config.withProperty minimumPeriodProperty seconds.positional

end AdmissionConfig

inductive ConfigFault where
  | defaultPeriod (value : Single)
  | fieldName (name : String)
  | minimumPeriod (text : String)
deriving DecidableEq

inductive ConfigError where
  | missingFile
  | notUnicode
  | unreadable
  | invalid (fault : ConfigFault)
deriving DecidableEq

def ConfigFault.message : ConfigFault → String
  | .defaultPeriod value =>
    "default monitor sampling period must be positive, got " ++ value.positional
  | .fieldName name => "standard field name '" ++ name ++ "' is not a bare field name"
  | .minimumPeriod text =>
    minimumPeriodProperty ++ " must be a non-negative number, got '" ++ text ++ "'"

def ConfigError.message : ConfigError → String
  | .missingFile => "I/O error: No such file or directory (os error 2)"
  | .notUnicode => "I/O error: stream did not contain valid UTF-8"
  | .unreadable => "TOML parse error"
  | .invalid fault => "Invalid configuration: " ++ fault.message

namespace AdmissionConfig

def isBareField (name : String) : Bool := name ≠ "" && !name.toList.contains '.'

def isMinimumPeriod (text : String) : Bool :=
  match Binary.read .single (Text.trim text) with
  | .ok value => value.isFinite && (Binary.zero .single false).atMost value
  | .error _ => false

/-- The first fault of a configuration, in the order of its parts. -/
def fault? (config : AdmissionConfig) : Option ConfigFault :=
  if ¬(config.defaultPeriod.isFinite ∧ (Binary.zero .single false).below config.defaultPeriod) then
    some (.defaultPeriod config.defaultPeriod)
  else
    match config.standardFields.find? (fun name => !isBareField name) with
    | some name => some (.fieldName name)
    | none =>
      match config.properties[minimumPeriodProperty]? with
      | some text => if isMinimumPeriod text then none else some (.minimumPeriod text)
      | none => none

def validate (config : AdmissionConfig) : Except ConfigError Unit :=
  match config.fault? with
  | some fault => .error (.invalid fault)
  | none => .ok ()

end AdmissionConfig
end ArchiveIntake
