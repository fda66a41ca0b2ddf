import ArchiveIntake.Config
import ArchiveIntake.Text.Utf8
import ArchiveIntake.Toml.Document

/-! Configurations read from a settings file. What the file leaves out keeps its
default, and names that mean nothing are passed over. -/

namespace ArchiveIntake

namespace Toml.Value

/-- A period: a whole number or a number with a fraction. -/
def asPeriod? : Value → Option Single
  | .integer value => some (.ofInt .single value)
  | .float value => some (value.convert .single)
  | _ => none

def asText? : Value → Option String
  | .string text => some text
  | _ => none

def asTexts? : Value → Option (List String)
  | .array items => items.mapM asText?
  | _ => none

/-- The name under which a date stands when a table is expected. -/
def dateTimeName : String := "$__toml_private_datetime"

/-- A table of texts. A date or time is a table that holds its text. -/
def asProperties? : Value → Option (Table String)
  | .table _ members => members.foldlM (fun properties (key, value) => do
      return properties.insert key (← value.asText?)) ∅
  | .dateTime text => some ((∅ : Table String).insert dateTimeName text)
  | _ => none

end Toml.Value

namespace AdmissionConfig

/-- A member of a settings file, or the default if it is not there. -/
def setting (members : Toml.Members) (key : String) (read : Toml.Value → Option α) (default : α) :
    Option α :=
  match members.get? key with
  | some value => read value
  | none => some default

def ofMembers? (members : Toml.Members) : Option AdmissionConfig := do
  return {
    defaultPeriod :=
      ← setting members "default_monitor_sampling_period" Toml.Value.asPeriod? default.defaultPeriod
    standardFields := ← setting members "standard_fields" Toml.Value.asTexts? default.standardFields
    properties :=
      ← setting members "installation_properties" Toml.Value.asProperties? default.properties }

/-- Reads a configuration and accepts it if it is usable. -/
def ofToml (text : String) : Except ConfigError AdmissionConfig :=
  match Toml.document? text >>= ofMembers? with
  | none => .error .unreadable
  | some config => config.validate.map fun _ => config

def ofFile (content : Option (List UInt8)) : Except ConfigError AdmissionConfig :=
  match content with
  | none => .error .missingFile
  | some bytes =>
    match Text.Utf8.strict? bytes with
    | none => .error .notUnicode
    | some text => ofToml text

end AdmissionConfig
end ArchiveIntake
