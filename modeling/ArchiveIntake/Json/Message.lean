import ArchiveIntake.Json.Decode
import ArchiveIntake.Text.Visible

/-! The wording of decoding errors. Faults of the text itself share one wording,
whatever the fault is. -/

namespace ArchiveIntake.Json

def Found.message : Found → String
  | .null => "null"
  | .bool true => "boolean `true`"
  | .bool false => "boolean `false`"
  | .integer n => "integer `" ++ toString n ++ "`"
  | .double d => "floating point `" ++ d.pointed ++ "`"
  | .string s => "string " ++ Text.quoted s
  | .sequence => "sequence"
  | .map => "map"

def DecodeError.message : DecodeError → String
  | .malformed => "<json syntax>"
  | .missingField name => "missing field `" ++ name ++ "`"
  | .duplicateField name => "duplicate field `" ++ name ++ "`"
  | .unknownField name => "unknown field `" ++ name ++ "`"
  | .unknownVariant name => "unknown variant `" ++ name ++ "`"
  | .wrongType found expected => "invalid type: " ++ found.message ++ ", expected " ++ expected
  | .wrongLength length expected => "invalid length " ++ toString length ++ ", expected " ++ expected
  | .outOfRange => "invalid value: out of range"
  | .noVariant name => "data did not match any variant of untagged enum " ++ name

end ArchiveIntake.Json
