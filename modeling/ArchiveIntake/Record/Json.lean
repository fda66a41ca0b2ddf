import ArchiveIntake.Json.Decode
import ArchiveIntake.Json.Value
import ArchiveIntake.Record

/-! The JSON forms of records and outcomes. -/

namespace ArchiveIntake

open Json

def SamplingMethod.toJson (method : SamplingMethod) : Value := .string method.name

def SamplingMethod.ofNode : Node → Decoded SamplingMethod :=
  Node.asVariant [("SCAN", .scan), ("MONITOR", .monitor)]

def ArchiveStatus.ofNode : Node → Decoded ArchiveStatus :=
  Node.asVariant <|
    [ArchiveStatus.alreadySubmitted, .submitted, .exceptionOccurred].map fun status =>
      (status.text, status)

namespace NameSet

def toJson (names : NameSet) : Value := .strings names.toList

def ofNode (node : Node) : Decoded NameSet := (Node.asList Node.asText node).map NameSet.ofList

end NameSet

namespace ArchiveOutcome

def toJson (outcome : ArchiveOutcome) : Value :=
  .object [("pvName", .string outcome.pvName), ("status", .string outcome.status.text)]

def shape : Shape where
  name := "struct ArchiveOutcome"
  fields := [.of "pvName" Node.asText true, .of "status" ArchiveStatus.ofNode true]
  closed := false

def ofNode (node : Node) : Decoded ArchiveOutcome := do
  let fields ← shape.read node
  return {
    pvName := ← fields.need "pvName" Node.asText
    status := ← fields.need "status" ArchiveStatus.ofNode }

end ArchiveOutcome

namespace Time

def nanosPerSecond : Nat := 1000000000

/-- Whole seconds and the nanoseconds left over; times before 1970 have no such form. -/
def toJson? (time : Time) : Option Value :=
  if time < 0 then none
  else
    some <| .object [
      ("secs_since_epoch", .natural (time.toNat / nanosPerSecond)),
      ("nanos_since_epoch", .natural (time.toNat % nanosPerSecond))]

def seconds : Node → Decoded Nat := Node.asNatural (UInt64.size - 1)

def nanos : Node → Decoded Nat := Node.asNatural (UInt32.size - 1)

def shape : Shape where
  name := "struct SystemTime"
  fields := [.of "secs_since_epoch" seconds true, .of "nanos_since_epoch" nanos true]
  closed := true

/-- The seconds of a time fit a signed 64 bit number. -/
def ofNode (node : Node) : Decoded Time := do
  let fields ← shape.read node
  let total := (← fields.need "secs_since_epoch" seconds) * nanosPerSecond +
    (← fields.need "nanos_since_epoch" nanos)
  if total < UInt64.size / 2 * nanosPerSecond then return (total : Int) else throw .outOfRange

end Time

namespace ActiveRecord

def toJson? (record : ActiveRecord) : Option Value :=
  (Time.toJson? record.modificationTime).map fun time =>
    .object [
      ("pv_name", .string record.pvName),
      ("archived_fields", record.archivedFields.toJson),
      ("aliases", record.aliases.toJson),
      ("modification_time", time)]

def shape : Shape where
  name := "struct ActiveRecord"
  fields := [
    .of "pv_name" Node.asText true,
    .of "archived_fields" NameSet.ofNode true,
    .of "aliases" NameSet.ofNode false,
    .of "modification_time" Time.ofNode true]
  closed := false

def ofNode (node : Node) : Decoded ActiveRecord := do
  let fields ← shape.read node
  return {
    pvName := ← fields.need "pv_name" Node.asText
    archivedFields := ← fields.need "archived_fields" NameSet.ofNode
    aliases := (← fields.optional "aliases" fun node => (NameSet.ofNode node).map some).getD ∅
    modificationTime := ← fields.need "modification_time" Time.ofNode }

end ActiveRecord

namespace PendingRecord

def toJson (record : PendingRecord) : Value :=
  .object [
    ("sampling_method", record.method.toJson),
    ("sampling_period_secs", .single record.period),
    ("controlling_pv", .optional record.controllingPv),
    ("policy_name", .optional record.policyName),
    ("user_override", .bool record.userOverride),
    ("requested_fields", record.requestedFields.toJson),
    ("aliases", .strings record.aliases)]

def shape : Shape where
  name := "struct PendingRecord"
  fields := [
    .of "sampling_method" SamplingMethod.ofNode true,
    .of "sampling_period_secs" Node.asSingle true,
    .of "controlling_pv" (Node.asOptional Node.asText) true,
    .of "policy_name" (Node.asOptional Node.asText) true,
    .of "user_override" Node.asBool true,
    .of "requested_fields" NameSet.ofNode true,
    .of "aliases" (Node.asList Node.asText) true]
  closed := false

def ofNode (node : Node) : Decoded PendingRecord := do
  let fields ← shape.read node
  return {
    method := ← fields.need "sampling_method" SamplingMethod.ofNode
    period := ← fields.need "sampling_period_secs" Node.asSingle
    controllingPv := ← fields.optional "controlling_pv" (Node.asOptional Node.asText)
    policyName := ← fields.optional "policy_name" (Node.asOptional Node.asText)
    userOverride := ← fields.need "user_override" Node.asBool
    requestedFields := ← fields.need "requested_fields" NameSet.ofNode
    aliases := ← fields.need "aliases" (Node.asList Node.asText) }

end PendingRecord
end ArchiveIntake
