import ArchiveIntake.Json.Value
import ArchiveIntake.Sampling
import ArchiveIntake.Text.Utf8

/-! Items of a request: one variable to archive with what the caller wants to
override. A structured request is a JSON array of them. -/

namespace ArchiveIntake

/-- One variable to archive. That a period is present is what asks for an override. -/
structure ArchiveSpec where
  pv : String
  period : Option RawPeriod := none
  method : Option String := none
  controllingPv : Option String := none
  policy : Option String := none
  aliasName : Option String := none
deriving DecidableEq

namespace ArchiveSpec

def overridesPolicy (spec : ArchiveSpec) : Bool := spec.period.isSome

/-- The method asked for; none means `MONITOR`. -/
def requestedMethod (spec : ArchiveSpec) : Except AdmissionError SamplingMethod :=
  match spec.method with
  | some text => SamplingMethod.ofNameAnyCase text
  | none => .ok .monitor

def requestedPeriod (spec : ArchiveSpec) : Except AdmissionError (Option Single) :=
  match spec.period with
  | some raw => raw.seconds.map some
  | none => .ok none

end ArchiveSpec

namespace RawPeriod

def toJson : RawPeriod → Json.Value
  | .number value => .double value
  | .text value => .string value

/-- A number or a text. Any other value is read to its end before it is refused. -/
def ofNode (depth : Nat) (node : Json.Node) : Json.Decoded RawPeriod :=
  if node.loadable depth then
    match node with
    | .number spelled =>
      match spelled.value? with
      | some value => .ok (.number value.toDouble)
      | none => .error .malformed
    | .string (some spelled) => .ok (.text spelled)
    | _ => .error (.noVariant "RawSamplingPeriod")
  else .error .malformed

end RawPeriod

namespace ArchiveSpec

/-- The members that are present, in the order of the fields. -/
def toJson (spec : ArchiveSpec) : Json.Value :=
  let text := fun (key : String) (value : Option String) =>
    value.toList.map fun value => (key, Json.Value.string value)
  .object <|
    ("pv", .string spec.pv) ::
      spec.period.toList.map (fun period => ("samplingperiod", period.toJson)) ++
      text "samplingmethod" spec.method ++ text "controllingPV" spec.controllingPv ++
      text "policy" spec.policy ++ text "alias" spec.aliasName

/-- How an item is written. A period may hold containers up to `depth` deep. -/
def shape (depth : Nat) : Json.Shape where
  name := "struct ArchiveSpec"
  fields := [
    .of "pv" Json.Node.asText true,
    .of "samplingperiod" (Json.Node.asOptional (RawPeriod.ofNode depth)) false,
    .of "samplingmethod" (Json.Node.asOptional Json.Node.asText) false,
    .of "controllingPV" (Json.Node.asOptional Json.Node.asText) false,
    .of "policy" (Json.Node.asOptional Json.Node.asText) false,
    .of "alias" (Json.Node.asOptional Json.Node.asText) false]
  closed := false

def ofNode (depth : Nat) (node : Json.Node) : Json.Decoded ArchiveSpec := do
  let fields ← (shape depth).read node
  return {
    pv := ← fields.need "pv" Json.Node.asText
    period := ← fields.optional "samplingperiod" (Json.Node.asOptional (RawPeriod.ofNode depth))
    method := ← fields.optional "samplingmethod" (Json.Node.asOptional Json.Node.asText)
    controllingPv := ← fields.optional "controllingPV" (Json.Node.asOptional Json.Node.asText)
    policy := ← fields.optional "policy" (Json.Node.asOptional Json.Node.asText)
    aliasName := ← fields.optional "alias" (Json.Node.asOptional Json.Node.asText) }

def maxDepth : Nat := 127

end ArchiveSpec

/-- Reads a structured request. The array and the item around a period count
towards the depth. -/
def parseStructured (body : List UInt8) : Except AdmissionError (List ArchiveSpec) :=
  let document := Json.Document.ofChars (Text.Utf8.decode body)
  match document.decode (Json.Node.asList (ArchiveSpec.ofNode (ArchiveSpec.maxDepth - 2))) with
  | .ok specs => .ok specs
  | .error e => .error (.malformed (.json e))

end ArchiveIntake
