import ArchiveIntake.Json.Node
import ArchiveIntake.Number.Shortest

/-! Decoding what was read into typed values. The first fault in the order of the
text is reported. A record is written as an object, whose members may stand in
any order among unknown ones, or as an array of its fields. -/

namespace ArchiveIntake.Json

/-- A value that stands where another type was expected. -/
inductive Found where
  | null
  | bool (value : Bool)
  | integer (value : Int)
  | double (value : Double)
  | string (value : String)
  | sequence
  | map
deriving DecidableEq

inductive DecodeError where
  /-- The text is not JSON, or breaks off. -/
  | malformed
  | missingField (name : String)
  | duplicateField (name : String)
  | unknownField (name : String)
  | unknownVariant (name : String)
  | wrongType (found : Found) (expected : String)
  | wrongLength (length : Nat) (expected : String)
  | outOfRange
  | noVariant (name : String)
deriving DecidableEq

abbrev Decoded := Except DecodeError

namespace Node

mutual

/-- Whether a value whose content does not matter is complete. -/
def skippable : Node → Bool
  | .unreadable => false
  | .array items => skippableItems items
  | .object members => skippableMembers members
  | _ => true

def skippableItems : List Node → Bool
  | [] => true
  | item :: rest => item.skippable && skippableItems rest

def skippableMembers : List (Option String × Node) → Bool
  | [] => true
  | (_, value) :: rest => value.skippable && skippableMembers rest

end

mutual

/-- Whether a value can be taken in whole: it is complete, its texts are valid,
its numbers are in range and containers are nested at most `depth` deep. -/
def loadable (depth : Nat) : Node → Bool
  | .unreadable => false
  | .null | .bool _ => true
  | .number text => text.value?.isSome
  | .string text => text.isSome
  | .array items =>
    match depth with
    | 0 => false
    | depth + 1 => loadableItems depth items
  | .object members =>
    match depth with
    | 0 => false
    | depth + 1 => loadableMembers depth members

def loadableItems (depth : Nat) : List Node → Bool
  | [] => true
  | item :: rest => item.loadable depth && loadableItems depth rest

def loadableMembers (depth : Nat) : List (Option String × Node) → Bool
  | [] => true
  | (key, value) :: rest => key.isSome && value.loadable depth && loadableMembers depth rest

end

/-- The error of a value that is not of the expected type. A list or an object is
refused at its opening bracket, anything else when it has been read. -/
def mismatch (expected : String) : Node → DecodeError
  | .null => .wrongType .null expected
  | .bool b => .wrongType (.bool b) expected
  | .number text =>
    match text.value? with
    | none => .malformed
    | some (.natural n) => .wrongType (.integer n) expected
    | some (.negative n) => .wrongType (.integer n) expected
    | some (.double d) => .wrongType (.double d) expected
  | .string none => .malformed
  | .string (some text) => .wrongType (.string text) expected
  | .array _ => .wrongType .sequence expected
  | .object _ => .wrongType .map expected
  | .unreadable => .malformed

def asText : Node → Decoded String
  | .string (some text) => .ok text
  | node => .error (node.mismatch "a string")

def asBool : Node → Decoded Bool
  | .bool b => .ok b
  | node => .error (node.mismatch "a boolean")

/-- A number as a 32 bit one: an integer is rounded once, a decimal twice. -/
def asSingle : Node → Decoded Single
  | .number text =>
    match text.value? with
    | none => .error .malformed
    | some (.natural n) => .ok (.ofInt .single n)
    | some (.negative n) => .ok (.ofInt .single n)
    | some (.double d) => .ok (d.convert .single)
  | node => .error (node.mismatch "f32")

def asNatural (bound : Nat) : Node → Decoded Nat
  | .number text =>
    match text.value? with
    | some (.natural n) => if n ≤ bound then .ok n else .error .outOfRange
    | some (.negative _) => .error .outOfRange
    | _ => .error ((Node.number text).mismatch "an integer")
  | node => .error (node.mismatch "an integer")

/-- `null` stands for no value. -/
def asOptional (decode : Node → Decoded α) : Node → Decoded (Option α)
  | .null => .ok none
  | node => (decode node).map some

def asList (decode : Node → Decoded α) : Node → Decoded (List α)
  | .array items => items.mapM decode
  | node => .error (node.mismatch "a sequence")

/-- One of a list of names, alone or as the only key of an object that maps it to `null`. -/
def asVariant (variants : List (String × α)) (node : Node) : Decoded α :=
  let choose := fun name =>
    match variants.lookup name with
    | some value => .ok value
    | none => .error (.unknownVariant name)
  match node with
  | .string (some name) => choose name
  | .object [(some name, .null)] => choose name
  | .object _ => .error .malformed
  | node => .error (node.mismatch "a variant")

end Node

/-- A field of a record. One that is not required may be left out at the end of
the array form. -/
structure Field where
  name : String
  check : Node → Decoded Unit
  required : Bool

/-- A record as it is written. A closed one refuses keys it does not know. -/
structure Shape where
  name : String
  fields : List Field
  closed : Bool

def Field.of (name : String) (decode : Node → Decoded α) (required : Bool) : Field :=
  ⟨name, fun node => (decode node).map fun _ => (), required⟩

/-- The nodes of the known fields that are present. -/
abbrev Fields := List (String × Node)

namespace Shape

/-- The members of an object. A repeated field is refused at its second key. -/
def ofMembers (shape : Shape) : Fields → List (Option String × Node) → Decoded Fields
  | seen, [] => .ok seen
  | _, (none, _) :: _ => .error .malformed
  | seen, (some key, value) :: rest =>
    match shape.fields.find? (·.name == key) with
    | some field =>
      if (seen.lookup key).isSome then .error (.duplicateField key)
      else
        match field.check value with
        | .error e => .error e
        | .ok () => ofMembers shape ((key, value) :: seen) rest
    | none =>
      if shape.closed then .error (.unknownField key)
      else if value.skippable then ofMembers shape seen rest
      else .error .malformed

def ofItems (shape : Shape) : Nat → List Field → List Node → Decoded Fields
  | _, [], [] => .ok []
  | _, [], _ :: _ => .error .malformed
  | index, field :: fields, [] =>
    if field.required then
      .error (.wrongLength index s!"{shape.name} with {shape.fields.length} elements")
    else ofItems shape (index + 1) fields []
  | index, field :: fields, node :: rest =>
    match field.check node with
    | .error e => .error e
    | .ok () => (ofItems shape (index + 1) fields rest).map ((field.name, node) :: ·)

def read (shape : Shape) : Node → Decoded Fields
  | .object members => shape.ofMembers [] members
  | .array items => shape.ofItems 0 shape.fields items
  | node => .error (node.mismatch shape.name)

end Shape

namespace Fields

def need (fields : Fields) (name : String) (decode : Node → Decoded α) : Decoded α :=
  match fields.lookup name with
  | none => .error (.missingField name)
  | some node => decode node

def optional (fields : Fields) (name : String) (decode : Node → Decoded (Option α)) :
    Decoded (Option α) :=
  match fields.lookup name with
  | none => .ok none
  | some node => decode node

end Fields

/-- Decodes a whole text; nothing but space may follow the value. -/
def Document.decode (document : Document) (decode : Node → Decoded α) : Decoded α :=
  match decode document.root with
  | .error e => .error e
  | .ok value => if document.trailing then .error .malformed else .ok value

end ArchiveIntake.Json
