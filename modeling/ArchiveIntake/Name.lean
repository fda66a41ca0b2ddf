import ArchiveIntake.Failure
import ArchiveIntake.Table
import ArchiveIntake.Text.Split

/-! Names of process variables. A name may end in a field after its first point:
`VAL` means the variable itself, a field of the catalog is archived together with
it, and any other field makes a variable of its own. A name may also begin with
the mark of the newer protocol, which is kept for look-ups and dropped from the
key of the queue. -/

namespace ArchiveIntake

/-- The fields that are archived together with their variable. -/
abbrev Catalog := NameSet

inductive FieldPart where
  | none
  /-- A field of the catalog, taken off the name. -/
  | standard (name : String)
  /-- Any other field, which stays in the name. -/
  | other (name : String)
deriving DecidableEq, Repr

/-- A name that passed the syntax check, as it is looked up and reported. -/
structure NormalizedName where
  baseName : String
  field : FieldPart
deriving DecidableEq, Repr

namespace Name

/-- The mark of a variable served over the newer protocol. -/
def protocolMark : List Char := "pva://".toList

/-- The field that means the variable itself. -/
def valueField : String := "VAL"

/-- The text after the first point, unless it is empty. -/
def field? (raw : String) : Option String :=
  match Text.cut '.' raw.toList with
  | some (_, c :: rest) => some (String.ofList (c :: rest))
  | _ => none

def stripField (raw : String) : String :=
  match Text.cut '.' raw.toList with
  | some (record, _) => String.ofList record
  | none => raw

def isNameChar (c : Char) : Bool :=
  c.isAlphanum || "_-+:[]<>;.,/\\#\x7b\x7d^".toList.contains c

def isValid (name : String) : Bool := !name.toList.isEmpty && name.toList.all isNameChar

/-- The key a request is queued under: the name without one leading mark. -/
def queueKey (baseName : String) : String :=
  if protocolMark.isPrefixOf baseName.toList then
    String.ofList (baseName.toList.drop protocolMark.length)
  else baseName

/-- Takes `VAL` or a field of the catalog off a name. -/
def split (catalog : Catalog) (raw : String) : NormalizedName :=
  match field? raw with
  | none => ⟨raw, .none⟩
  | some field =>
    if field = valueField then ⟨stripField raw, .none⟩
    else if catalog.contains field then ⟨stripField raw, .standard field⟩
    else ⟨raw, .other field⟩

def normalize (catalog : Catalog) (raw : String) : Except AdmissionError NormalizedName :=
  let name := split catalog raw
  if isValid name.baseName then .ok name else .error (.invalidName name.baseName)

end Name

namespace NormalizedName

/-- The field named in the request, other than `VAL`. -/
def fieldName (name : NormalizedName) : Option String :=
  match name.field with
  | .none => none
  | .standard field => some field
  | .other field => some field

def isStandardField (name : NormalizedName) : Bool :=
  match name.field with
  | .standard _ => true
  | _ => false

/-- The field to archive together with the variable. -/
def standardField (name : NormalizedName) : Option String :=
  match name.field with
  | .standard field => some field
  | _ => none

def isMarked (name : NormalizedName) : Bool :=
  Name.protocolMark.isPrefixOf name.baseName.toList

def queueKey (name : NormalizedName) : String := Name.queueKey name.baseName

end NormalizedName
end ArchiveIntake
