import ArchiveIntake.Json.Value
import ArchiveIntake.Text.Split

/-! Requests to the gateway and its responses. -/

namespace ArchiveIntake.Http

/-- A request. The target is as sent, with the query and whatever follows it. -/
structure Request where
  method : String
  target : String
  headers : List (String × String)
  body : List UInt8
deriving DecidableEq, Repr

inductive Content where
  | text (value : String)
  | json (value : Json.Value)

structure Response where
  status : Nat
  content : Content

namespace Response

def empty (status : Nat) : Response := ⟨status, .text ""⟩

def withoutContent (response : Response) : Response := .empty response.status

end Response

namespace Target

def withoutFragment (target : List Char) : List Char :=
  match Text.cut '#' target with
  | some (before, _) => before
  | none => target

/-- What follows the scheme and the authority of an absolute target. -/
def relative (target : List Char) : List Char :=
  match target with
  | '/' :: _ => target
  | _ =>
    match Text.cut ':' target with
    | some (_, '/' :: '/' :: rest) =>
      match rest.dropWhile fun c => c ≠ '/' && c ≠ '?' with
      | '/' :: path => '/' :: path
      | query => '/' :: query
    | _ => target

def split (target : String) : List Char × Option (List Char) :=
  let target := relative (withoutFragment target.toList)
  match Text.cut '?' target with
  | some (path, query) => (path, some query)
  | none => (target, none)

end Target

namespace Request

def path (request : Request) : String := String.ofList (Target.split request.target).1

def query (request : Request) : List Char := (Target.split request.target).2.getD []

/-- The first header of a name, whose letters may be of either case. -/
def header? (request : Request) (name : String) : Option String :=
  let lower := fun (text : String) => text.toList.map Char.toLower
  (request.headers.find? fun header => lower header.1 == lower name).map (·.2)

def isHeaderChar (c : Char) : Bool := c == '\t' || (0x20 ≤ c.toNat && c.toNat < 0x7F)

/-- Whether the content type, if it is readable, begins with a media type. -/
def hasContentType (request : Request) (mediaType : String) : Bool :=
  match request.header? "content-type" with
  | some value => value.toList.all isHeaderChar && mediaType.toList.isPrefixOf value.toList
  | none => false

end Request
end ArchiveIntake.Http
