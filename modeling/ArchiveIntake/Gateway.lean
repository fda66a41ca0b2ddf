import ArchiveIntake.Http.Message
import ArchiveIntake.PlainRequest.Form
import ArchiveIntake.Record.Json
import ArchiveIntake.Workflow

/-! The gateway: which requests it serves and what it answers. A request to archive
is structured if its content is JSON; otherwise it is a plain request made of the
query, a form in the body, or a list of variables as the body. -/

namespace ArchiveIntake.Gateway

inductive Route where
  | archive
  | pending
  | health
  | info
deriving DecidableEq, Repr

namespace Route

def all : List Route := [.archive, .pending, .health, .info]

def path : Route → String
  | .archive => "/mgmt/bpl/archivePV"
  | .pending => "/mgmt/bpl/pendingRequests"
  | .health => "/api/v1/health"
  | .info => "/api/v1/info"

def ofPath? (path : String) : Option Route := all.find? fun route => route.path = path

/-- Everything is read, and only requests to archive are posted too. -/
def allows (route : Route) (method : String) : Bool :=
  method = "GET" || method = "HEAD" || (route = .archive && method = "POST")

end Route

def name : String := "pvarch-gateway"

def version : String := "0.1.0"

def maxBodySize : Nat := 2 * 1024 * 1024

structure Refusal where
  status : Nat
  message : String
deriving DecidableEq, Repr

namespace Refusal

/-- Errors of the request are the client's, all others the gateway's. -/
def ofError (e : AdmissionError) : Refusal :=
  match e with
  | .invalidName _ | .malformed _ | .unknownMethod _ | .invalidPeriod _ => ⟨400, e.message⟩
  | .submission _ _ | .collaborator _ => ⟨500, e.message⟩

def ofFailure (failure : Failure) : Refusal := ⟨500, failure.message⟩

def repeated (place : String) (parameter : Parameter) : String :=
  "Failed to deserialize " ++ place ++ ": duplicate field `" ++ parameter.name ++ "`"

def tooLarge : Refusal := ⟨413, "Failed to buffer the request body: length limit exceeded"⟩

def response (refusal : Refusal) : Http.Response :=
  ⟨refusal.status, .json (.object [
    ("error", .string refusal.message), ("code", .natural refusal.status)])⟩

end Refusal

inductive Submitted where
  | structured (body : List UInt8)
  | plain (request : PlainRequest)
deriving DecidableEq

def jsonType : String := "application/json"

def formType : String := "application/x-www-form-urlencoded"

def body (request : Http.Request) : Except Refusal (List UInt8) :=
  if request.body.length ≤ maxBodySize then .ok request.body else .error .tooLarge

/-- The bytes of the form that comes with a request: the query of a reading
request, and otherwise the body. A request for the head has its form in the body. -/
def form (request : Http.Request) : Except Refusal (List UInt8) :=
  if request.method = "GET" then .ok (Text.Utf8.encode request.query) else body request

/-- A parameter repeated in the form: a posted body that cannot be processed, and
otherwise a bad request. -/
def Refusal.repeatedInForm (method : String) (parameter : Parameter) : Refusal :=
  if method = "GET" ∨ method = "HEAD" then ⟨400, repeated "form" parameter⟩
  else ⟨422, repeated "form body" parameter⟩

def formRequest (request : Http.Request) : Except Refusal PlainRequest := do
  match PlainRequest.ofForm (← form request) with
  | .ok plain => return plain
  | .error parameter => throw (.repeatedInForm request.method parameter)

/-- A plain request whose variables stand in the body, if the body has to say them. -/
def withBody (plain : PlainRequest) (body : List UInt8) : PlainRequest :=
  if plain.pv.isNone && !body.isEmpty then { plain with pv := some (Text.Utf8.lossy body) }
  else plain

def submitted (query : PlainRequest) (request : Http.Request) : Except Refusal Submitted := do
  if request.hasContentType formType then return .plain (query.merge (← formRequest request))
  let body ← body request
  if request.hasContentType jsonType then return .structured body
  return .plain (withBody query body)

def admitAll (defaultPeriod : Single) : Submitted → Attempt (List ArchiveOutcome)
  | .structured body => archiveStructured defaultPeriod body
  | .plain request => archivePlain defaultPeriod request

def outcomes (outcomes : List ArchiveOutcome) : Http.Response :=
  ⟨200, .json (.array (outcomes.map ArchiveOutcome.toJson))⟩

/-- Answers a request to archive. A parameter repeated in the query is refused
before anything else is looked at. -/
def archive (defaultPeriod : Single) (request : Http.Request) : Program Http.Response :=
  match PlainRequest.ofForm (Text.Utf8.encode request.query) with
  | .error parameter => return ⟨400, .text (Refusal.repeated "query string" parameter)⟩
  | .ok query =>
    match submitted query request with
    | .error refusal => return refusal.response
    | .ok submitted => do
      match ← ExceptT.run (admitAll defaultPeriod submitted) with
      | .ok results => return outcomes results
      | .error e => return (Refusal.ofError e).response

def pending : Program Http.Response := do
  match ← Program.request .pendingNames with
  | .ok names => return ⟨200, .json (.strings names)⟩
  | .error failure => return (Refusal.ofFailure failure).response

def health : Http.Response := ⟨200, .json (.object [("status", .string "ok")])⟩

def info (config : AdmissionConfig) : Program Http.Response := do
  match ← ExceptT.run minimumPeriod with
  | .error e => return (Refusal.ofError e).response
  | .ok minimum =>
    match ← Program.request .activeCount with
    | .error failure => return (Refusal.ofFailure failure).response
    | .ok active =>
      let waiting ← Program.request .queueLength
      return ⟨200, .json (.object [
        ("name", .string name),
        ("version", .string version),
        ("defaultMonitorSamplingPeriod", .single config.defaultPeriod),
        ("minimumSamplingPeriod", .single minimum),
        ("standardFields", .strings config.standardFields),
        ("activePVs", .natural active),
        ("pendingRequests", .natural waiting)])⟩

def serve (config : AdmissionConfig) (request : Http.Request) : Route → Program Http.Response
  | .archive => archive config.defaultPeriod request
  | .pending => pending
  | .health => return health
  | .info => info config

/-- Answers a request. Questions about what other sites may ask are answered for
every path; a request for the head runs the reading request and drops its content. -/
def respond (config : AdmissionConfig) (request : Http.Request) : Program Http.Response :=
  if request.method = "OPTIONS" then return .empty 200
  else
    match Route.ofPath? request.path with
    | none => return .empty 404
    | some route =>
      if route.allows request.method then do
        let response ← serve config request route
        return if request.method = "HEAD" then response.withoutContent else response
      else return .empty 405

end ArchiveIntake.Gateway
