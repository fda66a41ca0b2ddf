import ArchiveIntake.Http.Form
import ArchiveIntake.PlainRequest

/-! Plain requests as forms. Each parameter may be given once; names that are no
parameter are passed over. -/

namespace ArchiveIntake

inductive Parameter where
  | pv
  | period
  | method
  | controllingPv
  | policy
deriving DecidableEq, Repr

namespace Parameter

def all : List Parameter := [.pv, .period, .method, .controllingPv, .policy]

def name : Parameter → String
  | .pv => "pv"
  | .period => "samplingperiod"
  | .method => "samplingmethod"
  | .controllingPv => "controllingPV"
  | .policy => "policy"

def ofName? (name : String) : Option Parameter := all.find? fun parameter => parameter.name = name

theorem mem_all (parameter : Parameter) : parameter ∈ all := by cases parameter <;> decide

@[simp] theorem ofName?_name (parameter : Parameter) : ofName? parameter.name = some parameter := by
  cases parameter <;> decide

end Parameter

namespace PlainRequest

def get (request : PlainRequest) : Parameter → Option String
  | .pv => request.pv
  | .period => request.period
  | .method => request.method
  | .controllingPv => request.controllingPv
  | .policy => request.policy

def set (request : PlainRequest) (parameter : Parameter) (value : String) : PlainRequest :=
  match parameter with
  | .pv => { request with pv := some value }
  | .period => { request with period := some value }
  | .method => { request with method := some value }
  | .controllingPv => { request with controllingPv := some value }
  | .policy => { request with policy := some value }

@[simp] theorem get_set (request : PlainRequest) (set asked : Parameter) (value : String) :
    (request.set set value).get asked = if asked = set then some value else request.get asked := by
  cases set <;> cases asked <;> rfl

/-- One pair of a form; fails with a parameter that is given again. -/
def takePair (request : PlainRequest) (pair : String × String) : Except Parameter PlainRequest :=
  match Parameter.ofName? pair.1 with
  | none => .ok request
  | some parameter =>
    if (request.get parameter).isSome then .error parameter
    else .ok (request.set parameter pair.2)

def ofPairs (pairs : List (String × String)) : Except Parameter PlainRequest :=
  pairs.foldlM takePair {}

def ofForm (bytes : List UInt8) : Except Parameter PlainRequest := ofPairs (Http.Form.decode bytes)

/-- The pairs of a request, in the order of the parameters. -/
def pairs (request : PlainRequest) : List (String × String) :=
  Parameter.all.filterMap fun parameter =>
    (request.get parameter).map fun value => (parameter.name, value)

end PlainRequest
end ArchiveIntake
