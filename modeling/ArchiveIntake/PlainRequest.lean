import ArchiveIntake.Spec
import ArchiveIntake.Text.Split

/-! Plain requests: a list of variables in one text and one set of parameters for
all of them. The parameters are checked before any variable is looked at. -/

namespace ArchiveIntake

structure PlainRequest where
  pv : Option String := none
  period : Option String := none
  method : Option String := none
  controllingPv : Option String := none
  policy : Option String := none
deriving DecidableEq, Repr

namespace PlainRequest

/-- Fills in what is missing from another request. -/
def merge (request other : PlainRequest) : PlainRequest where
  pv := request.pv.or other.pv
  period := request.period.or other.period
  method := request.method.or other.method
  controllingPv := request.controllingPv.or other.controllingPv
  policy := request.policy.or other.policy

/-- An empty text counts as absent. -/
def nonEmpty (value : Option String) : Option String := value.filter (· ≠ "")

/-- The entries of a list of variables: between commas and line ends, without the
blanks around them, blank ones left out. -/
def entries (list : String) : List String :=
  ((Text.pieces (fun c => c = ',' || c = '\n') list.toList).map Text.trimChars).filterMap
    fun entry => if entry.isEmpty then none else some (String.ofList entry)

/-- The shared period, which has to be a number if it is given. -/
def sharedPeriod (request : PlainRequest) : Except AdmissionError (Option RawPeriod) :=
  match nonEmpty request.period with
  | none => .ok none
  | some text => (RawPeriod.seconds (.text text)).map fun _ => some (.text text)

/-- The shared method, which has to be spelled exactly. -/
def sharedMethod (request : PlainRequest) : Except AdmissionError (Option String) :=
  match request.method with
  | none => .ok none
  | some text => (SamplingMethod.ofName text).map fun method => some method.name

def specs (request : PlainRequest) : Except AdmissionError (List ArchiveSpec) := do
  let some list := request.pv | throw (.malformed .missingPv)
  let period ← request.sharedPeriod
  let method ← request.sharedMethod
  let names := entries list
  if names.isEmpty then throw (.malformed .emptyPvList)
  return names.map fun pv => {
    pv
    period
    method
    controllingPv := nonEmpty request.controllingPv
    policy := nonEmpty request.policy }

end PlainRequest
end ArchiveIntake
