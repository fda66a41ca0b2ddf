import ArchiveIntake.Failure
import ArchiveIntake.Number.Shortest
import ArchiveIntake.Text.Blank

/-! How a variable is sampled: the method, and the period as a caller states it. -/

namespace ArchiveIntake

inductive SamplingMethod where
  /-- Take a value every period. -/
  | scan
  /-- Take every change, at most one a period. -/
  | monitor
deriving DecidableEq, Repr, Inhabited

namespace SamplingMethod

def name : SamplingMethod → String
  | .scan => "SCAN"
  | .monitor => "MONITOR"

def ofName (text : String) : Except AdmissionError SamplingMethod :=
  if text = "SCAN" then .ok .scan
  else if text = "MONITOR" then .ok .monitor
  else .error (.unknownMethod text)

/-- The method of that name in any case; an error shows the name in upper case. -/
def ofNameAnyCase (text : String) : Except AdmissionError SamplingMethod :=
  ofName (String.ofList (text.toList.map Char.toUpper))

end SamplingMethod

/-- A sampling period as supplied, as a number or as a text. -/
inductive RawPeriod where
  | number (value : Double)
  | text (value : String)
deriving DecidableEq

/-- The period in seconds. A text may stand between blanks and is rounded once; a
number has been rounded to a double before. -/
def RawPeriod.seconds (raw : RawPeriod) : Except AdmissionError Single := do
  let value ←
    match raw with
    | .number value => pure (value.convert .single)
    | .text written =>
      match Binary.read .single (Text.trim written) with
      | .ok value => pure value
      | .error _ => throw (.invalidPeriod written)
  if value.isFinite then pure value else throw (.invalidPeriod value.positional)

namespace RawPeriod

/-- A period that is not finite is refused. -/
def checked (value : Single) : Except AdmissionError Single :=
  if value.isFinite then .ok value else .error (.invalidPeriod value.positional)

theorem checked_cases (value : Single) :
    checked value = .ok value ∧ value.isFinite = true ∨
      checked value = .error (.invalidPeriod value.positional) ∧ value.isFinite = false := by
  unfold checked
  cases value.isFinite
  · exact .inr ⟨rfl, rfl⟩
  · exact .inl ⟨rfl, rfl⟩

theorem seconds_number (value : Double) : (number value).seconds = checked (value.convert .single) := rfl

theorem seconds_text {written : String} {value : Single}
    (read : Binary.read .single (Text.trim written) = .ok value) : (text written).seconds = checked value := by
  simp only [seconds, read]
  rfl

theorem seconds_of_unread {written : String} {e : LiteralError}
    (unread : Binary.read .single (Text.trim written) = .error e) :
    (text written).seconds = .error (.invalidPeriod written) := by
  simp only [seconds, unread]
  rfl

end RawPeriod
end ArchiveIntake
