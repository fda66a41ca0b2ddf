import ArchiveIntake.Toml.Text

/-! Dates and times of a settings file, as their normal text: a `T` between date and
time, at most nine places of a second and none that is zero at the end, `Z` or hours
and minutes for the offset. -/

namespace ArchiveIntake.Toml

open Text

def fixedDigits : Nat → Reader (List Char)
  | 0 => return []
  | count + 1 => do return (← Reader.one Char.isDigit) :: (← fixedDigits count)

def numberOf (digits : List Char) : Nat :=
  digits.foldl (fun n c => 10 * n + (c.toNat - '0'.toNat)) 0

def twoDigits (least greatest : Nat) : Reader (List Char) := do
  let digits ← fixedDigits 2
  if least ≤ numberOf digits ∧ numberOf digits ≤ greatest then return digits else failure

def isLeapYear (year : Nat) : Bool := year % 4 = 0 && (year % 100 ≠ 0 || year % 400 = 0)

def daysIn (year month : Nat) : Nat :=
  if month = 2 then if isLeapYear year then 29 else 28
  else if month = 4 ∨ month = 6 ∨ month = 9 ∨ month = 11 then 30
  else 31

def date : Reader (List Char) := do
  let year ← fixedDigits 4
  Reader.char '-'
  let month ← twoDigits 1 12
  Reader.char '-'
  let day ← twoDigits 1 (daysIn (numberOf year) (numberOf month))
  return year ++ '-' :: month ++ '-' :: day

/-- The places of a second, with the point before them unless none is left. -/
def secondPlaces : Reader (List Char) := do
  Reader.char '.'
  let digits ← Reader.spanSome Char.isDigit
  let places := ((digits.take 9).reverse.dropWhile (· == '0')).reverse
  return if places.isEmpty then [] else '.' :: places

/-- A time of day; a second may be a leap second. -/
def time : Reader (List Char) := do
  let hour ← twoDigits 0 23
  Reader.char ':'
  let minute ← twoDigits 0 59
  Reader.char ':'
  let second ← twoDigits 0 60
  let places ← Reader.optional secondPlaces
  return hour ++ ':' :: minute ++ ':' :: second ++ places.getD []

/-- The offset of a time; one of no minutes is positive. -/
def offset : Reader (List Char) :=
  (do let _ ← Reader.one (fun c => c == 'Z' || c == 'z'); return ['Z']) <|> do
    let sign ← Reader.one fun c => c == '+' || c == '-'
    let hour ← twoDigits 0 23
    Reader.char ':'
    let minute ← twoDigits 0 59
    let sign := if numberOf hour = 0 ∧ numberOf minute = 0 then '+' else sign
    return sign :: hour ++ ':' :: minute

def timeOfDate : Reader (List Char) := do
  let _ ← Reader.one fun c => c == 'T' || c == 't' || c == ' '
  let time ← time
  let offset ← Reader.optional offset
  return 'T' :: time ++ offset.getD []

def dateTime : Reader String := do
  let text ←
    (do
      let date ← date
      let time ← Reader.optional timeOfDate
      return date ++ time.getD []) <|> time
  return String.ofList text

end ArchiveIntake.Toml
