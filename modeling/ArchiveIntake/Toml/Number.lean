import ArchiveIntake.Number.Decimal
import ArchiveIntake.Toml.Text

/-! Numbers of a settings file. Single underscores may stand between digits, a whole
number in decimal begins with no zero of its own, and whole numbers fit 64 bits with
a sign. -/

namespace ArchiveIntake.Toml

open Text

def digitBelow (base : Nat) : Reader Nat := do
  let digit ← Reader.check (hexValue? (← Reader.one fun _ => true))
  if digit < base then return digit else failure

/-- Further digits, an underscore allowed before each. -/
def moreDigits (base : Nat) : Reader (List Nat) :=
  Reader.many ((do Reader.char '_'; digitBelow base) <|> digitBelow base)

def digits (base : Nat) : Reader (List Nat) := do
  let first ← digitBelow base
  return first :: (← moreDigits base)

/-- Decimal digits of a whole part: zero, or digits that do not begin with it. -/
def wholeDigits : Reader (List Nat) := do
  let first ← digitBelow 10
  if first = 0 then return [0] else return first :: (← moreDigits 10)

def sign : Reader Bool := do
  match ← Reader.optional (Reader.one fun c => c == '+' || c == '-') with
  | some '-' => return true
  | _ => return false

def ofDigits (base : Nat) (digits : List Nat) : Nat := digits.foldl (fun n d => base * n + d) 0

/-- A whole number after the letters that name its base. -/
def integerIn (base : Nat) (mark : Char) : Reader Int := do
  Reader.word ['0', mark]
  return ofDigits base (← digits base)

def decimalInteger : Reader Int := do
  let negative ← sign
  let size : Int := ofDigits 10 (← wholeDigits)
  return if negative then -size else size

def integer : Reader Int := do
  let value ← integerIn 16 'x' <|> integerIn 8 'o' <|> integerIn 2 'b' <|> decimalInteger
  if Int64.minValue.toInt ≤ value ∧ value ≤ Int64.maxValue.toInt then return value else failure

def fraction : Reader (List Nat) := do
  Reader.char '.'
  digits 10

def exponent : Reader Int := do
  let _ ← Reader.one fun c => c == 'e' || c == 'E'
  let negative ← sign
  let size : Int := ofDigits 10 (← digits 10)
  return if negative then -size else size

/-- A number with a fraction or an exponent. One too large for a double is refused
unless it is negative. -/
def decimalFloat : Reader Double := do
  let negative ← sign
  let whole ← wholeDigits
  let (fraction, exponent) ←
    (do return ([], ← exponent)) <|>
      (do return (← fraction, (← Reader.optional exponent).getD 0))
  let value := Decimal.toBinary .double
    ⟨negative, ofDigits 10 (whole ++ fraction), exponent - fraction.length⟩
  if value = .infinite .double false then failure else return value

def namedFloat : Reader Double := do
  let negative ← sign
  (do Reader.word ['i', 'n', 'f']; return .infinite .double negative) <|>
    (do Reader.word ['n', 'a', 'n']; return .nan)

def float : Reader Double := decimalFloat <|> namedFloat

end ArchiveIntake.Toml
