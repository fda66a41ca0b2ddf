import ArchiveIntake.Number.Decimal

/-! Numbers as clients and configuration files spell them: an optional sign, then
`inf`, `infinity` or `nan` in any case, or digits with an optional point and an
optional exponent. At least one digit stands before or after the point. -/

namespace ArchiveIntake

inductive LiteralError where
  | empty
  | invalid
deriving DecidableEq, Repr

def LiteralError.message : LiteralError → String
  | .empty => "cannot parse float from empty string"
  | .invalid => "invalid float literal"

/-- A number as written, before it is rounded to a format. -/
inductive Literal where
  | nan
  | infinity (negative : Bool)
  | decimal (value : Decimal)
deriving DecidableEq, Repr

namespace Literal

def takeSign : List Char → Bool × List Char
  | '-' :: rest => (true, rest)
  | '+' :: rest => (false, rest)
  | cs => (false, cs)

/-- The exponent part, which takes up the rest of the text. -/
def exponent? : List Char → Option Int
  | [] => some 0
  | c :: rest =>
    if c = 'e' ∨ c = 'E' then
      let (negative, rest) := takeSign rest
      match Text.takeDigits rest with
      | ([], _) => none
      | (digits, []) =>
        let size : Int := Decimal.ofDigits digits
        some (if negative then -size else size)
      | _ => none
    else none

def decimal? (negative : Bool) (cs : List Char) : Option Decimal :=
  let (whole, rest) := Text.takeDigits cs
  let (fraction, rest) :=
    match rest with
    | '.' :: after => Text.takeDigits after
    | rest => ([], rest)
  if whole.isEmpty ∧ fraction.isEmpty then none
  else
    (exponent? rest).map fun exponent =>
      ⟨negative, Decimal.ofDigits (whole ++ fraction), exponent - fraction.length⟩

def ofChars? (cs : List Char) : Except LiteralError Literal :=
  if cs.isEmpty then .error .empty
  else
    let (negative, body) := takeSign cs
    let word := body.map Char.toLower
    if word = "inf".toList ∨ word = "infinity".toList then .ok (.infinity negative)
    else if word = "nan".toList then .ok .nan
    else
      match decimal? negative body with
      | some value => .ok (.decimal value)
      | none => .error .invalid

def toBinary (f : Format) : Literal → Binary f
  | .nan => .nan
  | .infinity negative => .infinite f negative
  | .decimal value => value.toBinary f

end Literal

/-- Reads a number and rounds it once, directly to the format. -/
def Binary.read (f : Format) (text : String) : Except LiteralError (Binary f) :=
  (Literal.ofChars? text.toList).map (Literal.toBinary f)

example : (Binary.read .single "1e-45").toOption.map Binary.bits = some 1 := by decide +kernel

example : (Binary.read .single ".5").toOption.map Binary.bits = some 0x3f000000 := by decide +kernel

example : (Binary.read .single ".").toOption = none := by decide +kernel

example : (Binary.read .single "-INF").toOption = some (.infinite .single true) := by decide +kernel

end ArchiveIntake
