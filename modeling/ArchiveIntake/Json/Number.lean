import ArchiveIntake.Number.Decimal

/-! JSON numbers: how they are spelled, and which number is read. A whole number
that fits 64 bits is kept as an integer. Any other is read as a `Double` from the
digits that fit a 64 bit counter and one scaling by a power of ten, so it can be
off by a unit in the last place from the nearest one. -/

namespace ArchiveIntake.Json

/-- A number as spelled: digits, the digits after the point, and the exponent. -/
structure NumberText where
  negative : Bool
  whole : List Nat
  fraction : List Nat
  exponent : Option (Bool × List Nat)
deriving DecidableEq, Repr

inductive Number where
  | natural (value : Nat)
  | negative (value : Int)
  | double (value : Double)
deriving DecidableEq

namespace NumberText

def counterMax : Nat := UInt64.size - 1

/-- Reads digits into the counter while it does not overflow; what is left over is returned. -/
def count : Nat → List Nat → Nat × List Nat
  | n, [] => (n, [])
  | n, d :: rest => if 10 * n + d ≤ counterMax then count (10 * n + d) rest else (n, d :: rest)

/-- The greatest power of ten that one scaling step applies. -/
def maxScaling : Nat := 308

/-- Division by `10 ^ exponent`, in steps of at most `10 ^ 308`. Three steps bring
any counter to zero, so no more are made. -/
def scaleDown : Nat → Nat → Nat → Nat
  | 0, rank, _ => rank
  | steps + 1, rank, exponent =>
    if exponent ≤ maxScaling then
      Format.double.quotient rank (Decimal.rank .double 1 exponent)
    else if rank = 0 then rank
    else
      scaleDown steps (Format.double.quotient rank (Decimal.rank .double 1 maxScaling))
        (exponent - maxScaling)

/-- The double for `significand * 10 ^ exponent`, unless it is too great. -/
def scale (negative : Bool) (significand : Nat) (exponent : Int) : Option Double :=
  let start := Format.double.nearest significand 1
  let rank :=
    if significand = 0 then some 0
    else if exponent < 0 then some (scaleDown 4 start exponent.natAbs)
    else if exponent ≤ maxScaling then
      let rank := Format.double.product start (Decimal.rank .double 1 exponent)
      if rank < Format.double.infinity then some rank else none
    else none
  rank.bind fun rank =>
    if bounded : rank ≤ Format.double.infinity then some (.signed negative rank bounded) else none

def writtenExponent (n : NumberText) : Int :=
  match n.exponent with
  | none => 0
  | some (negative, digits) =>
    let size : Int := Decimal.ofDigits digits
    if negative then -size else size

/-- The number read, unless it is too great for a double. Digits that no longer
fit the counter count as zeros before the point and are dropped after it. -/
def value? (n : NumberText) : Option Number :=
  let (whole, dropped) := count 0 n.whole
  let isInteger := dropped.isEmpty ∧ n.fraction.isEmpty ∧ n.exponent.isNone
  if isInteger ∧ ¬n.negative then some (.natural whole)
  else if isInteger ∧ 0 < whole ∧ whole ≤ UInt64.size / 2 then some (.negative (-(whole : Int)))
  else
    let (significand, rest) := count whole n.fraction
    let counted := n.fraction.length - rest.length
    (scale n.negative significand (n.writtenExponent + dropped.length - counted)).map .double

end NumberText

/-- A number as a double, an integer being rounded to the nearest. -/
def Number.toDouble : Number → Double
  | .natural n => .ofInt .double n
  | .negative n => .ofInt .double n
  | .double value => value

end ArchiveIntake.Json
