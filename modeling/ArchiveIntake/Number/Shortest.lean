import ArchiveIntake.Number.Decimal

/-! Writing binary numbers with the fewest decimal digits that read back as the
same number. For one digit, two digits and so on, the two neighbours of the
number on that decimal grid are tried; the first grid with a neighbour that reads
back wins, and of two such neighbours the nearer one. -/

namespace ArchiveIntake

/-- Which of two equally near decimals is written. -/
inductive Tie where
  | up
  | even
deriving DecidableEq, Repr

namespace Shortest

/-- The `e` with `10 ^ e ≤ numerator / denominator < 10 ^ (e + 1)`, for a positive quotient. -/
def decimalExponent (numerator denominator : Nat) : Int :=
  if denominator ≤ numerator then (Nat.toDigits 10 (numerator / denominator)).length - 1
  else -((Nat.toDigits 10 ((denominator - 1) / numerator)).length : Int)

/-- The neighbour to write on the grid of multiples of `10 ^ grid`, if one reads back. -/
def onGrid (f : Format) (tie : Tie) (rank : Nat) (grid : Int) : Option (Nat × Int) :=
  let numerator := f.units rank * Nat.pow 10 (-grid).toNat
  let denominator := Nat.pow 2 f.scale * Nat.pow 10 grid.toNat
  let lower := numerator / denominator
  let twice := 2 * (numerator % denominator)
  let readsBack := fun digits => Decimal.rank f digits grid == rank
  let nearer :=
    if twice < denominator then lower
    else if denominator < twice then lower + 1
    else
      match tie with
      | .up => lower + 1
      | .even => if lower % 2 = 0 then lower else lower + 1
  if readsBack lower && readsBack (lower + 1) then some (nearer, grid)
  else if readsBack lower then some (lower, grid)
  else if readsBack (lower + 1) then some (lower + 1, grid)
  else none

def stripZeros : Nat → Nat × Int → Nat × Int
  | 0, value => value
  | fuel + 1, (digits, exponent) =>
    if digits ≠ 0 ∧ digits % 10 = 0 then stripZeros fuel (digits / 10, exponent + 1)
    else (digits, exponent)

/-- The shortest digits of a finite positive rank and the power of ten they count.
A format never needs as many digits as it has bits. -/
def decimal (f : Format) (tie : Tie) (rank : Nat) : Nat × Int :=
  let top := decimalExponent (f.units rank) (Nat.pow 2 f.scale)
  let found := (List.range f.precision).findSome? fun (count : Nat) => onGrid f tie rank (top - count)
  stripZeros f.precision (found.getD (0, 0))

end Shortest

namespace Binary

variable {f : Format}

private def zeros (count : Int) : List Char := List.replicate count.toNat '0'

private def withPoint (digits : List Char) (places : Nat) : List Char :=
  digits.take (digits.length - places) ++ '.' :: digits.drop (digits.length - places)

/-- Shortest digits without an exponent however large or small the number is, a
tie going up; whole numbers have no point. -/
def positional : Binary f → String
  | .nan => "NaN"
  | .signed negative rank _ =>
    let sign := if negative then ['-'] else []
    String.ofList <| sign ++
      if rank = 0 then ['0']
      else if rank = f.infinity then "inf".toList
      else
        let (significand, exponent) := Shortest.decimal f .up rank
        let digits := Nat.toDigits 10 significand
        if 0 ≤ exponent then digits ++ zeros exponent
        else if -exponent < digits.length then withPoint digits (-exponent).toNat
        else '0' :: '.' :: zeros (-exponent - digits.length) ++ digits

private def signedExponent (exponent : Int) : List Char :=
  (if exponent < 0 then '-' else '+') :: Nat.toDigits 10 exponent.natAbs

/-- Shortest digits with a point at least, a tie going to the even digit. The
point stands among the digits for magnitudes from `1e-5` up to `1e+16`; outside
that range one digit stands before it and a signed exponent after. -/
def pointed : Binary f → String
  | .nan => "NaN"
  | .signed negative rank _ =>
    let sign := if negative then ['-'] else []
    String.ofList <| sign ++
      if rank = 0 then "0.0".toList
      else if rank = f.infinity then "inf".toList
      else
        let (significand, exponent) := Shortest.decimal f .even rank
        let digits := Nat.toDigits 10 significand
        let point := digits.length + exponent
        if 0 ≤ exponent ∧ point ≤ 16 then digits ++ zeros exponent ++ ".0".toList
        else if 0 < point ∧ point ≤ 16 then withPoint digits (-exponent).toNat
        else if -5 < point ∧ point ≤ 0 then '0' :: '.' :: zeros (-point) ++ digits
        else
          let mantissa := if digits.length = 1 then digits else withPoint digits (digits.length - 1)
          mantissa ++ 'e' :: signedExponent (point - 1)

example : (ofRatio .single false 1 10).positional = "0.1" := by decide +kernel

example : (ofInt .single (-10000000000)).positional = "-10000000000" := by decide +kernel

example : (ofRatio .double false 3 2).pointed = "1.5" := by decide +kernel

example : (ofInt .double (10 ^ 16)).pointed = "1e+16" := by decide +kernel

example : (ofRatio .double false 1 (10 ^ 7)).pointed = "1e-7" := by decide +kernel

end Binary
end ArchiveIntake
