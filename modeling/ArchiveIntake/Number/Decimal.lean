import ArchiveIntake.Number.Binary
import ArchiveIntake.Text.Digit

/-! Decimal numbers with an exponent, and their nearest binary numbers. An
exponent written in a text may be arbitrarily large; one beyond the range of the
format is settled without raising ten to it. -/

namespace ArchiveIntake

/-- The value `± significand * 10 ^ exponent`. -/
structure Decimal where
  negative : Bool
  significand : Nat
  exponent : Int
deriving DecidableEq, Repr

namespace Decimal

/-- The rank nearest to a decimal magnitude. Above `10 ^ binades` every magnitude
is infinite, and below `2 ^ -(scale + 1)` every one is zero. -/
def rank (f : Format) (significand : Nat) (exponent : Int) : Nat :=
  if significand = 0 then 0
  else if exponent > f.binades then f.infinity
  else if -exponent > f.scale + 2 + significand.log2 then 0
  else f.nearest (significand * Nat.pow 10 exponent.toNat) (Nat.pow 10 (-exponent).toNat)

theorem rank_le_infinity (f : Format) (significand : Nat) (exponent : Int) :
    rank f significand exponent ≤ f.infinity := by
  unfold rank
  split
  · omega
  · split
    · omega
    · split
      · omega
      · exact f.nearest_le_infinity ..

def toBinary (f : Format) (d : Decimal) : Binary f :=
  .signed d.negative (rank f d.significand d.exponent) (rank_le_infinity ..)

/-- The value of a list of decimal digits, most significant first. -/
def ofDigits (digits : List Nat) : Nat := digits.foldl (fun n d => 10 * n + d) 0

end Decimal

end ArchiveIntake
