/-! Binary floating point numbers, exactly. The magnitudes of a format are
numbered in increasing order: rank 0 is zero and `Format.infinity` is infinity.
A rank is also the bit pattern of its magnitude, so comparison is comparison of
ranks and writing out the bits needs no arithmetic beyond the sign. Rounding is
to the nearest magnitude, a tie to the even rank. -/

namespace ArchiveIntake

/-- A format with `precision` significant bits whose least positive magnitude is
`2 ^ -scale` and whose exponent field counts up to `binades`. -/
structure Format where
  precision : Nat
  scale : Nat
  binades : Nat
deriving DecidableEq, Repr

namespace Format

def single : Format := ⟨24, 149, 255⟩

def double : Format := ⟨53, 1074, 2047⟩

/-- How many ranks share one exponent. -/
def binade (f : Format) : Nat := Nat.pow 2 (f.precision - 1)

/-- The rank of infinity, above every finite rank. -/
def infinity (f : Format) : Nat := f.binades * f.binade

def signBit (f : Format) : Nat := (f.binades + 1) * f.binade

/-- The magnitude of a finite rank, in units of `2 ^ -scale`. -/
def units (f : Format) (rank : Nat) : Nat :=
  let exponent := rank / f.binade - 1
  (rank - exponent * f.binade) * Nat.pow 2 exponent

/-- The whole number nearest to `numerator / denominator`, a tie going to the even one. -/
def nearestEven (numerator denominator : Nat) : Nat :=
  let quotient := numerator / denominator
  let twice := 2 * (numerator % denominator)
  if denominator < twice ∨ (twice = denominator ∧ quotient % 2 = 1) then quotient + 1 else quotient

/-- The rank nearest to `numerator / denominator`. A significand that rounds up
to the next power of two carries into the exponent by itself. -/
def nearest (f : Format) (numerator denominator : Nat) : Nat :=
  let scaled := numerator * Nat.pow 2 f.scale
  let exponent := (scaled / denominator).log2 + 1 - f.precision
  min (exponent * f.binade + nearestEven scaled (denominator * Nat.pow 2 exponent)) f.infinity

theorem nearest_le_infinity (f : Format) (numerator denominator : Nat) :
    f.nearest numerator denominator ≤ f.infinity := Nat.min_le_right ..

def product (f : Format) (a b : Nat) : Nat :=
  f.nearest (f.units a * f.units b) (Nat.pow 2 (2 * f.scale))

/-- The rank nearest to the quotient of two finite magnitudes, the second not zero. -/
def quotient (f : Format) (a b : Nat) : Nat :=
  f.nearest (f.units a) (f.units b)

end Format

/-- A number of a format: a signed magnitude, or not a number. -/
inductive Binary (f : Format) where
  | nan
  | signed (negative : Bool) (rank : Nat) (bounded : rank ≤ f.infinity)
deriving DecidableEq

/-- A 32 bit number; sampling periods are held as such. -/
abbrev Single := Binary .single

abbrev Double := Binary .double

namespace Binary

variable {f : Format}

def ofRatio (f : Format) (negative : Bool) (numerator denominator : Nat) : Binary f :=
  .signed negative (f.nearest numerator denominator) (f.nearest_le_infinity ..)

def ofInt (f : Format) (n : Int) : Binary f := ofRatio f (n < 0) n.natAbs 1

def infinite (f : Format) (negative : Bool) : Binary f :=
  .signed negative f.infinity (Nat.le_refl _)

def zero (f : Format) (negative : Bool) : Binary f := .signed negative 0 (Nat.zero_le _)

instance : Inhabited (Binary f) := ⟨zero f false⟩

def isFinite : Binary f → Bool
  | .nan => false
  | .signed _ rank _ => rank < f.infinity

/-- The position on the number line, both zeros at the origin. -/
def position : Binary f → Option Int
  | .nan => none
  | .signed true rank _ => some (-rank)
  | .signed false rank _ => some rank

/-- Strictly below; what is not a number is neither below nor above anything. -/
def below (a b : Binary f) : Bool :=
  match a.position, b.position with
  | some x, some y => x < y
  | _, _ => false

/-- Below or equal, the two zeros being equal. -/
def atMost (a b : Binary f) : Bool :=
  match a.position, b.position with
  | some x, some y => x ≤ y
  | _, _ => false

def convert (g : Format) : Binary f → Binary g
  | .nan => .nan
  | .signed negative rank _ =>
    if rank < f.infinity then ofRatio g negative (f.units rank) (Nat.pow 2 f.scale)
    else infinite g negative

def bits : Binary f → Nat
  | .nan => f.infinity + f.binade / 2
  | .signed negative rank _ => (if negative then f.signBit else 0) + rank

@[simp] theorem isFinite_nan : (nan : Binary f).isFinite = false := rfl

/-- One is the number one of either format. -/
example : (ofInt .single 1).bits = 0x3f800000 ∧ (ofInt .double 1).bits = 0x3ff0000000000000 := by
  decide +kernel

example : (ofRatio .single false 1 10).bits = 0x3dcccccd := by decide +kernel

example : (ofInt .single 16777217).bits = 0x4b800000 := by decide +kernel

end Binary
end ArchiveIntake
