import ArchiveIntake.Proofs.Number.Rounding

/-! How much rounding changes. A number that is not too small for its format is changed by a factor close to
one, and so are products and quotients of such numbers. Two numbers that are close to each other are rounded
to the same rank or to neighbours, and to neighbours only if the middle of these stands between them. -/

namespace ArchiveIntake

/-- Two magnitudes that differ by no more than a factor. -/
def Within (factor x y : ℚ) : Prop := x ≤ factor * y ∧ y ≤ factor * x

/-- Two magnitudes that are close to each other, or both tiny. -/
def Near (factor tiny x y : ℚ) : Prop := Within factor x y ∨ x ≤ tiny ∧ y ≤ tiny

namespace Within
variable {factor other x y z a b : ℚ}

theorem refl (least : 1 ≤ factor) (nonneg : 0 ≤ x) : Within factor x x :=
  ⟨le_mul_of_one_le_left nonneg least, le_mul_of_one_le_left nonneg least⟩

theorem trans (nonneg : 0 ≤ factor) (nonnegOther : 0 ≤ other) (first : Within factor x y)
    (second : Within other y z) : Within (factor * other) x z := by
  refine ⟨first.1.trans ?_, second.2.trans ?_⟩
  · rw [mul_assoc]
    exact mul_le_mul_of_nonneg_left second.1 nonneg
  · rw [mul_comm factor, mul_assoc]
    exact mul_le_mul_of_nonneg_left first.2 nonnegOther

theorem mono (less : factor ≤ other) (nonneg : 0 ≤ x) (nonnegRight : 0 ≤ y) (near : Within factor x y) :
    Within other x y :=
  ⟨near.1.trans (mul_le_mul_of_nonneg_right less nonnegRight),
    near.2.trans (mul_le_mul_of_nonneg_right less nonneg)⟩

theorem mul (nonneg : 0 ≤ x) (nonnegRight : 0 ≤ y) (nonnegOther : 0 ≤ a) (nonnegLast : 0 ≤ b)
    (first : Within factor x y) (second : Within other a b) : Within (factor * other) (x * a) (y * b) := by
  constructor
  · rw [mul_mul_mul_comm]
    exact mul_le_mul first.1 second.1 nonnegOther (nonneg.trans first.1)
  · rw [mul_mul_mul_comm]
    exact mul_le_mul first.2 second.2 nonnegLast (nonnegRight.trans first.2)

theorem mul_right (nonneg : 0 ≤ a) (near : Within factor x y) : Within factor (x * a) (y * a) := by
  rw [Within, ← mul_assoc, ← mul_assoc]
  exact ⟨mul_le_mul_of_nonneg_right near.1 nonneg, mul_le_mul_of_nonneg_right near.2 nonneg⟩

theorem inv (positive : 0 < x) (positiveRight : 0 < y) (near : Within factor x y) :
    Within factor x⁻¹ y⁻¹ := by
  constructor
  · rw [← div_eq_mul_inv, inv_eq_one_div, div_le_div_iff₀ positive positiveRight, one_mul]
    exact near.2
  · rw [← div_eq_mul_inv, inv_eq_one_div, div_le_div_iff₀ positiveRight positive, one_mul]
    exact near.1

theorem div (nonneg : 0 ≤ x) (nonnegRight : 0 ≤ y) (positive : 0 < a) (positiveRight : 0 < b)
    (first : Within factor x y) (second : Within other a b) : Within (factor * other) (x / a) (y / b) := by
  rw [div_eq_mul_inv, div_eq_mul_inv]
  exact first.mul nonneg nonnegRight (inv_nonneg.mpr positive.le) (inv_nonneg.mpr positiveRight.le)
    (second.inv positive positiveRight)

end Within

namespace Format
variable {f : Format} {x y : ℚ} {rank other : Nat}

/-- Two numbers on either side of the middle above a rank, one of which may be on it. -/
structure Separates (f : Format) (rank : Nat) (x y : ℚ) : Prop where
  less : x < y
  below : x ≤ f.middle rank
  above : f.middle rank ≤ y

theorem binade_mul_gap_le (normal : f.binade ≤ rank) : f.binade * f.gap rank ≤ f.value rank := by
  obtain ⟨exponent, significand, parts, normalParts, small, same⟩ := f.exists_parts rank
  have least : (f.binade : ℚ) ≤ significand := by
    rcases normalParts with rfl | least
    · rw [parts] at normal
      exact_mod_cast (by omega : f.binade ≤ significand)
    · exact_mod_cast least
  rw [gap, same, parts, value_of_parts normalParts small.le]
  gcongr

theorem value_succ_le (rank : Nat) : f.value (rank + 1) ≤ 2 * f.binade * f.gap rank := by
  obtain ⟨exponent, significand, parts, normalParts, small, same⟩ := f.exists_parts rank
  have most : (significand + 1 : Nat) ≤ 2 * (f.binade : ℚ) := by exact_mod_cast small
  rw [gap, same, parts, Nat.add_assoc, value_of_parts (by omega) (by omega)]
  gcongr

namespace RoundsTo

/-- A number of a full binade is changed by no more than one unit of its last place. -/
theorem within (rounds : f.RoundsTo x rank) (normal : f.value f.binade ≤ x) (finite : rank < f.infinity) :
    Within (1 + 1 / f.binade) x (f.value rank) := by
  have positive : (0 : ℚ) < f.binade := by exact_mod_cast f.binade_pos
  have one : (1 : ℚ) ≤ f.binade := by exact_mod_cast f.binade_pos
  have full : f.binade ≤ rank := by
    refine rounds.le_of_value_le normal ?_
    have binades : 0 < f.binades := Nat.pos_of_ne_zero fun zero => by
      rw [infinity, zero, Nat.zero_mul] at finite
      exact Nat.not_lt_zero _ finite
    exact Nat.le_mul_of_pos_left _ binades
  have above := rounds.above finite
  have unit := binade_mul_gap_le full
  obtain ⟨lower, rfl⟩ : ∃ lower, rank = lower + 1 := ⟨rank - 1, by have := f.binade_pos; omega⟩
  have below := rounds.below lower (Nat.lt_succ_self lower)
  have step := f.value_succ lower
  have gaps := f.gap_mono (Nat.le_succ lower)
  have least := f.gap_pos lower
  rw [middle_eq] at above below
  generalize f.value (lower + 1) = v at *
  generalize f.gap (lower + 1) = g at *
  generalize f.gap lower = h at *
  have part : g ≤ v / f.binade := by
    rw [le_div_iff₀ positive]
    linarith
  have small : v / f.binade ≤ v := div_le_self (by nlinarith) one
  have half : v / f.binade / 2 ≤ x / f.binade := by
    rw [div_div, mul_comm, ← div_div]
    gcongr
    linarith
  constructor
  · rw [add_mul, one_mul, one_div_mul_eq_div]
    linarith
  · rw [add_mul, one_mul, one_div_mul_eq_div]
    linarith

/-- Numbers that are closer to each other than neighbouring ranks are not rounded further apart than those. -/
theorem le_succ {factor : ℚ} (rounds : f.RoundsTo x rank) (roundsOther : f.RoundsTo y other)
    (close : y ≤ factor * x) (fine : (factor - 1) * (2 * f.binade) < 1) (least : 1 ≤ factor) :
    other ≤ rank + 1 := by
  by_contra far
  have bounded := roundsOther.bounded
  have above := rounds.above (by omega)
  have below := roundsOther.below (rank + 1) (by omega)
  have next := f.value_succ rank
  have top := value_succ_le (f := f) rank
  have gaps := f.gap_mono (Nat.le_succ rank)
  have positive := f.gap_pos rank
  rw [middle_eq] at above below
  have rest : (factor - 1) * x ≤ (factor - 1) * (2 * f.binade) * f.gap rank := by
    rw [mul_assoc]
    exact mul_le_mul_of_nonneg_left (by linarith) (by linarith)
  have less := mul_lt_mul_of_pos_right fine positive
  linarith

/-- Two numbers near each other are rounded alike, or to neighbours with the middle between the numbers. -/
theorem apart {factor tiny : ℚ} (rounds : f.RoundsTo x rank) (roundsOther : f.RoundsTo y other)
    (near : Near factor tiny x y) (least : 1 ≤ factor) (fine : (factor - 1) * (2 * f.binade) < 1)
    (small : tiny ≤ f.middle 0) :
    rank = other ∨ other = rank + 1 ∧ f.Separates rank x y ∨
      rank = other + 1 ∧ f.Separates other y x := by
  have separated {x y : ℚ} {rank other : Nat} (rounds : f.RoundsTo x rank) (roundsOther : f.RoundsTo y other)
      (less : rank < other) : f.Separates rank x y := by
    have below := rounds.above (less.trans_le roundsOther.bounded)
    have above := roundsOther.below rank less
    refine ⟨lt_of_le_of_ne (below.trans above) fun same => ?_, below, above⟩
    exact less.ne (rounds.unique (same ▸ roundsOther))
  rcases near with near | ⟨tinyLeft, tinyRight⟩
  · have most := rounds.le_succ roundsOther near.2 fine least
    have mostOther := roundsOther.le_succ rounds near.1 fine least
    rcases Nat.lt_trichotomy rank other with less | same | greater
    · exact .inr (.inl ⟨by omega, separated rounds roundsOther less⟩)
    · exact .inl same
    · exact .inr (.inr ⟨by omega, separated roundsOther rounds greater⟩)
  · left
    rw [rounds.unique (roundsTo_zero (tinyLeft.trans small)),
      roundsOther.unique (roundsTo_zero (tinyRight.trans small))]

end RoundsTo

theorem product_roundsTo (precise : 1 < f.precision) (rank other : Nat) :
    f.RoundsTo (f.value rank * f.value other) (f.product rank other) := by
  have same : (f.value rank * f.value other : ℚ) =
      (f.units rank * f.units other : Nat) / (Nat.pow 2 (2 * f.scale) : Nat) := by
    simp only [value, Nat.pow_eq]
    push_cast
    rw [div_mul_div_comm, ← pow_add, ← two_mul]
  rw [same]
  exact nearest_roundsTo _ precise (Nat.two_pow_pos _)

theorem quotient_roundsTo (precise : 1 < f.precision) (rank : Nat) (positive : 0 < f.value other) :
    f.RoundsTo (f.value rank / f.value other) (f.quotient rank other) := by
  have nonzero : 0 < f.units other := Nat.pos_of_ne_zero fun zero => by
    rw [value, zero, Nat.cast_zero, zero_div] at positive
    exact lt_irrefl _ positive
  have same : (f.value rank / f.value other : ℚ) = f.units rank / f.units other := by
    simp only [value]
    exact div_div_div_cancel_right₀ (by positivity) _ _
  rw [same]
  exact nearest_roundsTo _ precise nonzero

theorem quotient_le (precise : 1 < f.precision) (rank : Nat) (least : 1 ≤ f.value other) :
    f.quotient rank other ≤ rank :=
  (quotient_roundsTo precise rank (one_pos.trans_le least)).le_of_le_value
    (div_le_self (f.value_nonneg rank) least)

/-! Doubles. -/

section Doubles

theorem double_precise : 1 < double.precision := by decide

theorem double_value {exponent significand : Nat} (normal : double.binade ≤ significand)
    (bounded : significand ≤ 2 * double.binade) :
    double.value (exponent * double.binade + significand) = significand * 2 ^ (exponent - 1074 : Int) := by
  have scale : (2 ^ double.scale : ℚ) = 2 ^ (1074 : Int) := by rw [← zpow_natCast]; rfl
  rw [Format.value_of_parts (.inr normal) bounded, scale, ← zpow_natCast, ← zpow_sub₀ (by norm_num)]

theorem double_two_pow (exponent : Nat) :
    double.value (exponent * double.binade + double.binade) = 2 ^ (exponent - 1022 : Int) := by
  have binade : (double.binade : ℚ) = 2 ^ (52 : Int) := by norm_num [double, Format.binade]
  rw [double_value le_rfl (by omega), binade, ← zpow_add₀ (by norm_num)]
  congr 1
  ring

variable {x : ℚ} {rank : Nat}

theorem double_within (rounds : double.RoundsTo x rank) (normal : double.value double.binade ≤ x)
    (finite : rank < double.infinity) : Within (1 + 1 / 2 ^ 52) x (double.value rank) := by
  have near := rounds.within normal finite
  rwa [show (double.binade : ℚ) = 2 ^ 52 by norm_num [double, Format.binade]] at near

theorem double_one : double.value (1022 * double.binade + double.binade) = 1 := by
  rw [double_two_pow]
  norm_num

theorem double_normal_of_one_le (one : 1 ≤ x) : double.value double.binade ≤ x :=
  (double.value_strictMono.monotone (by decide)).trans (double_one.trans_le one)

theorem double_of_one_le (top : Nat) (rounds : double.RoundsTo x rank) (one : 1 ≤ x)
    (most : x ≤ double.value top) (finite : top < double.infinity) :
    rank < double.infinity ∧ 1 ≤ double.value rank ∧ Within (1 + 1 / 2 ^ 52) x (double.value rank) := by
  have inside : rank < double.infinity := (rounds.le_of_le_value most).trans_lt finite
  have least : 1022 * double.binade + double.binade ≤ rank :=
    rounds.le_of_value_le (double_one.trans_le one) (by decide)
  exact ⟨inside, double_one ▸ double.value_strictMono.monotone least,
    double_within rounds (double_normal_of_one_le one) inside⟩

end Doubles

end Format
end ArchiveIntake
