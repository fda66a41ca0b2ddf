import ArchiveIntake.Number.Decimal
import Mathlib.Algebra.Order.Field.Power
import Mathlib.Algebra.Order.Field.Rat
import Mathlib.Tactic.FieldSimp
import Mathlib.Tactic.Linarith
import Mathlib.Tactic.Positivity
import Mathlib.Tactic.Ring

/-! What it means to round to a format. Every rank has a value, the values go up with the ranks, and between
two neighbours there is a middle. The rank nearest to a number is the one with the number between the middles
around it; on a middle it is the even one. There is one such rank for each number, and the number cannot be
far from its value. -/

namespace ArchiveIntake

namespace Format
variable {f : Format} {x : ℚ} {rank other exponent significand : Nat}

/-- The magnitude of a rank. The one that infinity stands for is where the next binade would begin. -/
def value (f : Format) (rank : Nat) : ℚ := f.units rank / 2 ^ f.scale

/-- How far above a rank the next one is. -/
def gap (f : Format) (rank : Nat) : ℚ := 2 ^ (rank / f.binade - 1) / 2 ^ f.scale

/-- The number halfway between a rank and the next one. -/
def middle (f : Format) (rank : Nat) : ℚ := (f.value rank + f.value (rank + 1)) / 2

theorem binade_pos (f : Format) : 0 < f.binade := Nat.two_pow_pos _

/-- The units of a rank that is given by its parts. A significand may be that of the next power of two. -/
theorem units_of_parts (normal : exponent = 0 ∨ f.binade ≤ significand)
    (bounded : significand ≤ 2 * f.binade) :
    f.units (exponent * f.binade + significand) = significand * 2 ^ exponent := by
  have positive := f.binade_pos
  rcases Nat.lt_or_eq_of_le bounded with small | carried
  · have same : (exponent * f.binade + significand) / f.binade - 1 = exponent := by
      rw [Nat.mul_comm, Nat.mul_add_div positive]
      rcases normal with rfl | normal
      · have quotient : significand / f.binade < 2 := (Nat.div_lt_iff_lt_mul positive).mpr small
        omega
      · have quotient : significand / f.binade = 1 := Nat.div_eq_of_lt_le (by omega) (by omega)
        omega
    simp only [units, same, Nat.add_sub_cancel_left]
    rfl
  · subst carried
    have next : (exponent * f.binade + 2 * f.binade) / f.binade - 1 = exponent + 1 := by
      rw [← Nat.add_mul, Nat.mul_div_cancel _ positive]
      omega
    have rest : exponent * f.binade + 2 * f.binade - (exponent + 1) * f.binade = f.binade := by
      rw [Nat.add_mul, Nat.one_mul]
      omega
    simp only [units, next, rest]
    change f.binade * 2 ^ (exponent + 1) = _
    rw [Nat.pow_succ]
    ac_rfl

/-- A rank in parts: the gap above it is one unit of its significand. -/
theorem exists_parts (f : Format) (rank : Nat) :
    ∃ exponent significand, rank = exponent * f.binade + significand ∧
      (exponent = 0 ∨ f.binade ≤ significand) ∧ significand < 2 * f.binade ∧
      rank / f.binade - 1 = exponent := by
  have positive := f.binade_pos
  have division := Nat.div_add_mod rank f.binade
  have small := Nat.mod_lt rank positive
  rcases Nat.eq_zero_or_pos (rank / f.binade) with zero | up
  · exact ⟨0, rank, by omega, .inl rfl, by rw [zero] at division; omega, by omega⟩
  · refine ⟨rank / f.binade - 1, f.binade + rank % f.binade, ?_, .inr (by omega), by omega, rfl⟩
    obtain ⟨quotient, same⟩ : ∃ quotient, rank / f.binade = quotient + 1 := ⟨_, (Nat.sub_add_cancel up).symm⟩
    rw [same, Nat.mul_add, Nat.mul_comm] at division
    rw [same, Nat.add_sub_cancel]
    omega

theorem value_of_parts (normal : exponent = 0 ∨ f.binade ≤ significand)
    (bounded : significand ≤ 2 * f.binade) :
    f.value (exponent * f.binade + significand) = significand * (2 ^ exponent / 2 ^ f.scale) := by
  rw [value, units_of_parts normal bounded]
  push_cast
  ring

theorem gap_pos (f : Format) (rank : Nat) : 0 < f.gap rank := by unfold gap; positivity

theorem value_succ (f : Format) (rank : Nat) : f.value (rank + 1) = f.value rank + f.gap rank := by
  obtain ⟨exponent, significand, parts, normal, small, same⟩ := f.exists_parts rank
  rw [gap, same, parts, Nat.add_assoc, value_of_parts (by omega) (by omega), value_of_parts normal small.le]
  push_cast
  ring

theorem middle_eq (f : Format) (rank : Nat) : f.middle rank = f.value rank + f.gap rank / 2 := by
  rw [middle, value_succ]
  ring

theorem value_strictMono (f : Format) : StrictMono f.value :=
  strictMono_nat_of_lt_succ fun rank => by rw [value_succ]; linarith [f.gap_pos rank]

theorem value_zero (f : Format) : f.value 0 = 0 := by simp [value, units]

theorem value_nonneg (f : Format) (rank : Nat) : 0 ≤ f.value rank := by unfold value; positivity

theorem gap_mono (f : Format) : Monotone f.gap := fun rank other least => by
  unfold gap
  have exponents : rank / f.binade - 1 ≤ other / f.binade - 1 :=
    Nat.sub_le_sub_right (Nat.div_le_div_right least) 1
  gcongr
  norm_num

theorem middle_strictMono (f : Format) : StrictMono f.middle := fun rank other less => by
  have values := f.value_strictMono less
  have next := f.value_strictMono (Nat.succ_lt_succ less)
  simp only [middle, Nat.succ_eq_add_one] at *
  linarith

theorem value_lt_middle (f : Format) (rank : Nat) : f.value rank < f.middle rank := by
  rw [middle_eq]
  linarith [f.gap_pos rank]

theorem middle_lt_value (less : rank < other) : f.middle rank < f.value other := by
  have least := f.value_strictMono.monotone (Nat.succ_le_of_lt less)
  rw [Nat.succ_eq_add_one, value_succ] at least
  rw [middle_eq]
  linarith [f.gap_pos rank]

theorem middle_zero (f : Format) : f.middle 0 = 1 / 2 ^ (f.scale + 1) := by
  rw [middle_eq, value_zero, gap, Nat.zero_div, pow_succ]
  ring

/-- The rank of the magnitude nearest to a number. -/
structure RoundsTo (f : Format) (x : ℚ) (rank : Nat) : Prop where
  bounded : rank ≤ f.infinity
  above : rank < f.infinity → x ≤ f.middle rank
  below : ∀ lower < rank, f.middle lower ≤ x
  even : ∀ lower, x = f.middle lower → rank % 2 = 0

namespace RoundsTo

theorem unique (rounds : f.RoundsTo x rank) (again : f.RoundsTo x other) : rank = other := by
  have ordered {low high : Nat} (first : f.RoundsTo x low) (second : f.RoundsTo x high) : ¬low < high := by
    intro less
    have above := first.above (less.trans_le second.bounded)
    have tie : x = f.middle low := le_antisymm above (second.below low less)
    have next : x = f.middle (high - 1) :=
      le_antisymm (above.trans (f.middle_strictMono.monotone (by omega))) (second.below _ (by omega))
    have neighbours : low = high - 1 := f.middle_strictMono.injective (tie.symm.trans next)
    have evenLow := first.even low tie
    have evenHigh := second.even low tie
    omega
  have least := ordered rounds again
  have greatest := ordered again rounds
  omega

theorem le_of_le_value (rounds : f.RoundsTo x rank) (least : x ≤ f.value other) : rank ≤ other := by
  by_contra less
  have below := rounds.below other (by omega)
  linarith [f.value_lt_middle other]

theorem le_of_value_le (rounds : f.RoundsTo x rank) (least : f.value other ≤ x)
    (finite : other ≤ f.infinity) : other ≤ rank := by
  by_contra less
  have above := rounds.above (by omega)
  have beyond : f.middle rank < f.value other := middle_lt_value (by omega)
  linarith

end RoundsTo

/-! Rounding a quotient. -/

section Nearest
variable (numerator : Nat) {denominator : Nat}

theorem nearestEven_spec (positive : 0 < denominator) :
    (numerator / denominator : ℚ) ≤ nearestEven numerator denominator + 1 / 2 ∧
      (nearestEven numerator denominator : ℚ) - 1 / 2 ≤ numerator / denominator ∧
      ((numerator / denominator : ℚ) = nearestEven numerator denominator + 1 / 2 ∨
          (numerator / denominator : ℚ) = nearestEven numerator denominator - 1 / 2 →
        nearestEven numerator denominator % 2 = 0) := by
  have division := Nat.div_add_mod numerator denominator
  have small := Nat.mod_lt numerator positive
  have cast : (0 : ℚ) < denominator := by exact_mod_cast positive
  generalize quotient : numerator / denominator = whole at division
  generalize remainder : numerator % denominator = rest at division small
  have parts : (numerator : ℚ) = denominator * whole + rest := by exact_mod_cast division.symm
  have exact : (numerator / denominator : ℚ) = whole + rest / denominator := by
    rw [parts]
    field_simp
  have part : (rest / denominator : ℚ) * denominator = rest := by field_simp
  simp only [nearestEven, quotient, remainder, exact]
  split
  next up =>
    have half : (denominator : ℚ) ≤ 2 * rest := by
      have least : denominator ≤ 2 * rest := by omega
      exact_mod_cast least
    have least : 1 / 2 ≤ (rest / denominator : ℚ) := by
      rw [le_div_iff₀ cast]
      linarith
    have most : (rest / denominator : ℚ) < 1 := by
      rw [div_lt_one cast]
      exact_mod_cast small
    push_cast
    refine ⟨by linarith, by linarith, ?_⟩
    rintro (far | tie)
    · linarith
    · have twice : (2 * rest : ℚ) = denominator := by nlinarith
      have twice : 2 * rest = denominator := by exact_mod_cast twice
      omega
  next down =>
    have half : (2 * rest : ℚ) ≤ denominator := by
      have most : 2 * rest ≤ denominator := by omega
      exact_mod_cast most
    have most : (rest / denominator : ℚ) ≤ 1 / 2 := by
      rw [div_le_iff₀ cast]
      linarith
    have least : 0 ≤ (rest / denominator : ℚ) := by positivity
    refine ⟨by linarith, by linarith, ?_⟩
    rintro (tie | far)
    · have twice : (2 * rest : ℚ) = denominator := by nlinarith
      have twice : 2 * rest = denominator := by exact_mod_cast twice
      omega
    · linarith

theorem quotient_bounds (precise : 0 < f.precision) (positive : 0 < denominator) :
    let exponent := (numerator / denominator).log2 + 1 - f.precision
    let scaled : ℚ := numerator / (denominator * Nat.pow 2 exponent : Nat)
    scaled < 2 * f.binade ∧ (exponent = 0 ∨ (f.binade : ℚ) ≤ scaled) := by
  intro exponent scaled
  have power : 0 < denominator * Nat.pow 2 exponent := Nat.mul_pos positive (Nat.two_pow_pos _)
  have cast : (0 : ℚ) < (denominator * Nat.pow 2 exponent : Nat) := by exact_mod_cast power
  have binade : 2 * f.binade = 2 ^ f.precision := by
    change 2 * 2 ^ (f.precision - 1) = _
    rw [← Nat.pow_succ', Nat.succ_eq_add_one, Nat.sub_add_cancel precise]
  constructor
  · rw [div_lt_iff₀ cast]
    have digits : numerator / denominator < 2 ^ (f.precision + exponent) :=
      Nat.lt_log2_self.trans_le (Nat.pow_le_pow_right (by decide) (by omega))
    have most : numerator < 2 * f.binade * (denominator * Nat.pow 2 exponent) := by
      rw [binade]
      change _ < 2 ^ f.precision * (denominator * 2 ^ exponent)
      rw [Nat.mul_left_comm, ← Nat.pow_add, Nat.mul_comm]
      exact (Nat.div_lt_iff_lt_mul positive).mp digits
    exact_mod_cast most
  · rcases Nat.eq_zero_or_pos exponent with zero | up
    · exact .inl zero
    · right
      rw [le_div_iff₀ cast]
      have nonzero : numerator / denominator ≠ 0 := by
        intro zero
        simp only [exponent, zero, Nat.log2_zero] at up
        omega
      have digits : 2 ^ (f.precision - 1 + exponent) ≤ numerator / denominator :=
        (Nat.pow_le_pow_right (by decide) (by omega)).trans (Nat.log2_self_le nonzero)
      have least : f.binade * (denominator * Nat.pow 2 exponent) ≤ numerator := by
        change 2 ^ (f.precision - 1) * (denominator * 2 ^ exponent) ≤ _
        rw [Nat.mul_left_comm, ← Nat.pow_add, Nat.mul_comm]
        exact (Nat.le_div_iff_mul_le positive).mp digits
      exact_mod_cast least

theorem even_binade (precise : 1 < f.precision) : f.binade % 2 = 0 := by
  obtain ⟨digits, same⟩ : ∃ digits, f.precision - 1 = digits + 1 := ⟨_, (Nat.sub_add_cancel (by omega)).symm⟩
  change 2 ^ (f.precision - 1) % 2 = 0
  rw [same, Nat.pow_succ, Nat.mul_mod_left]

theorem unit_le_gap (normal : exponent = 0 ∨ f.binade ≤ significand) :
    (2 ^ exponent / 2 ^ f.scale : ℚ) ≤ f.gap (exponent * f.binade + significand) := by
  have quotient : exponent = 0 ∨ exponent + 1 ≤ (exponent * f.binade + significand) / f.binade :=
    normal.imp_right fun normal => by
      rw [Nat.le_div_iff_mul_le f.binade_pos, Nat.add_mul]
      omega
  unfold gap
  gcongr
  · norm_num
  · omega

theorem even_infinity (precise : 1 < f.precision) : f.infinity % 2 = 0 := by
  rw [infinity, Nat.mul_mod, even_binade precise]
  simp

/-- Only the middles next to a rank matter. A rank beyond infinity stands for it. -/
theorem roundsTo_of_neighbours (precise : 1 < f.precision) (above : x ≤ f.middle rank)
    (below : ∀ lower, lower + 1 = rank → f.middle lower ≤ x)
    (tie : (x = f.middle rank ∨ ∃ lower, lower + 1 = rank ∧ x = f.middle lower) → rank % 2 = 0) :
    f.RoundsTo x (min rank f.infinity) := by
  have under (lower : Nat) (less : lower < rank) : f.middle lower ≤ x :=
    (f.middle_strictMono.monotone (show lower ≤ rank - 1 by omega)).trans (below (rank - 1) (by omega))
  refine ⟨Nat.min_le_right .., fun finite => ?_, fun lower less => ?_, fun lower same => ?_⟩
  · rw [Nat.min_eq_left (by omega)]
    exact above
  · exact under lower (by omega)
  · rcases Nat.le_total f.infinity rank with infinite | finite
    · rw [Nat.min_eq_right infinite]
      exact even_infinity precise
    · rw [Nat.min_eq_left finite]
      -- The middles go up, so the number cannot be on one that is further away.
      have least : rank ≤ lower + 1 := by
        by_contra far
        have strict := f.middle_strictMono (show lower < rank - 1 by omega)
        exact (strict.trans_le (under (rank - 1) (by omega))).ne same.symm
      have most : lower ≤ rank := by
        by_contra far
        exact (above.trans_lt (f.middle_strictMono (not_le.mp far))).ne same
      rcases Nat.eq_or_lt_of_le most with rfl | less
      · exact tie (.inl same)
      · exact tie (.inr ⟨lower, by omega, same⟩)

section Significand
variable {wanted : ℚ}

theorem le_middle_of_significand (normal : exponent = 0 ∨ f.binade ≤ significand)
    (bounded : significand ≤ 2 * f.binade) (above : wanted ≤ significand + 1 / 2) :
    wanted * (2 ^ exponent / 2 ^ f.scale) ≤ f.middle (exponent * f.binade + significand) ∧
      (wanted * (2 ^ exponent / 2 ^ f.scale) = f.middle (exponent * f.binade + significand) →
        wanted = significand + 1 / 2) := by
  have positive : (0 : ℚ) < 2 ^ exponent / 2 ^ f.scale := by positivity
  have least := mul_le_mul_of_nonneg_right above positive.le
  have wide := unit_le_gap normal
  rw [middle_eq, value_of_parts normal bounded]
  refine ⟨by linarith, fun same => le_antisymm above (le_of_mul_le_mul_right ?_ positive)⟩
  linarith

/-- Half a unit below a significand there is the middle, but below the first significand of a binade the gap
is only half as wide; no number of the binade is as far down as that. -/
theorem middle_le_of_significand {lower : Nat} (next : lower + 1 = exponent * f.binade + significand)
    (normal : exponent = 0 ∨ f.binade ≤ wanted) (normalSignificand : exponent = 0 ∨ f.binade ≤ significand)
    (bounded : significand ≤ 2 * f.binade) (below : significand - 1 / 2 ≤ wanted) :
    f.middle lower ≤ wanted * (2 ^ exponent / 2 ^ f.scale) ∧
      (wanted * (2 ^ exponent / 2 ^ f.scale) = f.middle lower → wanted = significand - 1 / 2) := by
  have positive : (0 : ℚ) < 2 ^ exponent / 2 ^ f.scale := by positivity
  have value := value_of_parts normalSignificand bounded
  by_cases inner : exponent = 0 ∨ f.binade < significand
  · obtain ⟨before, rfl⟩ : ∃ before, significand = before + 1 := by
      rcases inner with rfl | inner
      · exact ⟨lower, by omega⟩
      · exact ⟨significand - 1, by omega⟩
    obtain rfl : lower = exponent * f.binade + before := by omega
    have wide := unit_le_gap (inner.imp_right Nat.lt_succ_iff.mp)
    have step := f.value_succ (exponent * f.binade + before)
    have least := mul_le_mul_of_nonneg_right below positive.le
    rw [next, value] at step
    rw [middle_eq]
    refine ⟨by linarith, fun same => le_antisymm (le_of_mul_le_mul_right ?_ positive) below⟩
    linarith
  · have first : (significand : ℚ) ≤ wanted := by
      have same : significand = f.binade := by omega
      rw [same]
      exact normal.resolve_left fun zero => inner (.inl zero)
    have least := mul_le_mul_of_nonneg_right first positive.le
    have beyond : f.middle lower < f.value (exponent * f.binade + significand) := middle_lt_value (by omega)
    rw [value] at beyond
    exact ⟨by linarith, fun same => by linarith⟩

/-- A significand that is nearest to the one wanted makes the nearest rank. -/
theorem roundsTo_of_significand (precise : 1 < f.precision) (small : wanted < 2 * f.binade)
    (normal : exponent = 0 ∨ f.binade ≤ wanted) (above : wanted ≤ significand + 1 / 2)
    (below : significand - 1 / 2 ≤ wanted)
    (tie : wanted = significand + 1 / 2 ∨ wanted = significand - 1 / 2 → significand % 2 = 0) :
    f.RoundsTo (wanted * (2 ^ exponent / 2 ^ f.scale))
      (min (exponent * f.binade + significand) f.infinity) := by
  have bounded : significand ≤ 2 * f.binade := by
    have most : (significand : ℚ) < (2 * f.binade + 1 : Nat) := by push_cast; linarith
    exact Nat.lt_succ_iff.mp (by exact_mod_cast most)
  have normalSignificand : exponent = 0 ∨ f.binade ≤ significand := normal.imp_right fun normal => by
    have least : (f.binade : ℚ) < (significand + 1 : Nat) := by push_cast; linarith
    exact Nat.lt_succ_iff.mp (by exact_mod_cast least)
  have parity : (exponent * f.binade + significand) % 2 = significand % 2 := by
    rw [Nat.add_mod, Nat.mul_mod, even_binade precise]
    simp
  have top := le_middle_of_significand normalSignificand bounded above
  have bottom {lower : Nat} (next : lower + 1 = exponent * f.binade + significand) :=
    middle_le_of_significand next normal normalSignificand bounded below
  refine roundsTo_of_neighbours precise top.1 (fun lower next => (bottom next).1) fun onMiddle => ?_
  rw [parity]
  rcases onMiddle with same | ⟨lower, next, same⟩
  · exact tie (.inl (top.2 same))
  · exact tie (.inr ((bottom next).2 same))

end Significand

/-- The nearest rank is what rounding to the format means. -/
theorem nearest_roundsTo (precise : 1 < f.precision) (positive : 0 < denominator) :
    f.RoundsTo (numerator / denominator) (f.nearest numerator denominator) := by
  let scaled := numerator * Nat.pow 2 f.scale
  let exponent := (scaled / denominator).log2 + 1 - f.precision
  let unit := denominator * Nat.pow 2 exponent
  obtain ⟨small, normal⟩ := quotient_bounds (f := f) scaled (by omega) positive
  obtain ⟨above, below, tie⟩ :=
    nearestEven_spec scaled (Nat.mul_pos positive (Nat.two_pow_pos exponent))
  have same : (numerator / denominator : ℚ) = scaled / unit * (2 ^ exponent / 2 ^ f.scale) := by
    have nonzero : (denominator : ℚ) ≠ 0 := by exact_mod_cast positive.ne'
    have parts : (scaled : ℚ) = numerator * 2 ^ f.scale ∧ (unit : ℚ) = denominator * 2 ^ exponent := by
      constructor <;> norm_cast
    rw [parts.1, parts.2]
    field_simp
  rw [same]
  exact roundsTo_of_significand precise small normal above below tie

theorem nearest_value_roundsTo (precise : 1 < f.precision) (source : Format) (rank : Nat) :
    f.RoundsTo (source.value rank) (f.nearest (source.units rank) (Nat.pow 2 source.scale)) := by
  have rounds := nearest_roundsTo (source.units rank) precise (Nat.two_pow_pos source.scale)
  rwa [Nat.cast_pow, Nat.cast_ofNat] at rounds

end Nearest

theorem roundsTo_zero (small : x ≤ f.middle 0) : f.RoundsTo x 0 :=
  ⟨Nat.zero_le _, fun _ => small, fun _ less => absurd less (Nat.not_lt_zero _), fun _ _ => rfl⟩

theorem roundsTo_infinity (precise : 1 < f.precision) (great : f.value f.infinity ≤ x) :
    f.RoundsTo x f.infinity := by
  refine ⟨Nat.le_refl _, fun less => absurd less (Nat.lt_irrefl _), fun _ less => ?_, fun _ _ => ?_⟩
  · exact (middle_lt_value less).le.trans great
  · exact even_infinity precise

/-- No magnitude of a format reaches the power of ten from which on decimals count as infinite. -/
theorem value_infinity_le (deep : f.precision ≤ f.scale) : f.value f.infinity ≤ 10 ^ f.binades := by
  rcases Nat.eq_zero_or_pos f.binades with none | some
  · rw [infinity, none, Nat.zero_mul, value_zero]
    norm_num
  obtain ⟨exponent, same⟩ : ∃ exponent, f.binades = exponent + 1 := ⟨_, (Nat.sub_add_cancel some).symm⟩
  have binade : (f.binade : ℚ) ≤ 2 ^ f.scale := by
    exact_mod_cast Nat.pow_le_pow_right (show 0 < 2 by decide) (show f.precision - 1 ≤ f.scale by omega)
  rw [infinity, same, Nat.add_mul, Nat.one_mul, value_of_parts (.inr le_rfl) (by omega), ← mul_div_assoc,
    div_le_iff₀ (by positivity), mul_comm]
  have powers : (2 : ℚ) ^ exponent ≤ 10 ^ (exponent + 1) :=
    (pow_le_pow_left₀ (by norm_num) (by norm_num) _).trans (pow_le_pow_right₀ (by norm_num) (by omega))
  exact mul_le_mul powers binade (by positivity) (by positivity)

end Format

namespace Decimal
variable {f : Format} {significand : Nat} {exponent : Int}

/-- The number without its sign. -/
def magnitude (d : Decimal) : ℚ := d.significand * 10 ^ d.exponent

theorem magnitude_le_of_far_below (below : -exponent > f.scale + 2 + significand.log2) :
    (significand * 10 ^ exponent : ℚ) ≤ f.middle 0 := by
  obtain ⟨places, rfl⟩ : ∃ places : Nat, exponent = -places := ⟨exponent.natAbs, by omega⟩
  have digits : (significand : ℚ) ≤ 2 ^ (significand.log2 + 1) := by
    exact_mod_cast Nat.lt_log2_self.le
  have far : f.scale + 2 + significand.log2 ≤ places := by omega
  rw [Format.middle_zero, zpow_neg, zpow_natCast, ← div_eq_mul_inv]
  calc (significand / 10 ^ places : ℚ)
      ≤ 2 ^ (significand.log2 + 1) / 2 ^ (f.scale + 2 + significand.log2) := by
        gcongr
        exact (pow_le_pow_right₀ (by norm_num) far).trans (pow_le_pow_left₀ (by norm_num) (by norm_num) _)
    _ = 1 / 2 ^ (f.scale + 1) := by
        rw [div_eq_div_iff (by positivity) (by positivity), ← pow_add, one_mul]
        congr 1
        omega

theorem magnitude_eq_quotient (significand : Nat) (exponent : Int) :
    (significand * 10 ^ exponent : ℚ) =
      (significand * Nat.pow 10 exponent.toNat : Nat) / (Nat.pow 10 (-exponent).toNat : Nat) := by
  have powers : (10 : ℚ) ^ exponent = 10 ^ exponent.toNat / 10 ^ (-exponent).toNat := by
    rw [← zpow_natCast, ← zpow_natCast, ← zpow_sub₀ (by norm_num)]
    congr 1
    omega
  rw [powers, ← mul_div_assoc]
  norm_cast

/-- Every decimal number is rounded to the format, also those beyond its range on either side. -/
theorem rank_roundsTo (precise : 1 < f.precision) (deep : f.precision ≤ f.scale) (significand : Nat)
    (exponent : Int) : f.RoundsTo (significand * 10 ^ exponent) (rank f significand exponent) := by
  unfold rank
  split
  next zero =>
    rw [zero, Nat.cast_zero, zero_mul]
    exact Format.roundsTo_zero ((f.value_nonneg 0).trans (f.value_lt_middle 0).le)
  next nonzero =>
    have one : (1 : ℚ) ≤ significand := by exact_mod_cast Nat.pos_of_ne_zero nonzero
    split
    next above =>
      refine Format.roundsTo_infinity precise ((Format.value_infinity_le deep).trans ?_)
      have power : (10 : ℚ) ^ f.binades ≤ 10 ^ exponent := by
        rw [← zpow_natCast]
        exact zpow_le_zpow_right₀ (by norm_num) (by omega)
      exact power.trans (le_mul_of_one_le_left (by positivity) one)
    next =>
      split
      next below => exact Format.roundsTo_zero (magnitude_le_of_far_below below)
      next =>
        rw [magnitude_eq_quotient]
        exact Format.nearest_roundsTo _ precise (Nat.pow_pos (by decide))

end Decimal
end ArchiveIntake
