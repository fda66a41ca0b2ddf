import ArchiveIntake.Json.Number
import ArchiveIntake.Proofs.Json.Grammar
import ArchiveIntake.Proofs.Number.Accuracy

/-! How well a JSON number is read. Its digits are counted as long as they fit into 64 bits, the others only
by their number, and what is counted is scaled by a power of ten in doubles. Each of these steps changes the
number by a factor close to one, unless the result is tiny, and so does all of it: the double that is read is
not the nearest one, but it is near. No number is refused that is not too great for a double. -/

namespace ArchiveIntake

namespace Decimal
variable {digits : List Nat}

theorem ofDigits_append (first second : List Nat) :
    ofDigits (first ++ second) = ofDigits first * 10 ^ second.length + ofDigits second := by
  have shifted (n : Nat) : second.foldl (fun n d => 10 * n + d) n =
      n * 10 ^ second.length + second.foldl (fun n d => 10 * n + d) 0 := by
    induction second generalizing n with
    | nil => simp
    | cons digit rest ih =>
      rw [List.foldl_cons, List.foldl_cons, ih, ih (10 * 0 + digit), List.length_cons, Nat.pow_succ]
      ring
  rw [ofDigits, List.foldl_append, shifted]
  rfl

theorem ofDigits_singleton (digit : Nat) : ofDigits [digit] = digit := by simp [ofDigits]

theorem ofDigits_lt (areDigits : Json.AreDigits digits) : ofDigits digits < 10 ^ digits.length := by
  induction digits with
  | nil => simp [ofDigits]
  | cons digit rest ih =>
    obtain ⟨small, others⟩ := List.forall_mem_cons.mp areDigits
    have below := ih others
    rw [← List.singleton_append, ofDigits_append, ofDigits_singleton, List.length_append, Nat.pow_add]
    simp only [List.length_singleton, Nat.pow_one]
    nlinarith

section Leading
variable (first : List Nat) {rest other : List Nat}

theorem leading_digits (areDigits : Json.AreDigits rest) :
    (ofDigits first : ℚ) ≤ ofDigits (first ++ rest) / 10 ^ rest.length ∧
      (ofDigits (first ++ rest) / 10 ^ rest.length : ℚ) ≤ ofDigits first + 1 := by
  have below : (ofDigits rest : ℚ) ≤ 10 ^ rest.length := by exact_mod_cast (ofDigits_lt areDigits).le
  have positive : (0 : ℚ) < 10 ^ rest.length := by positivity
  rw [ofDigits_append, le_div_iff₀ positive, div_le_iff₀ positive]
  push_cast
  constructor <;> nlinarith

theorem within_of_leading_digits (areDigits : Json.AreDigits rest) (areOther : Json.AreDigits other)
    (many : 2 ^ 60 ≤ ofDigits first) (exponent : Int) :
    Within (1 + 1 / 2 ^ 60) (ofDigits (first ++ rest) * 10 ^ (exponent - rest.length))
      (ofDigits (first ++ other) * 10 ^ (exponent - other.length)) := by
  have many : (2 ^ 60 : ℚ) ≤ ofDigits first := by exact_mod_cast many
  have scaled (digits : List Nat) (places : Nat) :
      (ofDigits digits * 10 ^ (exponent - places) : ℚ) = ofDigits digits / 10 ^ places * 10 ^ exponent := by
    rw [zpow_sub₀ (by norm_num), zpow_natCast]
    ring
  obtain ⟨least, most⟩ := leading_digits first areDigits
  obtain ⟨leastOther, mostOther⟩ := leading_digits first areOther
  rw [scaled, scaled]
  exact Within.mul_right (by positivity) (by constructor <;> linarith)

end Leading
end Decimal

namespace Json.NumberText
open Decimal

/-- Digits are counted as long as they fit; what is counted of them stands in front of the others. -/
theorem exists_count (before digits : List Nat) :
    ∃ taken rest, digits = taken ++ rest ∧
      count (ofDigits before) digits = (ofDigits (before ++ taken), rest) ∧
      (ofDigits before ≤ counterMax → ofDigits (before ++ taken) ≤ counterMax) ∧
      (AreDigits digits → rest ≠ [] → 2 ^ 60 ≤ ofDigits (before ++ taken)) := by
  induction digits generalizing before with
  | nil => exact ⟨[], [], rfl, by simp [count], by simp, by simp⟩
  | cons digit digits ih =>
    by_cases fits : 10 * ofDigits before + digit ≤ counterMax
    · obtain ⟨taken, rest, parts, counted, bounded, many⟩ := ih (before ++ [digit])
      have step : ofDigits (before ++ [digit]) = 10 * ofDigits before + digit := by
        rw [ofDigits_append, ofDigits_singleton, List.length_singleton, Nat.pow_one, Nat.mul_comm]
      rw [List.append_assoc, List.singleton_append] at counted bounded many
      rw [step] at counted bounded
      refine ⟨digit :: taken, rest, by rw [parts, List.cons_append], ?_, fun _ => bounded fits, ?_⟩
      · rw [count, if_pos fits, counted]
      · exact fun areDigits => many (List.forall_mem_cons.mp areDigits).2
    · refine ⟨[], digit :: digits, rfl, by simp [count, fits], by simp, fun areDigits _ => ?_⟩
      have small := areDigits digit (by simp)
      rw [List.append_nil]
      simp only [counterMax, UInt64.size] at fits
      omega

def decimal (n : NumberText) : Decimal :=
  ⟨n.negative, ofDigits (n.whole ++ n.fraction), n.writtenExponent - n.fraction.length⟩

/-- The digits that are counted and the power of ten they are scaled by. -/
def kept (n : NumberText) : Nat × Int :=
  let (whole, dropped) := count 0 n.whole
  let (significand, rest) := count whole n.fraction
  (significand, n.writtenExponent + dropped.length - (n.fraction.length - rest.length : Nat))

theorem kept_le (n : NumberText) : n.kept.1 ≤ counterMax := by
  obtain ⟨whole, dropped, -, counted, boundedWhole, -⟩ := exists_count [] n.whole
  obtain ⟨fraction, rest, -, countedFraction, bounded, -⟩ := exists_count whole n.fraction
  change count 0 n.whole = _ at counted
  simp only [kept, counted, List.nil_append, countedFraction]
  exact bounded (boundedWhole (Nat.zero_le _))

/-- Digits that are not counted hardly change the number. Either all digits before the point are counted, or
those that are counted before the point are so many that the others do not matter. -/
theorem kept_within {n : NumberText} (digits : AreDigits n.whole) (digitsFraction : AreDigits n.fraction) :
    Within (1 + 1 / 2 ^ 60) n.decimal.magnitude (n.kept.1 * 10 ^ n.kept.2) := by
  obtain ⟨whole, dropped, parts, counted, -, many⟩ := exists_count [] n.whole
  obtain ⟨fraction, rest, partsFraction, countedFraction, -, manyFraction⟩ := exists_count whole n.fraction
  change count 0 n.whole = _ at counted
  have length : n.fraction.length - rest.length = fraction.length := by
    rw [partsFraction, List.length_append, Nat.add_sub_cancel]
  simp only [magnitude, decimal, kept, counted, List.nil_append, countedFraction, length]
  generalize n.writtenExponent = exponent
  rw [parts] at digits many ⊢
  rw [partsFraction] at digitsFraction manyFraction ⊢
  by_cases all : dropped = []
  · subst all
    by_cases none : rest = []
    · subst none
      simpa using Within.refl (by norm_num) (by positivity)
    · have close := within_of_leading_digits _ (List.forall_mem_append.mp digitsFraction).2
        (List.forall_mem_nil _ : AreDigits []) (manyFraction digitsFraction none) (exponent - fraction.length)
      simpa [sub_sub, add_comm] using close
  · obtain ⟨_, digitsDropped⟩ := List.forall_mem_append.mp digits
    have digitsOther := List.forall_mem_append.mpr ⟨digitsDropped, digitsFraction⟩
    have close := within_of_leading_digits _ digitsOther (List.forall_mem_append.mp digitsFraction).1
      (many digits all) (exponent + dropped.length)
    have places : exponent + dropped.length - (dropped.length + (fraction.length + rest.length) : Int) =
        exponent - (fraction.length + rest.length) := by
      ring
    simpa [places] using close

/-! Scaling in doubles. -/

section Doubles
open Format

theorem two_mul_zpow_le {exponent other : Int} (less : exponent < other) :
    (2 * 2 ^ exponent : ℚ) ≤ 2 ^ other := by
  rw [← zpow_one_add₀ (by norm_num)]
  exact zpow_le_zpow_right₀ (by norm_num) (by omega)

theorem counter_double {significand : Nat} (positive : 0 < significand) (bounded : significand ≤ counterMax) :
    let rank := double.nearest significand 1
    rank < double.infinity ∧ 1 ≤ double.value rank ∧
      Within (1 + 1 / 2 ^ 52) significand (double.value rank) := by
  have rounds := nearest_roundsTo significand double_precise Nat.one_pos
  have most : (significand : ℚ) ≤ (2 ^ 64 : Nat) := by exact_mod_cast bounded.trans (by decide)
  rw [Nat.cast_one, div_one] at rounds
  refine double_of_one_le (1086 * double.binade + double.binade) rounds (by exact_mod_cast positive) ?_
    (by decide)
  rw [double_two_pow]
  norm_num at most ⊢
  exact most

/-- The greatest power of ten that is used is below the greatest double. -/
theorem power_double {exponent : Nat} (small : exponent ≤ maxScaling) :
    let rank := Decimal.rank .double 1 exponent
    rank < double.infinity ∧ 1 ≤ double.value rank ∧
      Within (1 + 1 / 2 ^ 52) (10 ^ exponent) (double.value rank) := by
  have rounds := Decimal.rank_roundsTo double_precise (by decide) 1 exponent
  have most : 10 ^ exponent ≤ 5 * 2 ^ 50 * 2 ^ 971 :=
    (Nat.pow_le_pow_right (by decide) small).trans (by decide +kernel)
  rw [Nat.cast_one, one_mul, zpow_natCast] at rounds
  refine double_of_one_le (2045 * double.binade + 5 * 2 ^ 50) rounds (one_le_pow₀ (by norm_num)) ?_ (by decide)
  rw [double_value (by decide) (by decide)]
  change (10 : ℚ) ^ exponent ≤ _ * 2 ^ (971 : Int)
  rw [zpow_ofNat]
  exact_mod_cast most

section Scaled
variable {significand exponent : Nat}

/-- Up to the power of ten that is used a product is exact but for three roundings, unless it is too great. -/
theorem product_near (positive : 0 < significand) (bounded : significand ≤ counterMax)
    (small : exponent ≤ maxScaling) :
    let rank := double.product (double.nearest significand 1) (Decimal.rank .double 1 exponent)
    (rank < double.infinity → Within (1 + 1 / 2 ^ 50) (significand * 10 ^ exponent) (double.value rank)) ∧
      (¬rank < double.infinity → 3 * 2 ^ 1022 ≤ (significand * 10 ^ exponent : ℚ)) := by
  obtain ⟨_, oneStart, nearStart⟩ := counter_double positive bounded
  obtain ⟨_, onePower, nearPower⟩ := power_double small
  intro rank
  have rounds : double.RoundsTo _ rank := Format.product_roundsTo double_precise (double.nearest significand 1)
    (Decimal.rank .double 1 exponent)
  have exact := nearStart.mul (by positivity) (double.value_nonneg _) (by positivity) (double.value_nonneg _)
    nearPower
  generalize double.value (double.nearest significand 1) = start at *
  generalize double.value (Decimal.rank .double 1 exponent) = power at *
  have one : 1 ≤ start * power := one_le_mul_of_one_le_of_one_le oneStart onePower
  constructor
  · intro finite
    have rounded := double_within rounds (double_normal_of_one_le one) finite
    have near := exact.trans (by norm_num) (by norm_num) rounded
    exact near.mono (by norm_num) (by positivity) (double.value_nonneg rank)
  · intro infinite
    have below := rounds.below (2045 * double.binade + 7 * 2 ^ 50)
      (Nat.lt_of_lt_of_le (by decide) (Nat.not_lt.mp infinite))
    have least := (Format.value_lt_middle ..).le.trans below
    rw [double_value (by decide) (by decide)] at least
    change _ * 2 ^ (971 : Int) ≤ _ at least
    rw [zpow_ofNat] at least
    have powers : ((7 * 2 ^ 50 : Nat) * 2 ^ 971 : ℚ) = 7 / 2 * 2 ^ 1022 := by
      rw [show 1022 = 971 + 51 from rfl, pow_add]
      generalize (2 : ℚ) ^ 971 = power
      norm_num
      ring
    have great : (0 : ℚ) < 2 ^ 1022 := by positivity
    rw [powers] at least
    have most := exact.2
    clear powers
    generalize (2 : ℚ) ^ 1022 = great at *
    norm_num at most
    linarith

theorem quotient_near (positive : 0 < significand) (bounded : significand ≤ counterMax)
    (small : exponent ≤ maxScaling) :
    Near (1 + 1 / 2 ^ 50) (2 ^ (-800 : Int)) (significand / 10 ^ exponent)
      (double.value (double.quotient (double.nearest significand 1) (Decimal.rank .double 1 exponent))) := by
  obtain ⟨finite, oneStart, nearStart⟩ := counter_double positive bounded
  obtain ⟨_, onePower, nearPower⟩ := power_double small
  have rounds := Format.quotient_roundsTo double_precise (double.nearest significand 1)
    (zero_lt_one.trans_le onePower)
  have inside := (Format.quotient_le double_precise (double.nearest significand 1) onePower).trans_lt finite
  have exact := nearStart.div (by positivity) (double.value_nonneg _) (by positivity)
    (zero_lt_one.trans_le onePower) nearPower
  generalize double.quotient _ _ = rank at *
  generalize double.value (double.nearest significand 1) / _ = quotient at *
  by_cases normal : double.value double.binade ≤ quotient
  · have near := exact.trans (by norm_num) (by norm_num) (double_within rounds normal inside)
    exact .inl (near.mono (by norm_num) (by positivity) (double.value_nonneg rank))
  · have binade : double.value double.binade = 2 ^ (-1022 : Int) := by
      have first := double_two_pow 0
      rwa [Nat.zero_mul, Nat.zero_add] at first
    have less := two_mul_zpow_le (show -1022 < -800 by decide)
    have below := double.value_strictMono.monotone (rounds.le_of_le_value (not_le.mp normal).le)
    have most := exact.1
    have nonneg : (0 : ℚ) ≤ significand / 10 ^ exponent := by positivity
    rw [binade] at normal below
    generalize (2 : ℚ) ^ (-1022 : Int) = least at *
    norm_num at most
    exact .inr ⟨by linarith, by linarith⟩

theorem scaleDown_le (steps rank exponent : Nat) : scaleDown steps rank exponent ≤ rank := by
  induction steps generalizing rank exponent with
  | zero => exact Nat.le_refl rank
  | succ steps ih =>
    rw [scaleDown]
    split
    next small => exact Format.quotient_le double_precise rank (power_double small).2.1
    next =>
      split
      · exact Nat.le_refl rank
      · exact (ih _ _).trans (Format.quotient_le double_precise rank (power_double le_rfl).2.1)

/-- A quotient by a greater power of ten is tiny, and so is what the first step leaves. -/
theorem scaleDown_near (positive : 0 < significand) (bounded : significand ≤ counterMax) (exponent : Nat) :
    Near (1 + 1 / 2 ^ 50) (2 ^ (-800 : Int)) (significand / 10 ^ exponent)
      (double.value (scaleDown 4 (double.nearest significand 1) exponent)) := by
  by_cases small : exponent ≤ maxScaling
  · rw [scaleDown, if_pos small]
    exact quotient_near positive bounded small
  · obtain ⟨_, oneStart, -⟩ := counter_double positive bounded
    have nonzero : double.nearest significand 1 ≠ 0 := fun zero => by
      rw [zero, Format.value_zero] at oneStart
      norm_num at oneStart
    have steps := scaleDown_le 3
      (double.quotient (double.nearest significand 1) (Decimal.rank .double 1 maxScaling))
      (exponent - maxScaling)
    rw [scaleDown, if_neg small, if_neg nonzero]
    have first : (significand / 10 ^ maxScaling : ℚ) ≤ 2 ^ (-801 : Int) := by
      have most : significand * 2 ^ 801 ≤ 10 ^ maxScaling :=
        (Nat.mul_le_mul_right _ bounded).trans (by decide +kernel)
      rw [zpow_neg, zpow_ofNat, ← one_div, div_le_div_iff₀ (by positivity) (by positivity), one_mul]
      exact_mod_cast most
    have more : (significand / 10 ^ exponent : ℚ) ≤ significand / 10 ^ maxScaling := by
      gcongr
      · norm_num
      · omega
    have less := two_mul_zpow_le (show -801 < -800 by decide)
    have up : (0 : ℚ) < 2 ^ (-801 : Int) := by positivity
    have near := quotient_near positive bounded (le_refl maxScaling)
    have below := double.value_strictMono.monotone steps
    generalize (2 : ℚ) ^ (-801 : Int) = half at *
    generalize (2 : ℚ) ^ (-800 : Int) = tiny at *
    refine .inr ⟨by linarith, below.trans ?_⟩
    rcases near with near | near
    · have most := near.2
      norm_num at most
      linarith
    · exact near.2

end Scaled

section Scale
variable {significand : Nat}

def scaledRank (significand : Nat) (exponent : Int) : Option Nat :=
  let start := double.nearest significand 1
  if significand = 0 then some 0
  else if exponent < 0 then some (scaleDown 4 start exponent.natAbs)
  else if exponent ≤ maxScaling then
    let rank := double.product start (Decimal.rank .double 1 exponent)
    if rank < double.infinity then some rank else none
  else none

theorem scale_eq (negative : Bool) (significand : Nat) (exponent : Int) :
    scale negative significand exponent =
      (scaledRank significand exponent).bind fun rank =>
        if bounded : rank ≤ double.infinity then some (.signed negative rank bounded) else none := rfl

/-- The double that is read of a scaled counter is close to it, or both are tiny; only what is too great for
a double is not read. -/
theorem scaledRank_spec (bounded : significand ≤ counterMax) (exponent : Int) :
    (∃ rank, scaledRank significand exponent = some rank ∧ rank < double.infinity ∧
        Near (1 + 1 / 2 ^ 50) (2 ^ (-800 : Int)) (significand * 10 ^ exponent) (double.value rank)) ∨
      scaledRank significand exponent = none ∧ 3 * 2 ^ 1022 ≤ (significand * 10 ^ exponent : ℚ) := by
  rcases Nat.eq_zero_or_pos significand with rfl | positive
  · refine .inl ⟨0, rfl, by decide, .inl ?_⟩
    simp [Within, Format.value_zero]
  have nonzero := positive.ne'
  rcases lt_or_ge exponent 0 with below | nonneg
  · obtain ⟨places, rfl⟩ : ∃ places : Nat, exponent = -places := ⟨exponent.natAbs, by omega⟩
    have finite := (counter_double positive bounded).1
    have least := (scaleDown_le 4 (double.nearest significand 1) places).trans_lt finite
    refine .inl ⟨_, ?_, least, ?_⟩
    · simp only [scaledRank, if_neg nonzero, if_pos below, Int.natAbs_neg, Int.natAbs_natCast]
    · rw [zpow_neg (10 : ℚ), zpow_natCast, ← div_eq_mul_inv]
      exact scaleDown_near positive bounded places
  obtain ⟨places, rfl⟩ : ∃ places : Nat, exponent = places := ⟨exponent.toNat, by omega⟩
  rw [zpow_natCast]
  by_cases small : places ≤ maxScaling
  · obtain ⟨near, great⟩ := product_near positive bounded small
    have scaled : scaledRank significand places =
        let rank := double.product (double.nearest significand 1) (Decimal.rank .double 1 places)
        if rank < double.infinity then some rank else none := by
      simp only [scaledRank, if_neg nonzero, if_neg (not_lt.mpr nonneg), Nat.cast_le, if_pos small]
    rw [scaled]
    generalize double.product _ _ = rank at *
    by_cases finite : rank < double.infinity
    · exact .inl ⟨rank, if_pos finite, finite, .inl (near finite)⟩
    · exact .inr ⟨if_neg finite, great finite⟩
  · refine .inr ⟨?_, ?_⟩
    · simp only [scaledRank, if_neg nonzero, if_neg (not_lt.mpr nonneg), Nat.cast_le, if_neg small]
    · have least : 3 * 2 ^ 1022 ≤ significand * 10 ^ places :=
        (show 3 * 2 ^ 1022 ≤ 1 * 10 ^ (maxScaling + 1) by decide +kernel).trans
          (Nat.mul_le_mul positive (Nat.pow_le_pow_right (by decide) (by omega)))
      exact_mod_cast least

end Scale

section Value
variable {n : NumberText}

theorem counter_near {significand : Nat} (bounded : significand ≤ counterMax) :
    double.nearest significand 1 < double.infinity ∧
      Near (1 + 1 / 2 ^ 50) (2 ^ (-800 : Int)) significand (double.value (double.nearest significand 1)) := by
  rcases Nat.eq_zero_or_pos significand with rfl | positive
  · have zero : double.nearest 0 1 = 0 := by decide +kernel
    rw [zero, Format.value_zero]
    exact ⟨by decide, .inl (by simp [Within])⟩
  · obtain ⟨finite, -, near⟩ := counter_double positive bounded
    exact ⟨finite, .inl (near.mono (by norm_num) (by positivity) (double.value_nonneg _))⟩

/-- A whole number that is counted to its last digit. -/
def IsInteger (n : NumberText) : Prop := (count 0 n.whole).2 = [] ∧ n.fraction = [] ∧ n.exponent = none

theorem value?_eq (n : NumberText) :
    n.IsInteger ∧ n.negative = false ∧ n.value? = some (.natural n.kept.1) ∨
      n.IsInteger ∧ n.negative = true ∧ 0 < n.kept.1 ∧ n.value? = some (.negative (-(n.kept.1 : Int))) ∨
      n.value? = (scale n.negative n.kept.1 n.kept.2).map .double := by
  rcases counted : count 0 n.whole with ⟨whole, dropped⟩
  rcases countedFraction : count whole n.fraction with ⟨significand, rest⟩
  simp only [IsInteger, value?, kept, counted, countedFraction, List.isEmpty_iff, Option.isNone_iff_eq_none]
  have same : n.fraction = [] → significand = whole := by
    intro none
    rw [none, count] at countedFraction
    exact (congrArg Prod.fst countedFraction).symm
  split
  next natural =>
    obtain ⟨integer, sign⟩ := natural
    exact .inl ⟨integer, by simpa using sign, by rw [same integer.2.1]⟩
  next notNatural =>
    split
    next negative =>
      obtain ⟨integer, up, -⟩ := negative
      have sign : n.negative = true := by simpa [integer] using notNatural
      exact .inr (.inl ⟨integer, sign, by rwa [same integer.2.1], by rw [same integer.2.1]⟩)
    next => exact .inr (.inr rfl)

theorem kept_of_isInteger (integer : n.IsInteger) : n.kept.2 = 0 := by
  obtain ⟨all, fraction, exponent⟩ := integer
  simp [kept, all, fraction, count, writtenExponent, exponent]

theorem near_of_within {x y z : ℚ} (nonneg : 0 ≤ x) (nonnegLast : 0 ≤ z)
    (within : Within (1 + 1 / 2 ^ 60) x y) (near : Near (1 + 1 / 2 ^ 50) (2 ^ (-800 : Int)) y z) : Near (1 + 1 / 2 ^ 40) (2 ^ (-700 : Int)) x z := by
  rcases near with near | ⟨tiny, tinyLast⟩
  · exact .inl ((within.trans (by norm_num) (by norm_num) near).mono (by norm_num) nonneg nonnegLast)
  · have less := two_mul_zpow_le (show -800 < -700 by decide)
    have most := within.1
    generalize (2 : ℚ) ^ (-800 : Int) = tiny at *
    norm_num at most
    exact .inr ⟨by linarith, by linarith⟩

/-- A number is read as a double of its sign that is close to it, or both are tiny; only a number that is too
great for a double is not read. -/
theorem value?_spec (digits : AreDigits n.whole) (digitsFraction : AreDigits n.fraction) :
    (∃ value rank within, n.value? = some value ∧ value.toDouble = .signed n.negative rank within ∧
        rank < double.infinity ∧
        Near (1 + 1 / 2 ^ 40) (2 ^ (-700 : Int)) n.decimal.magnitude (double.value rank)) ∨
      n.value? = none ∧ 2 ^ 1023 ≤ n.decimal.magnitude := by
  have close := kept_within digits digitsFraction
  have bounded := n.kept_le
  have nonneg : 0 ≤ n.decimal.magnitude := by unfold magnitude; positivity
  have spelled {counted : ℚ} {rank : Nat} :=
    near_of_within (y := counted) nonneg (double.value_nonneg rank)
  obtain ⟨finite, near⟩ := counter_near bounded
  rcases n.value?_eq with ⟨integer, sign, read⟩ | ⟨integer, sign, up, read⟩ | read
  · rw [kept_of_isInteger integer, zpow_zero, mul_one] at close
    refine .inl ⟨_, _, finite.le, read, ?_, finite, spelled close near⟩
    rw [sign]
    rfl
  · rw [kept_of_isInteger integer, zpow_zero, mul_one] at close
    refine .inl ⟨_, _, finite.le, read, ?_, finite, spelled close near⟩
    have below : -(n.kept.1 : Int) < 0 := by omega
    have size : (-(n.kept.1 : Int)).natAbs = n.kept.1 := by rw [Int.natAbs_neg, Int.natAbs_natCast]
    simp only [Number.toDouble, Binary.ofInt, Binary.ofRatio, below, decide_true, size, sign]
  · rcases scaledRank_spec bounded n.kept.2 with ⟨rank, scaled, finite, near⟩ | ⟨scaled, great⟩
    · refine .inl ⟨.double (.signed n.negative rank finite.le), rank, finite.le, ?_, rfl, finite,
        spelled close near⟩
      rw [read, scale_eq, scaled, Option.bind_some, dif_pos finite.le]
      rfl
    · refine .inr ⟨?_, ?_⟩
      · rw [read, scale_eq, scaled]
        rfl
      · have most := close.2
        rw [show 1023 = 1022 + 1 from rfl, pow_succ]
        generalize (2 : ℚ) ^ 1022 = half at *
        norm_num at most
        linarith

end Value

end Doubles

end Json.NumberText
end ArchiveIntake
