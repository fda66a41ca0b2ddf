import ArchiveIntake.Number.Literal
import ArchiveIntake.Proofs.Json.Grammar

/-! The grammar of numbers as clients spell them. A sign, digits with a point among, before or after them,
and an exponent: whatever is written so is read as the decimal number that it spells, and nothing else is
read as a decimal number. -/

namespace ArchiveIntake

open Json (AreDigits digitText SpellsExponent)

namespace Text
variable {c : Char} {digits : List Nat} {cs rest : List Char}

def EndsDigits (rest : List Char) : Prop := ∀ c ∈ rest.head?, digitValue? c = none

theorem digitValue?_eq_some_iff {digit : Nat} :
    digitValue? c = some digit ↔ digit < 10 ∧ c = Nat.digitChar digit := by
  constructor
  · intro read
    simp only [digitValue?, Option.ite_none_right_eq_some, Option.some.injEq] at read
    obtain ⟨isDigit, rfl⟩ := read
    obtain ⟨low, high⟩ : 48 ≤ c.toNat ∧ c.toNat ≤ 57 := Char.isDigit_iff_toNat.mp isDigit
    have small : c.toNat - '0'.toNat < 10 := by
      change c.toNat - 48 < 10
      omega
    refine ⟨small, Char.toNat_inj.mp ?_⟩
    rw [Nat.toNat_digitChar_of_lt_ten small]
    change c.toNat = 48 + (c.toNat - 48)
    omega
  · rintro ⟨small, rfl⟩
    exact Json.digitValue?_digitChar digit small

theorem takeDigits_eq_iff :
    takeDigits cs = (digits, rest) ↔ AreDigits digits ∧ cs = digitText digits ++ rest ∧ EndsDigits rest := by
  induction cs generalizing digits with
  | nil =>
    simp only [takeDigits, Prod.mk.injEq]
    constructor
    · rintro ⟨rfl, rfl⟩
      exact ⟨by simp [AreDigits], rfl, by simp [EndsDigits]⟩
    · rintro ⟨-, shape, -⟩
      simpa [digitText] using shape.symm
  | cons c cs ih =>
    cases read : digitValue? c with
    | none =>
      simp only [takeDigits, read, Prod.mk.injEq]
      constructor
      · rintro ⟨rfl, rfl⟩
        exact ⟨by simp [AreDigits], rfl, by simp [EndsDigits, read]⟩
      · rintro ⟨areDigits, shape, -⟩
        cases digits with
        | nil => exact ⟨rfl, shape⟩
        | cons digit digits =>
          obtain ⟨small, -⟩ := List.forall_mem_cons.mp areDigits
          obtain ⟨rfl, -⟩ := List.cons.inj shape
          cases read.symm.trans (digitValue?_eq_some_iff.mpr ⟨small, rfl⟩)
    | some digit =>
      obtain ⟨small, rfl⟩ := digitValue?_eq_some_iff.mp read
      have step : takeDigits (Nat.digitChar digit :: cs) =
          (digit :: (takeDigits cs).1, (takeDigits cs).2) := by
        simp only [takeDigits, read]
      rw [step, Prod.mk.injEq]
      constructor
      · rintro ⟨rfl, rfl⟩
        obtain ⟨others, shape, ends⟩ := ih.mp rfl
        exact ⟨List.forall_mem_cons.mpr ⟨small, others⟩, congrArg (Nat.digitChar digit :: ·) shape, ends⟩
      · rintro ⟨areDigits, shape, ends⟩
        cases digits with
        | nil =>
          cases shape
          cases read.symm.trans (ends _ rfl)
        | cons first digits =>
          obtain ⟨smallFirst, others⟩ := List.forall_mem_cons.mp areDigits
          obtain ⟨same, shape⟩ := List.cons.inj shape
          have rest := ih.mpr ⟨others, shape, ends⟩
          have first : digit = first := Option.some.inj
            ((Json.digitValue?_digitChar digit small).symm.trans
              (same ▸ Json.digitValue?_digitChar first smallFirst))
          rw [rest, first]
          exact ⟨rfl, rfl⟩

end Text

def exponentValue : Option (Bool × List Nat) → Int
  | none => 0
  | some (negative, digits) => if negative then -(Decimal.ofDigits digits : Int) else Decimal.ofDigits digits

namespace Literal

def signs : List (List Char × Bool) := [([], false), (['+'], false), (['-'], true)]

/-- A point may have no digits after it. -/
inductive SpellsFraction : List Nat → List Char → Prop
  | none : SpellsFraction [] []
  | some (digits : List Nat) (areDigits : AreDigits digits) :
      SpellsFraction digits ('.' :: digitText digits)

/-- How the magnitude of a number may be written: with a digit before or after the point, at least. -/
inductive SpellsMagnitude : Nat → Int → List Char → Prop
  | intro (whole fraction : List Nat) (exponent : Option (Bool × List Nat))
      (fractionText exponentText : List Char) (nonempty : whole ≠ [] ∨ fraction ≠ [])
      (digits : AreDigits whole) (spelledFraction : SpellsFraction fraction fractionText)
      (spelledExponent : SpellsExponent exponent exponentText) :
      SpellsMagnitude (Decimal.ofDigits (whole ++ fraction)) (exponentValue exponent - fraction.length)
        (digitText whole ++ fractionText ++ exponentText)

/-- How a decimal number may be written. -/
inductive Spells : Decimal → List Char → Prop
  | intro (sign : List Char) (negative : Bool) (significand : Nat) (exponent : Int) (text : List Char)
      (signed : (sign, negative) ∈ signs) (spelled : SpellsMagnitude significand exponent text) :
      Spells ⟨negative, significand, exponent⟩ (sign ++ text)

variable {cs text : List Char} {negative : Bool} {significand : Nat} {exponent : Int} {value : Decimal}

theorem takeSign_of_signed {sign : List Char} (signed : (sign, negative) ∈ signs)
    (unsigned : ∀ c ∈ text.head?, c ≠ '+' ∧ c ≠ '-') : takeSign (sign ++ text) = (negative, text) := by
  simp only [signs, List.mem_cons, Prod.mk.injEq, List.not_mem_nil, or_false] at signed
  rcases signed with ⟨rfl, rfl⟩ | ⟨rfl, rfl⟩ | ⟨rfl, rfl⟩
  · cases text with
    | nil => rfl
    | cons c text =>
      obtain ⟨plus, minus⟩ := unsigned c rfl
      simp [takeSign, plus, minus]
  · rfl
  · rfl

theorem exists_takeSign (cs : List Char) :
    ∃ sign, (sign, (takeSign cs).1) ∈ signs ∧ cs = sign ++ (takeSign cs).2 := by
  unfold takeSign
  split
  · exact ⟨['-'], by simp [signs], rfl⟩
  · exact ⟨['+'], by simp [signs], rfl⟩
  · exact ⟨[], by simp [signs], rfl⟩

/-! The exponent. -/

/-- An exponent begins with a letter, so digits in front of it end there. -/
theorem endsDigits_of_spellsExponent {given : Option (Bool × List Nat)} (spelled : SpellsExponent given text) :
    Text.EndsDigits text := by
  cases spelled with
  | none => simp [Text.EndsDigits]
  | some mark sign negative first rest marked =>
    simp only [List.mem_cons, List.not_mem_nil, or_false] at marked
    rcases marked with rfl | rfl <;> simp [Text.EndsDigits, Text.digitValue?]

theorem head_digitText {first : Nat} (small : first < 10) (rest : List Nat) :
    ∀ c ∈ (digitText (first :: rest)).head?, c ≠ '+' ∧ c ≠ '-' := by
  have digits : ∀ digit < 10, Nat.digitChar digit ≠ '+' ∧ Nat.digitChar digit ≠ '-' := by decide
  rintro c ⟨⟩
  exact digits first small

theorem exponent?_of_spells {given : Option (Bool × List Nat)} (spelled : SpellsExponent given text) :
    exponent? text = some (exponentValue given) := by
  cases spelled with
  | none => rfl
  | some mark sign negative first rest marked signed digits =>
    have taken : Text.takeDigits (digitText (first :: rest)) = (first :: rest, []) :=
      Text.takeDigits_eq_iff.mpr ⟨digits, (List.append_nil _).symm, by simp [Text.EndsDigits]⟩
    have sized : takeSign (sign ++ digitText (first :: rest)) = (negative, digitText (first :: rest)) :=
      takeSign_of_signed signed (head_digitText (digits first (by simp)) rest)
    have isMark : mark = 'e' ∨ mark = 'E' := by simpa using marked
    simp only [List.cons_append, exponent?, if_pos isMark, sized, taken, exponentValue]

theorem exists_spellsExponent (read : exponent? cs = some exponent) :
    ∃ given, SpellsExponent given cs ∧ exponentValue given = exponent := by
  cases cs with
  | nil => exact ⟨none, .none, Option.some.inj read⟩
  | cons c rest =>
    simp only [exponent?] at read
    split at read
    next isMark =>
      obtain ⟨sign, signed, shape⟩ := exists_takeSign rest
      split at read
      · cases read
      next digits nonempty taken =>
        obtain ⟨areDigits, body, -⟩ := Text.takeDigits_eq_iff.mp taken
        obtain ⟨first, digits, rfl⟩ := List.exists_cons_of_ne_nil fun none => nonempty none
        refine ⟨some ((takeSign rest).1, first :: digits), ?_, Option.some.inj read⟩
        have spelled := SpellsExponent.some c sign _ first digits (by simpa using isMark) signed areDigits
        rwa [← List.append_nil (digitText _), ← body, List.cons_append, ← shape] at spelled
      · cases read
    · cases read

/-! The magnitude. -/

def takeFraction : List Char → List Nat × List Char
  | '.' :: after => Text.takeDigits after
  | rest => ([], rest)

theorem decimal?_eq (negative : Bool) (cs : List Char) :
    decimal? negative cs =
      let whole := (Text.takeDigits cs).1
      let fraction := (takeFraction (Text.takeDigits cs).2).1
      if whole.isEmpty ∧ fraction.isEmpty then none
      else (exponent? (takeFraction (Text.takeDigits cs).2).2).map fun exponent =>
        ⟨negative, Decimal.ofDigits (whole ++ fraction), exponent - fraction.length⟩ := rfl

theorem takeFraction_of_spells {fraction : List Nat} {rest : List Char} {given : Option (Bool × List Nat)}
    (spelled : SpellsFraction fraction text) (after : SpellsExponent given rest) :
    takeFraction (text ++ rest) = (fraction, rest) := by
  cases spelled with
  | none =>
    cases after with
    | none => rfl
    | some mark _ _ _ _ marked =>
      simp only [List.mem_cons, List.not_mem_nil, or_false] at marked
      rcases marked with rfl | rfl <;> rfl
  | some _ digits => exact Text.takeDigits_eq_iff.mpr ⟨digits, rfl, endsDigits_of_spellsExponent after⟩

theorem exists_spellsFraction (cs : List Char) :
    ∃ text, SpellsFraction (takeFraction cs).1 text ∧ cs = text ++ (takeFraction cs).2 := by
  unfold takeFraction
  split
  next after =>
    obtain ⟨digits, shape, -⟩ := Text.takeDigits_eq_iff.mp (Prod.eta (Text.takeDigits after)).symm
    exact ⟨_, .some _ digits, congrArg ('.' :: ·) shape⟩
  next => exact ⟨[], .none, rfl⟩

theorem decimal?_of_spells (spelled : SpellsMagnitude significand exponent text) (negative : Bool) :
    decimal? negative text = some ⟨negative, significand, exponent⟩ := by
  obtain ⟨whole, fraction, given, fractionText, exponentText, nonempty, digits, spelledFraction,
    spelledExponent⟩ := spelled
  have ends : Text.EndsDigits (fractionText ++ exponentText) := by
    cases spelledFraction with
    | none => exact endsDigits_of_spellsExponent spelledExponent
    | some => simp [Text.EndsDigits, Text.digitValue?]
  have taken : Text.takeDigits (digitText whole ++ fractionText ++ exponentText) =
      (whole, fractionText ++ exponentText) :=
    Text.takeDigits_eq_iff.mpr ⟨digits, List.append_assoc .., ends⟩
  have some : ¬(whole.isEmpty = true ∧ fraction.isEmpty = true) := by
    simpa only [List.isEmpty_iff, Decidable.not_and_iff_or_not] using nonempty
  simp only [decimal?_eq, taken, takeFraction_of_spells spelledFraction spelledExponent, if_neg some,
    exponent?_of_spells spelledExponent, Option.map_some]

theorem spells_of_decimal? (read : decimal? negative cs = some value) :
    value.negative = negative ∧ SpellsMagnitude value.significand value.exponent cs := by
  obtain ⟨digits, shape, -⟩ := Text.takeDigits_eq_iff.mp (Prod.eta (Text.takeDigits cs)).symm
  obtain ⟨fractionText, spelledFraction, rest⟩ := exists_spellsFraction (Text.takeDigits cs).2
  simp only [decimal?_eq] at read
  split at read
  · cases read
  next some =>
    obtain ⟨exponent, found, rfl⟩ := Option.map_eq_some_iff.mp read
    obtain ⟨given, spelledExponent, rfl⟩ := exists_spellsExponent found
    have nonempty := Decidable.not_and_iff_or_not.mp some
    simp only [List.isEmpty_iff] at nonempty
    have spelled := SpellsMagnitude.intro _ _ given _ _ nonempty digits spelledFraction spelledExponent
    rw [List.append_assoc, ← rest, ← shape] at spelled
    exact ⟨rfl, spelled⟩

/-! The whole number. -/

theorem SpellsMagnitude.head (spelled : SpellsMagnitude significand exponent text) :
    ∃ c rest, text = c :: rest ∧ (c = '.' ∨ ∃ digit < 10, c = Nat.digitChar digit) := by
  obtain ⟨whole, fraction, given, fractionText, exponentText, nonempty, digits, spelledFraction,
    spelledExponent⟩ := spelled
  cases whole with
  | cons first rest => exact ⟨_, _, rfl, .inr ⟨first, digits first (by simp), rfl⟩⟩
  | nil =>
    cases spelledFraction with
    | none => exact absurd nonempty (by simp)
    | some => exact ⟨_, _, rfl, .inl rfl⟩

/-- A text is read as a decimal number if it spells one, and as that number. -/
theorem ofChars?_eq_decimal_iff : ofChars? cs = .ok (.decimal value) ↔ Spells value cs := by
  constructor
  · intro read
    obtain ⟨sign, signed, shape⟩ := exists_takeSign cs
    simp only [ofChars?] at read
    split at read
    · cases read
    split at read
    · cases read
    split at read
    · cases read
    split at read
    next found =>
      cases read
      obtain ⟨same, spelled⟩ := spells_of_decimal? found
      rw [shape]
      exact .intro sign value.negative value.significand value.exponent _ (same ▸ signed) spelled
    · cases read
  · rintro ⟨sign, negative, significand, exponent, text, signed, spelled⟩
    obtain ⟨c, rest, begins, first⟩ := spelled.head
    have digits : ∀ digit < 10, Nat.digitChar digit ≠ '+' ∧ Nat.digitChar digit ≠ '-' ∧
        (Nat.digitChar digit).toLower ≠ 'i' ∧ (Nat.digitChar digit).toLower ≠ 'n' := by decide
    have starts : c ≠ '+' ∧ c ≠ '-' ∧ c.toLower ≠ 'i' ∧ c.toLower ≠ 'n' := by
      rcases first with rfl | ⟨digit, small, rfl⟩
      · decide
      · exact digits digit small
    obtain ⟨plus, minus, notInfinite, notNan⟩ := starts
    have taken : takeSign (sign ++ text) = (negative, text) :=
      takeSign_of_signed signed (by rw [begins]; rintro _ ⟨⟩; exact ⟨plus, minus⟩)
    have full : (sign ++ text).isEmpty = false := by simp [begins]
    have infinite : ¬(text.map Char.toLower = "inf".toList ∨ text.map Char.toLower = "infinity".toList) := by
      simp [begins, notInfinite]
    have nan : ¬text.map Char.toLower = "nan".toList := by
      simp [begins, notNan]
    simp only [ofChars?, full, Bool.false_eq_true, if_false, taken, if_neg infinite, if_neg nan,
      decimal?_of_spells spelled]

end Literal

theorem Binary.exists_read_isFinite_iff {f : Format} {text : String} :
    (∃ value, Binary.read f text = .ok value ∧ value.isFinite = true) ↔
      ∃ value, Literal.Spells value text.toList ∧ (value.toBinary f).isFinite = true := by
  simp only [← Literal.ofChars?_eq_decimal_iff, Binary.read]
  cases read : Literal.ofChars? text.toList with
  | error e => simp [Except.map]
  | ok literal =>
    cases literal with
    | nan => simp [Except.map, Literal.toBinary]
    | infinity negative => simp [Except.map, Literal.toBinary, Binary.infinite, Binary.isFinite]
    | decimal value => simp [Except.map, Literal.toBinary]

end ArchiveIntake
