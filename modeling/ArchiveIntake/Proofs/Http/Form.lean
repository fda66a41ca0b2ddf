import ArchiveIntake.Http.Form
import ArchiveIntake.Proofs.Text.Utf8

/-! Forms as clients write them. Most bytes may be written in more than one way, pairs stand between
ampersands, and the first equals sign of a pair ends its name. However a form is written, it is read
as the pairs that were meant, and every list of pairs can be written. -/

namespace ArchiveIntake

namespace Text

theorem hexValue?_of_escapedByte? {high low byte : UInt8} (spelled : escapedByte? high low = some byte) :
    (hexValue? (byteChar high)).isSome ∧ (hexValue? (byteChar low)).isSome := by
  unfold escapedByte? at spelled
  cases first : hexValue? (byteChar high) with
  | none => simp [first] at spelled
  | some _ =>
    cases second : hexValue? (byteChar low) with
    | none => simp [first, second] at spelled
    | some _ => exact ⟨rfl, rfl⟩

end Text

namespace Http.Form
open Text

/-- How bytes are written in a name or a value. A byte stands for itself unless it has a meaning in
forms, a plus sign for a space, and a percent sign with two digits of either case for any byte. -/
inductive Spells : List UInt8 → List UInt8 → Prop
  | nil : Spells [] []
  | plain {written meant : List UInt8} (b : UInt8) (percent : b ≠ 0x25) (ampersand : b ≠ 0x26)
      (plus : b ≠ 0x2B) (rest : Spells written meant) : Spells (b :: written) (b :: meant)
  | space {written meant : List UInt8} (rest : Spells written meant) :
      Spells (0x2B :: written) (0x20 :: meant)
  | escape {written meant : List UInt8} (high low byte : UInt8)
      (spelled : escapedByte? high low = some byte) (rest : Spells written meant) :
      Spells (0x25 :: high :: low :: written) (byte :: meant)

theorem unescape_cons {b : UInt8} (percent : b ≠ 0x25) (rest : List UInt8) :
    unescape (b :: rest) = plainByte b :: unescape rest := by
  rcases rest with _ | ⟨_, _ | ⟨_, _⟩⟩
  · simp [unescape]
  · simp [unescape]
  · rw [unescape, if_neg percent]

namespace Spells
variable {written meant : List UInt8}

theorem unescape_eq (spells : Spells written meant) : unescape written = meant := by
  induction spells with
  | nil => rfl
  | plain b percent ampersand plus rest ih => rw [unescape_cons percent, plainByte, if_neg plus, ih]
  | space rest ih => rw [unescape_cons (by decide), ih]; rfl
  | escape high low byte spelled rest ih => simp only [unescape, if_true, spelled, ih]

theorem no_ampersand (spells : Spells written meant) : ∀ b ∈ written, (b == 0x26) = false := by
  induction spells with
  | nil => simp
  | plain b percent ampersand plus rest ih => simpa [ampersand] using ih
  | space rest ih => simpa using ih
  | escape high low byte spelled rest ih =>
    obtain ⟨first, second⟩ := hexValue?_of_escapedByte? spelled
    have digit {b : UInt8} (hex : (hexValue? (byteChar b)).isSome = true) : b ≠ 0x26 := by
      rintro rfl
      cases hex
    simpa [digit first, digit second] using ih

end Spells

/-- One pair as it is written. No equals sign stands in the name; it is escaped there. A name alone has
the empty value. -/
inductive SpellsPair (pair : String × String) : List UInt8 → Prop
  | valued (name value : List UInt8) (ends : 0x3D ∉ name)
      (named : Spells name (Utf8.encode pair.1.toList))
      (valued : Spells value (Utf8.encode pair.2.toList)) : SpellsPair pair (name ++ 0x3D :: value)
  | bare (name : List UInt8) (present : name ≠ []) (ends : 0x3D ∉ name)
      (named : Spells name (Utf8.encode pair.1.toList)) (unvalued : pair.2 = "") : SpellsPair pair name

/-- Pairs as they are written one after another, with an ampersand after each but the last. More
ampersands do no harm. -/
inductive SpellsForm : List (String × String) → List UInt8 → Prop
  | nil : SpellsForm [] []
  | single {pair : String × String} {written : List UInt8} (only : SpellsPair pair written) :
      SpellsForm [pair] written
  | cons {pair : String × String} {pairs : List (String × String)} {written others : List UInt8}
      (first : SpellsPair pair written) (rest : SpellsForm pairs others) :
      SpellsForm (pair :: pairs) (written ++ 0x26 :: others)
  | gap {pairs : List (String × String)} {others : List UInt8} (rest : SpellsForm pairs others) :
      SpellsForm pairs (0x26 :: others)

section Reading
variable {pair : String × String} {pairs : List (String × String)} {written : List UInt8}

theorem decodeText_of_spells {text : String} (spells : Spells written (Utf8.encode text.toList)) :
    decodeText written = text := by
  rw [decodeText, spells.unescape_eq, Utf8.lossy_encode]

namespace SpellsPair

theorem decodePair_eq (spells : SpellsPair pair written) : decodePair written = pair := by
  cases spells with
  | valued name value ends named valued =>
    have parts : cut (0x3D : UInt8) (name ++ 0x3D :: value) = some (name, value) :=
      cut_eq_some_iff.mpr ⟨rfl, ends⟩
    simp only [decodePair, parts, decodeText_of_spells named, decodeText_of_spells valued]
  | bare name present ends named unvalued =>
    simp only [decodePair, cut_eq_none_iff.mpr ends, decodeText_of_spells named, ← unvalued]

theorem no_ampersand (spells : SpellsPair pair written) : ∀ b ∈ written, (b == 0x26) = false := by
  cases spells with
  | valued name value ends named valued =>
    intro b member
    rcases List.mem_append.mp member with inName | inRest
    · exact named.no_ampersand b inName
    · rcases List.mem_cons.mp inRest with rfl | inValue
      · rfl
      · exact valued.no_ampersand b inValue
  | bare name present ends named unvalued => exact named.no_ampersand

theorem isEmpty_eq (spells : SpellsPair pair written) : written.isEmpty = false := by
  cases spells with
  | valued name value => cases name <;> rfl
  | bare name present => exact List.isEmpty_eq_false_iff.mpr present

end SpellsPair

/-- However a form is written, it is read as the pairs that were meant. -/
theorem SpellsForm.decode_eq (spells : SpellsForm pairs written) : decode written = pairs := by
  unfold decode
  induction spells with
  | nil => rfl
  | single only =>
    rw [pieces_of_whole only.no_ampersand]
    simp [only.isEmpty_eq, only.decodePair_eq]
  | cons first rest ih =>
    rw [pieces_append first.no_ampersand rfl]
    simp [first.isEmpty_eq, first.decodePair_eq, ih]
  | gap rest ih => simpa [pieces] using ih

end Reading

/-! The writer of forms is one way to write them. -/

theorem escapedByte?_hexByte : ∀ n < 256,
    escapedByte? (hexByte (n / 16)) (hexByte (n % 16)) = some (UInt8.ofNat n) := by
  decide +kernel

theorem hexByte_ne : ∀ n < 16, hexByte n ≠ 0x3D := by decide

theorem spells_encodeByte {written meant : List UInt8} (b : UInt8) (rest : Spells written meant) :
    Spells (encodeByte b ++ written) (b :: meant) := by
  unfold encodeByte
  by_cases unescaped : isUnescaped b = true
  · rw [if_pos unescaped]
    refine .plain b ?_ ?_ ?_ rest <;>
    · rintro rfl
      cases unescaped
  · rw [if_neg unescaped]
    by_cases blank : b = 0x20
    · rw [if_pos blank, blank]
      exact .space rest
    · rw [if_neg blank]
      refine .escape _ _ b ?_ rest
      rw [escapedByte?_hexByte b.toNat b.toNat_lt, UInt8.ofNat_toNat]

theorem spells_encodeText (text : String) : Spells (encodeText text) (Utf8.encode text.toList) := by
  unfold encodeText
  induction Utf8.encode text.toList with
  | nil => exact .nil
  | cons b rest ih =>
    rw [List.flatMap_cons]
    exact spells_encodeByte b ih

theorem not_mem_encodeText (text : String) : 0x3D ∉ encodeText text := by
  intro member
  obtain ⟨b, -, written⟩ := List.mem_flatMap.mp member
  have bounded := b.toNat_lt
  unfold encodeByte at written
  split at written
  next unescaped =>
    cases List.mem_singleton.mp written
    cases unescaped
  next =>
    split at written
    · cases List.mem_singleton.mp written
    · simp only [List.mem_cons, List.not_mem_nil, or_false] at written
      rcases written with percent | high | low
      · cases percent
      · exact hexByte_ne _ (by omega) high.symm
      · exact hexByte_ne _ (by omega) low.symm

theorem spellsPair_encodePair (pair : String × String) : SpellsPair pair (encodePair pair) :=
  .valued _ _ (not_mem_encodeText pair.1) (spells_encodeText pair.1) (spells_encodeText pair.2)

theorem spellsForm_encode (pairs : List (String × String)) : SpellsForm pairs (encode pairs) := by
  fun_induction encode pairs with
  | case1 => exact .nil
  | case2 pair => exact .single (spellsPair_encodePair pair)
  | case3 pair rest _ ih => exact .cons (spellsPair_encodePair pair) ih

end Http.Form
end ArchiveIntake
